import Backfield.Proofs.Text.Linewise

/-!
# Exchanging words of a text

When words without line breaks are exchanged for others, a text keeps its lines, and each line keeps
what else it has.

* `Exchanges` says that some words of a text are exchanged, and `Alike` says so of texts.
* `exchanges_splitLinesFrom` follows the splitting into lines.
* `isLinewise_alike` is the result, so that it carries over to texts that are made of others.
-/

namespace Backfield.Text

/-- The second text is the first one with some words exchanged, none of them empty. -/
inductive Exchanges : List Char → List Char → Prop
  | nil : Exchanges [] []
  | same (c : Char) {text other : List Char} (h : Exchanges text other) :
      Exchanges (c :: text) (c :: other)
  | word {word word' text other : List Char} (hne : word ≠ []) (hne' : word' ≠ [])
      (hword : IsUnbroken word) (hword' : IsUnbroken word') (h : Exchanges text other) :
      Exchanges (word ++ text) (word' ++ other)

namespace Exchanges

variable {text other : List Char}

theorem refl (text : List Char) : Exchanges text text := by
  induction text with
  | nil => exact nil
  | cons c text ih => exact same c ih

theorem append {more more' : List Char} (h : Exchanges text other) (hmore : Exchanges more more') :
    Exchanges (text ++ more) (other ++ more') := by
  induction h with
  | nil => exact hmore
  | same c _ ih => exact same c ih
  | word hne hne' hword hword' _ ih =>
    rw [List.append_assoc, List.append_assoc]
    exact word hne hne' hword hword' ih

theorem eq_nil_iff (h : Exchanges text other) : text = [] ↔ other = [] := by
  cases h with
  | nil => exact Iff.rfl
  | same c h => exact iff_of_false (List.cons_ne_nil _ _) (List.cons_ne_nil _ _)
  | word hne hne' _ _ h =>
    exact iff_of_false (List.append_ne_nil_of_left_ne_nil hne _)
      (List.append_ne_nil_of_left_ne_nil hne' _)

/-- No word begins with a line break, so both texts begin with it or none does. -/
theorem head?_eq_iff (h : Exchanges text other) {c : Char} (hc : isLineBreak c = true) :
    text.head? = some c ↔ other.head? = some c := by
  have hother : ∀ {word : List Char}, word ≠ [] → IsUnbroken word →
      ∀ more, (word ++ more).head? ≠ some c := by
    intro word hne hword more hhead
    rw [List.head?_append_of_ne_nil _ hne] at hhead
    rw [hword c (List.mem_of_mem_head? hhead)] at hc
    cases hc
  cases h with
  | nil => exact Iff.rfl
  | same d h => exact Iff.rfl
  | word hne hne' hword hword' h => exact iff_of_false (hother hne hword _) (hother hne' hword' _)

end Exchanges

/-! ## Lines -/

/-- A line ends at a break, unless the break is the first half of a pair. -/
theorem splitLinesFrom_break {c : Char} {rest : List Char} (pending : List Char)
    (hc : isLineBreak c = true) (hpair : ¬(c = '\r' ∧ rest.head? = some '\n')) :
    splitLinesFrom pending (c :: rest) = pending.reverse :: splitLinesFrom [] rest := by
  rw [splitLinesFrom.eq_def]
  split
  · cases ‹_›
  · rename_i heq
    obtain ⟨rfl, rfl⟩ := List.cons.inj heq
    exact absurd ⟨rfl, rfl⟩ hpair
  · rename_i heq
    obtain ⟨rfl, rfl⟩ := List.cons.inj heq
    exact if_pos hc

/-- Each line is exchanged for one line, whatever has been read of the first one. -/
theorem exchanges_splitLinesFrom {pending pending' text other : List Char}
    (hpending : Exchanges pending.reverse pending'.reverse) (h : Exchanges text other) :
    List.Forall₂ Exchanges (splitLinesFrom pending text) (splitLinesFrom pending' other) := by
  induction h generalizing pending pending' with
  | nil =>
    have hempty : pending.isEmpty = pending'.isEmpty := by
      have hiff := hpending.eq_nil_iff
      rw [List.reverse_eq_nil_iff, List.reverse_eq_nil_iff] at hiff
      rw [Bool.eq_iff_iff, List.isEmpty_iff, List.isEmpty_iff, hiff]
    rw [splitLinesFrom, splitLinesFrom, hempty]
    split
    · exact .nil
    · exact .cons hpending .nil
  | @same c text other h ih =>
    cases hc : isLineBreak c with
    | false =>
      rw [splitLinesFrom_cons _ _ hc, splitLinesFrom_cons _ _ hc]
      refine ih ?_
      rw [List.reverse_cons, List.reverse_cons]
      exact hpending.append (.refl [c])
    | true =>
      have hnewline := h.head?_eq_iff (c := '\n') (by decide)
      by_cases hpair : c = '\r' ∧ text.head? = some '\n'
      · -- The newline ends the same line, so what follows it is what follows an empty line.
        obtain ⟨rfl, hhead⟩ := hpair
        obtain ⟨rest, rfl⟩ := List.head?_eq_some_iff.mp hhead
        obtain ⟨rest', rfl⟩ := List.head?_eq_some_iff.mp (hnewline.mp hhead)
        have hskipped := @ih [] [] .nil
        rw [splitLinesFrom_break [] (by decide) (by simp),
          splitLinesFrom_break [] (by decide) (by simp), List.forall₂_cons] at hskipped
        rw [splitLinesFrom, splitLinesFrom]
        exact .cons hpending hskipped.2
      · rw [splitLinesFrom_break _ hc hpair,
          splitLinesFrom_break _ hc (by rwa [← hnewline])]
        exact .cons hpending (ih .nil)
  | word hne hne' hword hword' h ih =>
    rw [splitLinesFrom_append _ _ hword, splitLinesFrom_append _ _ hword']
    refine ih ?_
    rw [List.reverse_append, List.reverse_append, List.reverse_reverse, List.reverse_reverse]
    have hone := Exchanges.word hne hne' hword hword' .nil
    rw [List.append_nil, List.append_nil] at hone
    exact hpending.append hone

/-! ## Texts -/

/-- The second text is the first one with some words exchanged. -/
def Alike (text other : String) : Prop := Exchanges text.toList other.toList

theorem Alike.append {text other more more' : String} (h : Alike text other)
    (hmore : Alike more more') : Alike (text ++ more) (other ++ more') := by
  rw [Alike, String.toList_append, String.toList_append]
  exact Exchanges.append h hmore

theorem alike_splitLines {text other : String} (h : Alike text other) :
    List.Forall₂ Alike (splitLines text) (splitLines other) := by
  rw [splitLines, splitLines, List.forall₂_map_left_iff, List.forall₂_map_right_iff]
  have hlines := @exchanges_splitLinesFrom [] [] _ _ .nil h
  simpa only [Alike, String.toList_ofList] using hlines

theorem isLinewise_alike : IsLinewise Alike where
  refl := fun text => Exchanges.refl text.toList
  eq_empty_iff := fun h => by
    rw [← String.toList_eq_nil_iff, ← String.toList_eq_nil_iff]
    exact h.eq_nil_iff
  after := fun front _ _ h => Alike.append (Exchanges.refl front.toList) h
  under := fun h hmore => (h.append (Exchanges.refl "\n".toList)).append hmore
  splitLines := alike_splitLines

end Backfield.Text

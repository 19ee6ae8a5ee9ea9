import Backfield.Proofs.Text.Exchange

/-!
# Renaming at the ends of lines

When the last words of some lines are exchanged for others, each after a blank, a text keeps what
else it has.

* `Renames` says that some names at the ends of lines are exchanged, and `Renamed` says so of texts.
* `isLinewise_renamed` is the result.
-/

namespace Backfield.Text

/-- A line ends before the text. -/
def BeginsLineEnd (text : List Char) : Prop := ∀ c ∈ text.head?, c = '\n'

/-- The second text is the first one with other names at the ends of some lines. -/
inductive Renames (isName : List Char → Prop) : List Char → List Char → Prop
  | nil : Renames isName [] []
  | keep (c : Char) {text other : List Char} (h : Renames isName text other) :
      Renames isName (c :: text) (c :: other)
  | name {name name' text other : List Char} (hname : isName name) (hname' : isName name')
      (hend : BeginsLineEnd text) (h : Renames isName text other) :
      Renames isName (' ' :: (name ++ text)) (' ' :: (name' ++ other))

namespace Renames

variable {isName : List Char → Prop} {text other more more' : List Char}

theorem refl (text : List Char) : Renames isName text text := by
  induction text with
  | nil => exact nil
  | cons c text ih => exact keep c ih

/-- A blank stands before each name. -/
theorem head?_eq (h : Renames isName text other) : text.head? = other.head? := by
  cases h with
  | nil => rfl
  | keep c h => rfl
  | name hname hname' hend h => rfl

theorem after (front : List Char) (h : Renames isName text other) :
    Renames isName (front ++ text) (front ++ other) := by
  induction front with
  | nil => exact h
  | cons c front ih => exact keep c ih

theorem append (h : Renames isName text other) (hmore : Renames isName more more')
    (hend : BeginsLineEnd more) : Renames isName (text ++ more) (other ++ more') := by
  induction h with
  | nil => exact hmore
  | keep c _ ih => exact keep c ih
  | @name first second text other hname hname' hend' h ih =>
    rw [List.cons_append, List.cons_append, List.append_assoc, List.append_assoc]
    refine name hname hname' ?_ ih
    cases text with
    | nil => exact hend
    | cons c text => exact hend'

theorem eq_nil_iff (h : Renames isName text other) : text = [] ↔ other = [] := by
  rw [← List.head?_eq_none_iff, h.head?_eq, List.head?_eq_none_iff]

theorem exists_cons {c : Char} {text : List Char} (h : Renames isName (c :: text) other) :
    ∃ more, other = c :: more :=
  List.head?_eq_some_iff.mp h.head?_eq.symm

/-- A character that is no blank stands in front of both or of none. -/
theorem tail {c : Char} (hc : c ≠ ' ') (h : Renames isName text other)
    (hhead : text.head? = some c) : Renames isName text.tail other.tail := by
  cases h with
  | nil => cases hhead
  | keep d h => exact h
  | name hname hname' hend h => exact absurd (Option.some.inj hhead).symm hc

/-- What is in front of the first blank is the same. -/
theorem takeWhile_eq {test : Char → Bool} (htest : test ' ' = false)
    (h : Renames isName text other) : text.takeWhile test = other.takeWhile test := by
  induction h with
  | nil => rfl
  | keep c _ ih => rw [List.takeWhile_cons, List.takeWhile_cons, ih]
  | name hname hname' hend h ih =>
    rw [List.takeWhile_cons_of_neg (by simp [htest]), List.takeWhile_cons_of_neg (by simp [htest])]

theorem drop {test : Char → Bool} (htest : test ' ' = false) (h : Renames isName text other)
    {n : Nat} (hn : n ≤ (text.takeWhile test).length) :
    Renames isName (text.drop n) (other.drop n) := by
  induction h generalizing n with
  | nil =>
    rw [List.drop_nil]
    exact nil
  | @keep c text other h ih =>
    cases n with
    | zero => exact keep c h
    | succ n =>
      by_cases hc : test c = true
      · rw [List.takeWhile_cons_of_pos hc] at hn
        exact ih (Nat.le_of_succ_le_succ hn)
      · rw [List.takeWhile_cons_of_neg hc] at hn
        cases hn
  | name hname hname' hend h =>
    rw [List.takeWhile_cons_of_neg (by simp [htest])] at hn
    rw [Nat.le_zero.mp hn]
    exact name hname hname' hend h

/-- A line that ends in a name, after what has been read of it. -/
theorem line {first second : List Char} (hname : isName first) (hname' : isName second)
    (pending : List Char) : Renames isName ((' ' :: first).reverse ++ pending).reverse
      ((' ' :: second).reverse ++ pending).reverse := by
  have hlast := name hname hname' (show BeginsLineEnd [] by simp [BeginsLineEnd]) nil
  rw [List.append_nil, List.append_nil] at hlast
  rw [List.reverse_append, List.reverse_append, List.reverse_reverse, List.reverse_reverse]
  exact hlast.after pending.reverse

/-- After a newline a text goes on as if it began there. -/
theorem forall₂_tail {text other : List Char} (h : List.Forall₂ (Renames isName)
      (Text.splitLinesFrom [] ('\n' :: text)) (Text.splitLinesFrom [] ('\n' :: other))) :
    List.Forall₂ (Renames isName) (Text.splitLinesFrom [] text)
      (Text.splitLinesFrom [] other) := by
  rw [splitLinesFrom_break [] (by decide) (by simp),
    splitLinesFrom_break [] (by decide) (by simp), List.forall₂_cons] at h
  exact h.2

/-- Each line is the same but for its last word, whatever has been read of the first one. -/
theorem splitLinesFrom (hunbroken : ∀ name, isName name → IsUnbroken name)
    (h : Renames isName text other) (pending : List Char) :
    List.Forall₂ (Renames isName) (Text.splitLinesFrom pending text)
      (Text.splitLinesFrom pending other) := by
  induction h generalizing pending with
  | nil => exact List.forall₂_same.mpr fun line _ => refl line
  | @keep c text other h ih =>
    cases hc : isLineBreak c with
    | false =>
      rw [splitLinesFrom_cons _ _ hc, splitLinesFrom_cons _ _ hc]
      exact ih _
    | true =>
      by_cases hpair : c = '\r' ∧ text.head? = some '\n'
      · obtain ⟨rfl, hhead⟩ := hpair
        obtain ⟨rest, rfl⟩ := List.head?_eq_some_iff.mp hhead
        obtain ⟨rest', rfl⟩ := h.exists_cons
        rw [Text.splitLinesFrom, Text.splitLinesFrom]
        exact .cons (refl _) (forall₂_tail (ih []))
      · rw [splitLinesFrom_break _ hc hpair, splitLinesFrom_break _ hc (by rwa [← h.head?_eq])]
        exact .cons (refl _) (ih [])
  | @name first second text other hname hname' hend h ih =>
    have hword : ∀ {name : List Char}, isName name → IsUnbroken (' ' :: name) := by
      intro name hname c hc
      rcases List.mem_cons.mp hc with rfl | hc
      · decide
      · exact hunbroken name hname c hc
    rw [← List.cons_append, ← List.cons_append, splitLinesFrom_append _ _ (hword hname),
      splitLinesFrom_append _ _ (hword hname')]
    cases text with
    | nil =>
      obtain rfl := h.eq_nil_iff.mp rfl
      have hlast : ∀ name : List Char,
          Text.splitLinesFrom ((' ' :: name).reverse ++ pending) [] =
            [((' ' :: name).reverse ++ pending).reverse] := by
        intro name
        rw [Text.splitLinesFrom, if_neg (by simp)]
      rw [hlast, hlast]
      exact .cons (line hname hname' pending) .nil
    | cons c text =>
      obtain rfl := hend c rfl
      obtain ⟨other, rfl⟩ := h.exists_cons
      rw [splitLinesFrom_break _ (by decide) (by simp),
        splitLinesFrom_break _ (by decide) (by simp)]
      exact .cons (line hname hname' pending) (forall₂_tail (ih []))

end Renames

/-! ## Texts -/

/-- The second text is the first one with other names at the ends of some lines. -/
def Renamed (isName : List Char → Prop) (text other : String) : Prop :=
  Renames isName text.toList other.toList

/-- It does not matter what names the lines of a text end with when it is written among others. -/
theorem isLinewise_renamed {isName : List Char → Prop}
    (hunbroken : ∀ name, isName name → IsUnbroken name) : IsLinewise (Renamed isName) where
  refl := fun text => Renames.refl text.toList
  eq_empty_iff := fun h => by
    rw [← String.toList_eq_nil_iff, ← String.toList_eq_nil_iff]
    exact h.eq_nil_iff
  after := fun front _ _ h => by
    rw [Renamed, String.toList_append, String.toList_append]
    exact h.after front.toList
  under := fun {text other more more'} h hmore => by
    have hunder : ∀ text more : String,
        (text ++ "\n" ++ more).toList = text.toList ++ '\n' :: more.toList := fun text more => by
      simp
    rw [Renamed, hunder, hunder]
    refine Renames.append h (.keep '\n' hmore) ?_
    rintro c ⟨⟩
    rfl
  splitLines := fun {text other} h => by
    rw [splitLines, splitLines, List.forall₂_map_left_iff, List.forall₂_map_right_iff]
    simpa only [Renamed, String.toList_ofList] using h.splitLinesFrom hunbroken []

end Backfield.Text

import Mathlib.Data.List.TakeWhile
import Backfield.Text.Blank

/-!
# Collapsed texts

`Text.collapse` goes over a text three times.  `tighten` does the same in one pass, so that what it
leaves can be told from the front: `tighten_ink` and `tighten_blank` are its steps.

* `collapse_eq_tighten` says that it is the same.
* `collapse_collapse` says that collapsing a second time changes nothing.
* `inkRun_tighten` says that what stands before the first blank stays.
-/

namespace Backfield.Text

/-- Drops the blanks at the end and writes every other run of blanks as one space; `pending` tells
whether the space of the first one has been written. -/
def tighten (pending : Bool) (text : List Char) : List Char :=
  dropBlanksEnd (squeezeFrom pending text)

@[simp] theorem tighten_nil (pending : Bool) : tighten pending [] = [] := rfl

theorem dropBlanksEnd_cons_ink {c : Char} (rest : List Char) (hc : isBlank c = false) :
    dropBlanksEnd (c :: rest) = c :: dropBlanksEnd rest := by
  rw [dropBlanksEnd, dropBlanksEnd, List.reverse_cons, List.dropWhile_append]
  split
  · rename_i hempty
    rw [List.isEmpty_iff.mp hempty, List.dropWhile_cons_of_neg (by simp [hc])]
    rfl
  · rw [List.reverse_append]
    rfl

theorem dropBlanksEnd_cons_blank {c : Char} (rest : List Char) (hc : isBlank c = true) :
    dropBlanksEnd (c :: rest) =
      if dropBlanksEnd rest = [] then [] else c :: dropBlanksEnd rest := by
  rw [dropBlanksEnd, dropBlanksEnd, List.reverse_cons, List.dropWhile_append]
  by_cases hempty : rest.reverse.dropWhile isBlank = []
  · simp [hempty, hc]
  · simp [hempty]

/-! ## Steps -/

theorem tighten_ink (pending : Bool) {c : Char} (rest : List Char) (hc : isBlank c = false) :
    tighten pending (c :: rest) = c :: tighten false rest := by
  rw [tighten, squeezeFrom, if_neg (by simp [hc]), dropBlanksEnd_cons_ink _ hc]
  rfl

theorem tighten_pending {c : Char} (rest : List Char) (hc : isBlank c = true) :
    tighten true (c :: rest) = tighten true rest := by
  rw [tighten, squeezeFrom, if_pos hc, if_pos rfl]
  rfl

theorem tighten_blank {c : Char} (rest : List Char) (hc : isBlank c = true) :
    tighten false (c :: rest) =
      if tighten true rest = [] then [] else ' ' :: tighten true rest := by
  rw [tighten, squeezeFrom, if_pos hc, if_neg (by simp), dropBlanksEnd_cons_blank _ (by decide)]
  rfl

/-- White space in front is dropped. -/
theorem tighten_append_gap {gap : List Char} (rest : List Char)
    (hgap : ∀ c ∈ gap, isBlank c = true) : tighten true (gap ++ rest) = tighten true rest := by
  induction gap with
  | nil => rfl
  | cons c gap ih =>
    rw [List.cons_append, tighten_pending _ (hgap c List.mem_cons_self),
      ih fun x hx => hgap x (List.mem_cons_of_mem _ hx)]

/-- Visible characters in front stay as they are. -/
theorem tighten_append (pending : Bool) {word : List Char} (rest : List Char) (hne : word ≠ [])
    (hink : ∀ c ∈ word, isBlank c = false) :
    tighten pending (word ++ rest) = word ++ tighten false rest := by
  induction word generalizing pending with
  | nil => exact absurd rfl hne
  | cons c word ih =>
    rw [List.cons_append, tighten_ink pending _ (hink c List.mem_cons_self), List.cons_append]
    cases word with
    | nil => rfl
    | cons d word =>
      rw [ih false (List.cons_ne_nil _ _) fun x hx => hink x (List.mem_cons_of_mem _ hx)]

/-- In front of a visible character it does not matter whether a space has been written. -/
theorem tighten_eq_of_head {text : List Char} (pending : Bool)
    (h : ∀ c ∈ text.head?, isBlank c = false) : tighten pending text = tighten false text := by
  cases text with
  | nil => rfl
  | cons c rest => rw [tighten_ink pending rest (h c rfl), tighten_ink false rest (h c rfl)]

/-! ## Collapsing -/

theorem dropWhile_squeezeFrom (text : List Char) :
    (squeezeFrom false text).dropWhile isBlank = squeezeFrom true text := by
  have hpending : ∀ text, (squeezeFrom true text).dropWhile isBlank = squeezeFrom true text := by
    intro text
    induction text with
    | nil => rfl
    | cons c rest ih =>
      rw [squeezeFrom]
      split
      · rw [if_pos rfl, ih]
      · rename_i hc
        rw [List.dropWhile_cons_of_neg hc]
  cases text with
  | nil => rfl
  | cons c rest =>
    rw [squeezeFrom, squeezeFrom]
    split
    · rw [if_neg (by simp), if_pos rfl, List.dropWhile_cons_of_pos (by decide), hpending]
    · rename_i hc
      rw [List.dropWhile_cons_of_neg hc]

theorem collapse_eq_tighten (text : String) :
    collapse text = String.ofList (tighten true text.toList) := by
  rw [collapse, dropWhile_squeezeFrom, tighten]

theorem tighten_tighten (text : List Char) :
    (∀ pending, tighten true (tighten pending text) = tighten true text) ∧
      tighten false (tighten false text) = tighten false text := by
  induction text with
  | nil => exact ⟨fun _ => rfl, rfl⟩
  | cons c rest ih =>
    by_cases hc : isBlank c = true
    · have hspace : isBlank ' ' = true := by decide
      rw [tighten_pending rest hc, tighten_blank rest hc]
      refine ⟨fun pending => ?_, ?_⟩
      · cases pending with
        | true => rw [tighten_pending rest hc, ih.1]
        | false =>
          rw [tighten_blank rest hc]
          split
          · rename_i hnone
            rw [hnone, tighten_nil]
          · rw [tighten_pending _ hspace, ih.1]
      · split
        · rfl
        · rename_i hsome
          rw [tighten_blank _ hspace, ih.1, if_neg hsome]
    · have hink : isBlank c = false := Bool.eq_false_iff.mpr hc
      refine ⟨fun pending => ?_, ?_⟩
      · rw [tighten_ink pending rest hink, tighten_ink true rest hink, tighten_ink true _ hink,
          ih.2]
      · rw [tighten_ink false rest hink, tighten_ink false _ hink, ih.2]

/-- Collapsing a second time changes nothing. -/
theorem collapse_collapse (text : String) : collapse (collapse text) = collapse text := by
  rw [collapse_eq_tighten, collapse_eq_tighten, String.toList_ofList, (tighten_tighten _).1]

/-- Squeezing leaves no blanks but spaces. -/
theorem eq_space_of_mem_squeezeFrom {pending : Bool} {text : List Char} :
    ∀ c ∈ squeezeFrom pending text, isBlank c = true → c = ' ' := by
  induction text generalizing pending with
  | nil => exact fun _ hc => by cases hc
  | cons first rest ih =>
    intro c hc hblank
    rw [squeezeFrom] at hc
    split at hc
    · split at hc
      · exact ih c hc hblank
      · rcases List.mem_cons.mp hc with rfl | hc
        · rfl
        · exact ih c hc hblank
    · rename_i hfirst
      rcases List.mem_cons.mp hc with rfl | hc
      · exact absurd hblank hfirst
      · exact ih c hc hblank

theorem eq_space_of_mem_tighten {pending : Bool} {text : List Char} :
    ∀ c ∈ tighten pending text, isBlank c = true → c = ' ' := by
  intro c hc
  rw [tighten, dropBlanksEnd, List.mem_reverse] at hc
  exact eq_space_of_mem_squeezeFrom c
    (List.mem_reverse.mp ((List.dropWhile_sublist _).subset hc))

/-! ## Visible characters in front -/

/-- What stands before the first blank. -/
def inkRun (text : List Char) : List Char := text.takeWhile fun c => !isBlank c

theorem inkRun_cons_ink {c : Char} (rest : List Char) (hc : isBlank c = false) :
    inkRun (c :: rest) = c :: inkRun rest := by
  rw [inkRun, List.takeWhile_cons_of_pos (by simp [hc])]
  rfl

theorem inkRun_cons_blank {c : Char} (rest : List Char) (hc : isBlank c = true) :
    inkRun (c :: rest) = [] := by
  rw [inkRun, List.takeWhile_cons_of_neg (by simp [hc])]

theorem inkRun_append {word : List Char} (rest : List Char)
    (hink : ∀ c ∈ word, isBlank c = false) : inkRun (word ++ rest) = word ++ inkRun rest := by
  induction word with
  | nil => rfl
  | cons c word ih =>
    rw [List.cons_append, inkRun_cons_ink _ (hink c List.mem_cons_self),
      ih fun x hx => hink x (List.mem_cons_of_mem _ hx), List.cons_append]

theorem inkRun_tighten (text : List Char) : inkRun (tighten false text) = inkRun text := by
  induction text with
  | nil => rfl
  | cons c rest ih =>
    by_cases hc : isBlank c = true
    · rw [tighten_blank rest hc, inkRun_cons_blank rest hc]
      split
      · rfl
      · exact inkRun_cons_blank _ (by decide)
    · have hink : isBlank c = false := Bool.eq_false_iff.mpr hc
      rw [tighten_ink false rest hink, inkRun_cons_ink _ hink, inkRun_cons_ink _ hink, ih]

end Backfield.Text

import Backfield.Proofs.Text.Collapsing

/-!
# The visible characters of a text

Squeezing the white space of a text leaves its visible characters as they are, one after the other.

* `visible_squeezeFrom` and `filter_squeezeFrom` are that statement, `filter_dropBlanksEnd` adds
  that the end may be trimmed, and `dropSpaces_collapse` puts them together.
* `head?_squeezeFrom_true` says how a squeezed text begins, `squeezeFrom_of_beginsBlank` when it
  begins with a space.
-/

namespace Backfield.Text

/-- The characters of a text that are not blank. -/
def visible (text : List Char) : List Char := text.filter fun c => !isBlank c

@[simp] theorem visible_nil : visible [] = [] := rfl

@[simp] theorem visible_append (text more : List Char) :
    visible (text ++ more) = visible text ++ visible more := List.filter_append _ _

theorem visible_cons_ink {c : Char} (rest : List Char) (hc : isBlank c = false) :
    visible (c :: rest) = c :: visible rest := List.filter_cons_of_pos (by simp [hc])

theorem visible_cons_blank {c : Char} (rest : List Char) (hc : isBlank c = true) :
    visible (c :: rest) = visible rest := List.filter_cons_of_neg (by simp [hc])

theorem visible_eq_self {text : List Char} (h : ∀ c ∈ text, isBlank c = false) :
    visible text = text := List.filter_eq_self.mpr fun c hc => by simp [h c hc]

theorem visible_eq_nil_iff {text : List Char} :
    visible text = [] ↔ ∀ c ∈ text, isBlank c = true := by
  simp [visible, List.filter_eq_nil_iff]

theorem mem_visible {text : List Char} {c : Char} :
    c ∈ visible text ↔ c ∈ text ∧ isBlank c = false := by
  simp [visible, List.mem_filter]

/-! ## Squeezed texts -/

theorem visible_squeezeFrom (pending : Bool) (text : List Char) :
    visible (squeezeFrom pending text) = visible text := by
  induction text generalizing pending with
  | nil => rfl
  | cons c rest ih =>
    rw [squeezeFrom]
    by_cases hc : isBlank c = true
    · rw [if_pos hc, visible_cons_blank rest hc]
      split
      · exact ih true
      · rw [visible_cons_blank _ (by decide), ih]
    · have hc : isBlank c = false := Bool.eq_false_iff.mpr hc
      rw [if_neg (by simp [hc]), visible_cons_ink _ hc, visible_cons_ink _ hc, ih]

/-- All that is left to drop of a squeezed text is its spaces. -/
theorem filter_squeezeFrom (pending : Bool) (text : List Char) :
    (squeezeFrom pending text).filter (· != ' ') = visible text := by
  rw [← visible_squeezeFrom pending text, visible]
  refine List.filter_congr fun c hc => ?_
  by_cases hspace : c = ' '
  · subst hspace
    decide
  · have hblank : isBlank c = false := Bool.eq_false_iff.mpr fun h =>
      hspace (eq_space_of_mem_squeezeFrom c hc h)
    simp [hspace, hblank]

theorem filter_visible (text : List Char) : (visible text).filter (· != ' ') = visible text := by
  refine List.filter_eq_self.mpr fun c hc => ?_
  have hink := (mem_visible.mp hc).2
  rw [bne_iff_ne]
  rintro rfl
  exact absurd hink (by decide)

theorem filter_dropBlanksEnd (pending : Bool) (text : List Char) :
    (dropBlanksEnd (squeezeFrom pending text)).filter (· != ' ') = visible text := by
  have hsplit : squeezeFrom pending text = dropBlanksEnd (squeezeFrom pending text) ++
      ((squeezeFrom pending text).reverse.takeWhile isBlank).reverse := by
    rw [dropBlanksEnd, ← List.reverse_append, List.takeWhile_append_dropWhile, List.reverse_reverse]
  have hend : ((squeezeFrom pending text).reverse.takeWhile isBlank).reverse.filter
      (· != ' ') = [] := by
    refine List.filter_eq_nil_iff.mpr fun c hc => ?_
    have hc := List.mem_reverse.mp hc
    have hmem := List.mem_reverse.mp ((List.takeWhile_sublist _).subset hc)
    simp [eq_space_of_mem_squeezeFrom c hmem (List.mem_takeWhile_imp hc)]
  rw [← filter_squeezeFrom pending text]
  conv => rhs; rw [hsplit, List.filter_append, hend, List.append_nil]

/-- Without its spaces a collapsed text is the visible characters of the text. -/
theorem dropSpaces_collapse (text : String) :
    dropSpaces (collapse text) = String.ofList (visible text.toList) := by
  rw [dropSpaces, collapse_eq_tighten, String.toList_ofList, tighten, filter_dropBlanksEnd]

theorem squeezeFrom_concat (pending : Bool) (text : List Char) {c : Char} (hc : isBlank c = false) :
    squeezeFrom pending (text ++ [c]) = squeezeFrom pending text ++ [c] := by
  induction text generalizing pending with
  | nil => simp [squeezeFrom, hc]
  | cons d rest ih =>
    rw [List.cons_append, squeezeFrom, squeezeFrom, ih, ih]
    split
    · split <;> rfl
    · rfl

theorem head?_squeezeFrom_true (text : List Char) :
    (squeezeFrom true text).head? = (visible text).head? := by
  induction text with
  | nil => rfl
  | cons c rest ih =>
    rw [squeezeFrom]
    by_cases hc : isBlank c = true
    · rw [if_pos hc, if_pos rfl, visible_cons_blank rest hc, ih]
    · have hc : isBlank c = false := Bool.eq_false_iff.mpr hc
      rw [if_neg (by simp [hc]), visible_cons_ink rest hc]
      rfl

/-- White space stands in front. -/
def BeginsBlank (text : List Char) : Prop := ∃ c ∈ text.head?, isBlank c = true

instance : DecidablePred BeginsBlank := fun text =>
  decidable_of_iff (text.head?.any isBlank = true) (Option.any_eq_true _ _)

theorem squeezeFrom_of_beginsBlank {text : List Char} (h : BeginsBlank text) :
    squeezeFrom false text = ' ' :: squeezeFrom true text := by
  obtain ⟨c, hhead, hc⟩ := h
  cases text with
  | nil => cases hhead
  | cons d rest =>
    cases hhead
    simp [squeezeFrom, hc]

/-- A text that does not begin with white space begins with its first visible character. -/
theorem head?_squeezeFrom_false {text : List Char} (h : ¬BeginsBlank text) :
    ∀ c ∈ (squeezeFrom false text).head?, c ∈ text.head? ∧ isBlank c = false := by
  cases text with
  | nil => simp [squeezeFrom]
  | cons d rest =>
    have hd : isBlank d = false := Bool.eq_false_iff.mpr fun hd => h ⟨d, rfl, hd⟩
    simp [squeezeFrom, hd]

end Backfield.Text

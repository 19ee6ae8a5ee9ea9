import Mathlib.Data.List.TakeWhile
import Backfield.Text.Blank

/-!
# Blank texts

What `Text.collapse` leaves of a text: nothing, exactly when the text is blank throughout
(`collapse_eq_empty_iff`).
-/

namespace Backfield.Text

/-- Some character of the text is no white space. -/
def hasInk (text : String) : Bool := text.toList.any fun c => !isBlank c

/-- Squeezing the runs of blanks neither makes nor drops a character that is not blank. -/
theorem any_squeezeFrom (pending : Bool) (text : List Char) :
    ((squeezeFrom pending text).any fun c => !isBlank c) = text.any fun c => !isBlank c := by
  induction text generalizing pending with
  | nil => rfl
  | cons c rest ih =>
    have hspace : isBlank ' ' = true := by decide
    rw [squeezeFrom]
    by_cases hblank : isBlank c = true
    · cases pending <;> simp [hblank, hspace, ih]
    · simp [hblank, ih]

theorem dropBlanksEnd_eq_nil_iff (text : List Char) :
    dropBlanksEnd text = [] ↔ (text.any fun c => !isBlank c) = false := by
  simp [dropBlanksEnd, List.dropWhile_eq_nil_iff]

/-- A text collapses to nothing exactly when it is blank. -/
theorem collapse_eq_empty_iff (text : String) : collapse text = "" ↔ hasInk text = false := by
  rw [collapse, String.ofList_eq_empty_iff, dropBlanksEnd_eq_nil_iff, List.any_dropWhile,
    List.not_all_eq_any_not, any_squeezeFrom]
  rfl

end Backfield.Text

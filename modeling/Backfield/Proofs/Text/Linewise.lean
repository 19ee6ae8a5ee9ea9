import Mathlib.Data.List.Forall2
import Backfield.Proofs.Text.Lines

/-!
# Relations of texts line by line

Texts that differ in some way within their lines differ in the same way after they are indented or
written one under the other.

* `IsLinewise` is what this needs of a relation of texts.
* `IsLinewise.intercalate` writes texts one under the other, and `IsLinewise.indent` moves a text to
  the right.
-/

namespace Backfield.Text

/-- The relation is kept when something is written in front of two texts or when texts are written
one under the other, and it holds of their lines. -/
structure IsLinewise (R : String → String → Prop) : Prop where
  refl : ∀ text, R text text
  eq_empty_iff : ∀ {text other}, R text other → (text = "" ↔ other = "")
  after : ∀ front {text other}, R text other → R (front ++ text) (front ++ other)
  under : ∀ {text other more more'}, R text other → R more more' →
    R (text ++ "\n" ++ more) (other ++ "\n" ++ more')
  splitLines : ∀ {text other}, R text other →
    List.Forall₂ R (splitLines text) (splitLines other)

namespace IsLinewise

variable {R : String → String → Prop} {text other : String}

theorem forall₂_refl (hR : IsLinewise R) (texts : List String) : List.Forall₂ R texts texts :=
  List.forall₂_same.mpr fun text _ => hR.refl text

theorem newline (hR : IsLinewise R) (h : R text other) : R (text ++ "\n") (other ++ "\n") := by
  have hunder := hR.under h (hR.refl "")
  rwa [String.append_empty, String.append_empty] at hunder

/-- Texts one under the other, with `gap` between them. -/
theorem intercalate (hR : IsLinewise R) (gap : String) {texts others : List String}
    (h : List.Forall₂ R texts others) :
    R (("\n" ++ gap).intercalate texts) (("\n" ++ gap).intercalate others) := by
  induction h with
  | nil => exact hR.refl _
  | @cons text other texts others htext hrest ih =>
    cases hrest with
    | nil => simpa using htext
    | cons hnext hmore =>
      rw [String.intercalate_cons_cons, String.intercalate_cons_cons]
      have hunder := hR.under htext (hR.after gap ih)
      simpa only [String.append_assoc] using hunder

theorem indentLine (hR : IsLinewise R) (h : R text other) :
    R (Text.indentLine text) (Text.indentLine other) := by
  have hempty : text.isEmpty = other.isEmpty := by
    rw [Bool.eq_iff_iff, String.isEmpty_iff, String.isEmpty_iff, hR.eq_empty_iff h]
  rw [Text.indentLine, Text.indentLine, hempty]
  split
  · exact hR.refl _
  · exact hR.after indentStep h

theorem indent (hR : IsLinewise R) (h : R text other) :
    R (Text.indent text) (Text.indent other) := by
  have hlines := hR.splitLines (hR.newline h)
  rw [Text.indent, Text.indent]
  generalize Text.splitLines (text ++ "\n") = lines at hlines
  generalize Text.splitLines (other ++ "\n") = lines' at hlines
  cases hlines with
  | nil => exact hR.refl _
  | cons hfirst hrest =>
    refine hR.intercalate "" (.cons (hR.after indentStep hfirst) ?_)
    rw [List.forall₂_map_left_iff, List.forall₂_map_right_iff]
    exact hrest.imp fun _ _ => hR.indentLine

end IsLinewise

end Backfield.Text

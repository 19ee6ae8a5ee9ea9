import Backfield.Layout
import Backfield.Proofs.Text.Linewise

/-!
# A class with other properties

When the texts of the properties of a class are related line by line to those of others, then so is
the text of the class to the one with the others in their place.
-/

namespace Backfield

/-- The class with another property in the place of each. -/
def ReactiveClass.mapProperties (c : ReactiveClass) (f : Property → Property) : ReactiveClass :=
  { c with properties := c.properties.map f }

namespace Text.IsLinewise

open Layout

variable {R : String → String → Prop} {text other : String}

theorem lines (hR : IsLinewise R) {texts others : List String} (h : List.Forall₂ R texts others) :
    R (Layout.lines texts) (Layout.lines others) :=
  hR.intercalate "" h

theorem block (hR : IsLinewise R) (declaration : String) (h : R text other) :
    R (Layout.block declaration text) (Layout.block declaration other) :=
  hR.lines (.cons (hR.refl _) (.cons (hR.refl _) (.cons (hR.indent h) (hR.forall₂_refl _))))

theorem blocks (hR : IsLinewise R) (declarations : List String) (h : R text other) :
    R (Layout.blocks declarations text) (Layout.blocks declarations other) := by
  induction declarations with
  | nil => exact h
  | cons declaration rest ih => exact hR.block declaration ih

theorem render (hR : IsLinewise R) (settings : Settings) {c : ReactiveClass}
    {f : Property → Property} (h : ∀ p ∈ c.properties,
      R (property settings.notifyMethod.display p) (property settings.notifyMethod.display (f p))) :
    R (Layout.render settings c) (Layout.render settings (c.mapProperties f)) := by
  have hproperties : R (properties settings.notifyMethod.display c.properties)
      (properties settings.notifyMethod.display (c.mapProperties f).properties) := by
    refine hR.intercalate "\n" ?_
    rw [ReactiveClass.mapProperties, List.map_map, List.forall₂_map_left_iff,
      List.forall₂_map_right_iff, List.forall₂_same]
    exact h
  have hsource : R (classSource settings c) (classSource settings (c.mapProperties f)) :=
    hR.blocks (enclosingDeclarations c) hproperties
  refine hR.newline (hR.intercalate "\n" ?_)
  exact List.rel_append (hR.forall₂_refl _) (.cons hsource .nil)

end Text.IsLinewise

end Backfield

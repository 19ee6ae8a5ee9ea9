import Backfield.Proofs.Layout.Nesting
import Backfield.Proofs.Layout.OtherProperties
import Backfield.Proofs.Text.Exchange

/-!
# Types in rendered texts

The type of a property stands in one line of the text of its class, if it is one line itself.
Another type in its place changes nothing but this line.

* `exists_line_of_type` finds the line.
* `alike_property` says that a property is alike with another type, and `alike_render` that the
  text of a class is with other types.
* `keepsLines_of_isOneLine` puts both together.
-/

namespace Backfield

/-- The class with other types for its properties. -/
def ReactiveClass.retype (c : ReactiveClass) (types : Property → String) : ReactiveClass :=
  { c with properties := c.properties.map fun p => { p with type := types p } }

namespace Layout

open Text (Alike IsUnbroken isLinewise_alike splitLines)

variable {c : ReactiveClass} {p : Property} {types : Property → String}

/-! ## One line -/

/-- A type stands whole in one line, between the accessibility and the blank after it. -/
theorem exists_line_of_type (settings : Settings) (hp : p ∈ c.properties)
    (htype : IsUnbroken p.type.toList) :
    ∃ line ∈ splitLines (render settings c),
      (p.accessibility.text ++ " " ++ p.type ++ " ").toList <:+: line.toList := by
  let front := p.accessibility.text ++ " " ++ p.type ++ " "
  have hfront : IsOneLine front := isOneLine_typed htype
  have hne : front.toList ≠ [] := by simpa using hfront.ne
  have hproperty : front.toList <:+: (property settings.notifyMethod.display p).toList := by
    have hdeclaration : front.toList <:+: (front ++ p.name).toList :=
      ⟨[], p.name.toList, String.toList_append.symm⟩
    exact Text.infix_intercalate _ List.mem_cons_self hdeclaration
  have hrender : front.toList <:+: (render settings c).toList := infix_render
    (infix_blocks hne hfront.isUnbroken _
      (Text.infix_intercalate _ (List.mem_map_of_mem hp) hproperty))
  obtain ⟨before, after, htext⟩ := hrender
  obtain ⟨line, hline, hinfix⟩ := Text.exists_line_of_infix [] hne hfront.isUnbroken
    (htext.symm.trans (List.append_assoc _ _ _))
  exact ⟨_, List.mem_map_of_mem hline, by rwa [String.toList_ofList]⟩

/-! ## Other types -/

theorem alike_of_isOneLine {text other : String} (htext : IsOneLine text)
    (hother : IsOneLine other) : Alike text other := by
  have hword := Text.Exchanges.word (by simpa using htext.ne) (by simpa using hother.ne)
    htext.isUnbroken hother.isUnbroken .nil
  rwa [List.append_nil, List.append_nil] at hword

theorem alike_property (method : String) {type : String} (htype : IsOneLine p.type)
    (hother : IsOneLine type) :
    Alike (property method p) (property method { p with type := type }) := by
  refine isLinewise_alike.lines (.cons ?_ (isLinewise_alike.forall₂_refl _))
  have hdeclaration := (isLinewise_alike.after (p.accessibility.text ++ " ")
    (alike_of_isOneLine htype hother)).append (isLinewise_alike.refl (" " ++ p.name))
  rwa [← String.append_assoc, ← String.append_assoc] at hdeclaration

/-- The text of a class is the same with other types, but for these. -/
theorem alike_render (settings : Settings) (h : ∀ p ∈ c.properties, IsOneLine p.type)
    (hother : ∀ p ∈ c.properties, IsOneLine (types p)) :
    Alike (render settings c) (render settings (c.retype types)) :=
  isLinewise_alike.render settings fun p hp => alike_property _ (h p hp) (hother p hp)

/-- The types of the properties are lines of their own, so that they cannot break the lines of the
rendered class: each stands in one of them, and with any other types there would be as many. -/
structure KeepsLines (settings : Settings) (c : ReactiveClass) : Prop where
  isOneLine : ∀ p ∈ c.properties, IsOneLine p.type
  whole : ∀ p ∈ c.properties, ∃ line ∈ splitLines (render settings c),
    (p.accessibility.text ++ " " ++ p.type ++ " ").toList <:+: line.toList
  length : ∀ types : Property → String, (∀ p ∈ c.properties, IsOneLine (types p)) →
    (splitLines (render settings c)).length =
      (splitLines (render settings (c.retype types))).length

theorem keepsLines_of_isOneLine (settings : Settings)
    (h : ∀ p ∈ c.properties, IsOneLine p.type) : KeepsLines settings c where
  isOneLine := h
  whole := fun p hp => exists_line_of_type settings hp (h p hp).isUnbroken
  length := fun _ hother =>
    (Text.alike_splitLines (alike_render settings h hother)).length_eq

end Layout

end Backfield

import Backfield.Accessibility
import Backfield.Error

/-!
# Reactive properties

A marked field with the property generated for it, and a class that has some.
-/

namespace Backfield

/-- A marked field and its property. -/
structure Property where
  field : String
  name : String
  accessibility : Accessibility
  type : String
  deriving DecidableEq, Repr

/-- The property if it can be declared beside its field: both have a name, and the names
differ unless they have one character. -/
def Property.check (p : Property) : Except Error Property :=
  if p.field == "" || p.name == "" then .error (.missingName p.field p.name)
  else if p.name == p.field && 1 < p.field.length then .error (.sameAsField p.name)
  else .ok p

/-- A class with the properties generated for it. -/
structure ReactiveClass where
  name : String
  space : String
  fullName : String
  accessibility : Accessibility
  properties : List Property
  typeParameters : String := ""
  /-- The names of the enclosing types, outermost first. -/
  containers : List String := []
  /-- What the using directives of the generated file name, aliases as `alias = target`. -/
  usings : List String := []
  deriving DecidableEq, Repr

/-- The class if it has a property. -/
def ReactiveClass.check (c : ReactiveClass) : Except Error ReactiveClass :=
  if c.properties.isEmpty then .error (.noProperties c.fullName) else .ok c

end Backfield

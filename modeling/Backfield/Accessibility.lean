/-!
# Accessibility

Who may use a declared type, as its modifier keywords say.
-/

namespace Backfield

inductive Accessibility
  | isPublic
  | isInternal
  | isProtected
  | isPrivate
  | isProtectedInternal
  | isPrivateProtected
  deriving DecidableEq, Repr

namespace Accessibility

/-- The modifier keywords of an accessibility. -/
def text : Accessibility → String
  | isPublic => "public"
  | isInternal => "internal"
  | isProtected => "protected"
  | isPrivate => "private"
  | isProtectedInternal => "protected internal"
  | isPrivateProtected => "private protected"

def all : List Accessibility :=
  [isPublic, isInternal, isProtected, isPrivate, isProtectedInternal, isPrivateProtected]

/-- The accessibility with exactly this text. -/
def ofText? (text : String) : Option Accessibility := all.find? (·.text == text)

/-- The accessibility that a declaration's modifiers ask for, or none if no modifier is an
accessibility keyword.  Order and repetition do not matter.  `public` wins over all others,
the two pairs with a meaning of their own count if nothing else is there, and what is left is
settled in favour of the wider access. -/
def ofModifiers? (modifiers : List String) : Option Accessibility :=
  if "public" ∈ modifiers then some isPublic
  else
    match decide ("protected" ∈ modifiers), decide ("internal" ∈ modifiers),
        decide ("private" ∈ modifiers) with
    | true, true, false => some isProtectedInternal
    | true, false, true => some isPrivateProtected
    | _, true, _ => some isInternal
    | true, _, _ => some isProtected
    | _, _, true => some isPrivate
    | false, false, false => none

theorem ofText?_text (a : Accessibility) : ofText? a.text = some a := by
  cases a <;> decide

end Accessibility

end Backfield

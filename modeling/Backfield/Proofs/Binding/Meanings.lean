import Backfield.Binding

/-!
# What a written name may mean

Binding a name goes through full names in a fixed order and takes the first that is known.  This
module lists the full names, apart from the known types.

* `meanings` and `attributeMeanings` are the lists; `bindName?_eq_find?` and
  `bindAttribute?_eq_find?` say that binding is a search in them.
* `bindAttribute?_addName` is what follows for one more known type: an attribute means what it
  meant before, or that type.
-/

namespace Backfield

/-- One more name is known. -/
theorem KnownTypes.mem_addName {known : KnownTypes} {added name : String} :
    name ∈ (known.addName added).names ↔ name ∈ known.names ∨ name = added := by
  rw [addName]
  split
  · rename_i hadded
    exact ⟨Or.inl, fun h => h.elim id fun heq => heq ▸ hadded⟩
  · rw [List.mem_append, List.mem_singleton]

namespace Binding

variable {known : KnownTypes} {fragment : Fragment}

/-! ## Names in a scope -/

/-- The full names that a name may stand for in the scope of a fragment, in the order in which
they are tried. -/
def meanings (fragment : Fragment) (isGlobal : Bool) (name : String) : List String :=
  if isGlobal then [name]
  else
    match fragment.aliases.target? (splitHead name).1 with
    | some target =>
      [if (splitHead name).2 == "" then target else qualify target (splitHead name).2]
    | none =>
      (enclosingSpaces fragment.space).map (qualify · name) ++
        name :: fragment.usings.map (qualify · name)

theorem find?_eq (known : KnownTypes) (name : String) :
    known.find? name = [name].find? (· ∈ known.names) := by
  rw [KnownTypes.find?]
  split <;> simp_all

theorem findUnder?_eq_find? (known : KnownTypes) (bases : List String) (name : String) :
    findUnder? known bases name = (bases.map (qualify · name)).find? (· ∈ known.names) := by
  induction bases with
  | nil => rfl
  | cons base rest ih =>
    rw [findUnder?, List.findSome?_cons, List.map_cons, List.find?_cons, ← ih]
    by_cases hknown : qualify base name ∈ known.names
    · simp [KnownTypes.find?, hknown]
    · simp [KnownTypes.find?, hknown, findUnder?]

/-- A name stands for the first of its meanings that is known. -/
theorem bindName?_eq_find? (known : KnownTypes) (fragment : Fragment) (isGlobal : Bool)
    (name : String) :
    bindName? known fragment isGlobal name =
      (meanings fragment isGlobal name).find? (· ∈ known.names) := by
  rw [bindName?, meanings]
  cases isGlobal with
  | true => exact find?_eq known name
  | false =>
    simp only [Bool.false_eq_true, if_false]
    cases fragment.aliases.target? (splitHead name).1 with
    | some target => exact find?_eq known _
    | none =>
      have hcons : name :: fragment.usings.map (qualify · name) =
          [name] ++ fragment.usings.map (qualify · name) := rfl
      rw [hcons, List.find?_append, List.find?_append, ← find?_eq, ← findUnder?_eq_find?,
        ← findUnder?_eq_find?]

/-! ## Attributes -/

/-- The full names that an attribute may stand for.  Those with the suffix go first. -/
def attributeMeanings (fragment : Fragment) (written : String) : List String :=
  meanings fragment (WrittenName.ofText written).isGlobal
      ((WrittenName.ofText written).name ++ attributeSuffix) ++
    meanings fragment (WrittenName.ofText written).isGlobal (WrittenName.ofText written).name

theorem bindAttribute?_eq_find? (known : KnownTypes) (fragment : Fragment) (written : String) :
    bindAttribute? known fragment written =
      (attributeMeanings fragment written).find? (· ∈ known.names) := by
  rw [bindAttribute?, bindName?_eq_find?, bindName?_eq_find?, attributeMeanings, List.find?_append]

/-! ## One more type -/

/-- With one more known name a search finds what it found before, or that name. -/
theorem find?_addName (known : KnownTypes) (added : String) (names : List String) :
    names.find? (· ∈ (known.addName added).names) = names.find? (· ∈ known.names) ∨
      names.find? (· ∈ (known.addName added).names) = some added := by
  induction names with
  | nil => exact Or.inl rfl
  | cons name rest ih =>
    rw [List.find?_cons, List.find?_cons]
    by_cases hknown : name ∈ known.names
    · have hmore : name ∈ (known.addName added).names := KnownTypes.mem_addName.mpr (Or.inl hknown)
      simp [hknown, hmore]
    · by_cases hadded : name = added
      · subst hadded
        have hmore : name ∈ (known.addName name).names := KnownTypes.mem_addName.mpr (Or.inr rfl)
        simp [hmore]
      · have hless : name ∉ (known.addName added).names := by
          rw [KnownTypes.mem_addName, not_or]
          exact ⟨hknown, hadded⟩
        simpa [hknown, hless] using ih

/-- With one more known type an attribute means what it meant before, or that type. -/
theorem bindAttribute?_addName (known : KnownTypes) (added : String) (fragment : Fragment)
    (written : String) :
    bindAttribute? (known.addName added) fragment written =
        bindAttribute? known fragment written ∨
      bindAttribute? (known.addName added) fragment written = some added := by
  rw [bindAttribute?_eq_find?, bindAttribute?_eq_find?]
  exact find?_addName known added _

end Binding

end Backfield

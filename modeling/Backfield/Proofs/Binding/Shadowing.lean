import Backfield.Proofs.Binding.SearchOrder
import Backfield.Proofs.Scan.FullNames

/-!
# Which declarations hide which

A type that is declared around a field hides the types of the same simple name that lie further
out.  Binding keeps to this rule for namespaces, but it looks into no type: a type that is nested
in the class itself, or in one around it, hides nothing.

* `aroundTypes` and `aroundSpaces` list what the types and the namespaces around the fields of a
  class may declare under a simple name, innermost first.
* `attributeMeanings_of_isSimple` splits what a simple name may mean: what the namespaces declare
  goes before what the using directives lead to, and the name with the suffix before the other.
* `head_of_mem_aroundSpaces` says that of what a type around the fields declares, binding finds
  at most what the innermost namespace declares, too.
* `binds_innermost_iff` is the result: the innermost declaration is meant exactly if a namespace
  makes it, or if no namespace makes any and a using directive happens to lead to it.
-/

namespace Backfield.Binding

/-! ## Declarations around the fields of a class -/

/-- The full names of the class and of the types around it, innermost first. -/
def typesAround (f : Fragment) : List String :=
  (f.containers ++ [f.name]).inits.tail.reverse.map fun path => joinNames (f.space :: path)

/-- What the class and the types around it may declare under a simple name. -/
def aroundTypes (f : Fragment) (name : String) : List String :=
  (typesAround f).map (qualify · name)

/-- What the namespaces around the class may declare under a simple name, the global one last. -/
def aroundSpaces (f : Fragment) (name : String) : List String :=
  (outward f.space).map (qualify · name) ++ [name]

/-- What the namespaces that are used may declare under a simple name. -/
def throughUsings (f : Fragment) (name : String) : List String :=
  f.usings.map (qualify · name)

/-- The innermost known type that a scope around the fields of a class declares under a simple
name.  Types lie further in than namespaces. -/
def innermost? (known : KnownTypes) (f : Fragment) (name : String) : Option String :=
  (aroundTypes f name ++ aroundSpaces f name).find? (· ∈ known.names)

/-- An attribute is written as a simple name that is no alias, with the suffix or without it. -/
structure IsSimple (f : Fragment) (written name : String) : Prop where
  searched : searched written = ⟨false, name⟩
  undotted : Undotted name
  noAlias : f.aliases.target? name = none
  noAliasWithSuffix : f.aliases.target? (name ++ attributeSuffix) = none

/-! ## Simple names -/

theorem qualify_inj {base base' name name' : String} (hname : Undotted name)
    (hname' : Undotted name') (h : qualify base name = qualify base' name') :
    base = base' ∧ name = name' := by
  have hmark : ".".toList = ['.'] := rfl
  have hchars := congrArg String.toList h
  simp only [qualify, String.toList_append, hmark, List.append_assoc, List.cons_append,
    List.nil_append] at hchars
  obtain ⟨hbases, hnames⟩ := append_cons_inj hname hname' hchars
  exact ⟨String.toList_inj.mp hbases, String.toList_inj.mp hnames⟩

theorem qualify_ne_of_undotted {base name name' : String} (hname' : Undotted name') :
    qualify base name ≠ name' := by
  rintro rfl
  exact hname' (by simp [qualify])

theorem undotted_append_suffix {name : String} (hname : Undotted name) :
    Undotted (name ++ attributeSuffix) := by
  have hsuffix : '.' ∉ attributeSuffix.toList := by decide
  rw [Undotted, String.toList_append, List.mem_append, not_or]
  exact ⟨hname, hsuffix⟩

theorem ne_append_suffix (name : String) : name ≠ name ++ attributeSuffix := by
  intro h
  have hlength := congrArg (fun text => text.toList.length) h
  have hsuffix : attributeSuffix.toList.length = 9 := by decide
  simp only [String.toList_append, List.length_append, hsuffix] at hlength
  omega

theorem meanings_of_undotted {f : Fragment} {name : String} (hname : Undotted name)
    (halias : f.aliases.target? name = none) :
    meanings f false name = aroundSpaces f name ++ throughUsings f name := by
  have hhead : splitHead name = (name, "") := by
    have hall : ∀ c ∈ name.toList, (c != '.') = true := by
      intro c hc
      rw [bne_iff_ne]
      rintro rfl
      exact hname hc
    rw [splitHead, List.takeWhile_eq_self_iff.mpr hall, List.dropWhile_eq_nil_iff.mpr hall]
    simp
  rw [meanings, hhead, enclosingSpaces_eq_outward]
  simp [halias, aroundSpaces, throughUsings]

/-- A simple name means what a namespace declares before what a using directive leads to, and
both with the suffix before the same without it. -/
theorem attributeMeanings_of_isSimple {f : Fragment} {written name : String}
    (h : IsSimple f written name) :
    attributeMeanings f written =
      (aroundSpaces f (name ++ attributeSuffix) ++ throughUsings f (name ++ attributeSuffix)) ++
        (aroundSpaces f name ++ throughUsings f name) := by
  rw [attributeMeanings, ofText_eq_searched, h.searched, meanings_of_undotted h.undotted h.noAlias,
    meanings_of_undotted (undotted_append_suffix h.undotted) h.noAliasWithSuffix]

/-! ## The names of nested types -/

/-- Whatever a scope declares under a simple name ends in it. -/
theorem eq_or_qualify_of_mem {f : Fragment} {name full : String}
    (h : full ∈ aroundTypes f name ++ aroundSpaces f name ++ throughUsings f name) :
    full = name ∨ ∃ base, full = qualify base name := by
  simp only [aroundTypes, aroundSpaces, throughUsings, List.mem_append, List.mem_map,
    List.mem_singleton] at h
  rcases h with (⟨base, -, rfl⟩ | ⟨base, -, rfl⟩ | rfl) | ⟨base, -, rfl⟩
  · exact Or.inr ⟨base, rfl⟩
  · exact Or.inr ⟨base, rfl⟩
  · exact Or.inl rfl
  · exact Or.inr ⟨base, rfl⟩

/-- No full name ends in two different simple names. -/
theorem not_mem_of_ne {f : Fragment} {name name' full : String} (hname : Undotted name)
    (hname' : Undotted name') (hne : name ≠ name')
    (h : full ∈ aroundTypes f name ++ aroundSpaces f name ++ throughUsings f name) :
    full ∉ aroundTypes f name' ++ aroundSpaces f name' ++ throughUsings f name' := by
  intro h'
  rcases eq_or_qualify_of_mem h with rfl | ⟨base, rfl⟩
  · rcases eq_or_qualify_of_mem h' with heq | ⟨base', heq⟩
    · exact hne heq
    · exact qualify_ne_of_undotted hname heq.symm
  · rcases eq_or_qualify_of_mem h' with heq | ⟨base', heq⟩
    · exact qualify_ne_of_undotted hname' heq
    · exact hne (qualify_inj hname hname' heq).2

theorem length_lt_of_mem_afterDots {text rest : List Char} (h : rest ∈ afterDots text) :
    rest.length < text.length := by
  induction text with
  | nil => exact absurd h List.not_mem_nil
  | cons c text ih =>
    rw [afterDots] at h
    rw [List.length_cons]
    split at h
    · rcases List.mem_cons.mp h with rfl | hmem
      · exact Nat.lt_succ_self _
      · exact Nat.lt_succ_of_lt (ih hmem)
    · exact Nat.lt_succ_of_lt (ih h)

/-- The namespaces around others have shorter names. -/
theorem outward_eq_cons {space outer : String} (h : outer ∈ outward space) :
    ∃ more, outward space = space :: more ∧
      (outer = space ∨ outer.toList.length < space.toList.length) := by
  rw [← enclosingSpaces_eq_outward, enclosingSpaces] at h ⊢
  split at h
  · exact absurd h List.not_mem_nil
  · rename_i hspace
    rw [if_neg hspace]
    refine ⟨_, rfl, ?_⟩
    rcases List.mem_cons.mp h with rfl | hmem
    · exact Or.inl rfl
    · obtain ⟨rest, hrest, rfl⟩ := List.mem_map.mp hmem
      have hlength := length_lt_of_mem_afterDots hrest
      rw [List.length_reverse] at hlength
      exact Or.inr (by simpa using hlength)

/-- A type has a name at least as long as that of its namespace. -/
theorem length_le_of_mem_typesAround {f : Fragment} {type : String} (h : type ∈ typesAround f) :
    f.space.toList.length ≤ type.toList.length := by
  obtain ⟨path, -, rfl⟩ := List.mem_map.mp h
  by_cases hspace : f.space = ""
  · simp [hspace]
  · have hparts : (f.space :: path).filter (· != "") = f.space :: path.filter (· != "") := by
      simp [hspace]
    rw [joinNames, hparts]
    cases path.filter (· != "") with
    | nil => simp
    | cons part rest =>
      rw [String.intercalate_cons_cons, String.toList_append, String.toList_append,
        List.length_append, List.length_append, Nat.add_assoc]
      exact Nat.le_add_right _ _

/-- Of what a type around the fields declares, the namespaces declare at most what the innermost
of them does: that type then has the name of a namespace. -/
theorem head_of_mem_aroundSpaces {f : Fragment} {name full : String} (hname : Undotted name)
    (htype : full ∈ aroundTypes f name) (hspace : full ∈ aroundSpaces f name) :
    ∃ more, aroundSpaces f name = full :: more := by
  obtain ⟨type, haround, rfl⟩ := List.mem_map.mp htype
  rcases List.mem_append.mp hspace with hmem | hmem
  · obtain ⟨outer, houter, heq⟩ := List.mem_map.mp hmem
    obtain ⟨rfl, -⟩ := qualify_inj hname hname heq
    obtain ⟨more, hcons, hcase⟩ := outward_eq_cons houter
    have hlength := length_le_of_mem_typesAround haround
    have hsame : outer = f.space := hcase.resolve_right (by omega)
    subst hsame
    exact ⟨_, by rw [aroundSpaces, hcons, List.map_cons, List.cons_append]⟩
  · exact absurd (List.mem_singleton.mp hmem) (qualify_ne_of_undotted hname)

/-! ## Binding -/

/-- What the innermost declaration has to be for the namespaces to find it. -/
theorem find?_aroundSpaces {known : KnownTypes} {f : Fragment} {name declared : String}
    (hname : Undotted name) (hdeclared : innermost? known f name = some declared)
    (hspace : declared ∈ aroundSpaces f name) :
    (aroundSpaces f name).find? (· ∈ known.names) = some declared := by
  rw [innermost?, List.find?_append] at hdeclared
  cases htypes : (aroundTypes f name).find? (· ∈ known.names) with
  | none => simpa [htypes] using hdeclared
  | some other =>
    rw [htypes, Option.some_or, Option.some_inj] at hdeclared
    subst hdeclared
    obtain ⟨more, hcons⟩ :=
      head_of_mem_aroundSpaces hname (List.mem_of_find?_eq_some htypes) hspace
    rw [hcons, List.find?_cons_of_pos (List.find?_some htypes)]

/-- A scope around the fields declares the simple name with the suffix.  Then the attribute means
the innermost such declaration exactly if a namespace makes it, or if no namespace makes any and
the first using directive that leads to a type of this name leads to that one. -/
theorem binds_innermost_iff {known : KnownTypes} {f : Fragment} {written name declared : String}
    (h : IsSimple f written name)
    (hdeclared : innermost? known f (name ++ attributeSuffix) = some declared) :
    (bindAttribute known f written).outcome = .ok (some declared) ↔
      declared ∈ aroundSpaces f (name ++ attributeSuffix) ∨
        (∀ other ∈ aroundSpaces f (name ++ attributeSuffix), other ∉ known.names) ∧
          (throughUsings f (name ++ attributeSuffix)).find? (· ∈ known.names) = some declared := by
  have hsuffix := undotted_append_suffix h.undotted
  have hnone : (∀ other ∈ aroundSpaces f (name ++ attributeSuffix), other ∉ known.names) ↔
      (aroundSpaces f (name ++ attributeSuffix)).find? (· ∈ known.names) = none := by simp
  rw [Scan.outcome_bindAttribute, bindAttribute?_eq_find?, attributeMeanings_of_isSimple h,
    List.find?_append, List.find?_append, Except.ok.injEq, hnone]
  constructor
  · intro hbound
    cases hspaces : (aroundSpaces f (name ++ attributeSuffix)).find? (· ∈ known.names) with
    | some other =>
      rw [hspaces, Option.some_or, Option.some_or, Option.some_inj] at hbound
      exact Or.inl (hbound ▸ List.mem_of_find?_eq_some hspaces)
    | none =>
      rw [hspaces, Option.none_or] at hbound
      refine Or.inr ⟨rfl, ?_⟩
      cases husings : (throughUsings f (name ++ attributeSuffix)).find? (· ∈ known.names) with
      | some other => rwa [husings, Option.some_or] at hbound
      | none =>
        -- Without the suffix the name is another one, and so is every type of that name.
        rw [husings, Option.none_or] at hbound
        have hplain := List.mem_of_find?_eq_some hbound
        have hwith := List.mem_of_find?_eq_some hdeclared
        exact absurd (List.mem_append_left _ hwith)
          (not_mem_of_ne h.undotted hsuffix (ne_append_suffix name)
            (by rw [List.append_assoc]; exact List.mem_append_right _ hplain))
  · rintro (hspace | ⟨hspaces, husings⟩)
    · rw [find?_aroundSpaces hsuffix hdeclared hspace, Option.some_or, Option.some_or]
    · rw [hspaces, husings, Option.none_or, Option.some_or]

/-- A namespace between that of the class and the global one hides a type that is used. -/
theorem binds_innermost_iff_outerSpace :
    IsSimple { name := "C", space := "A.B", containers := ["D"], usings := ["U"] } "Mark<int>"
        "Mark" ∧
      innermost? (.ofNames ["A.MarkAttribute", "U.MarkAttribute"])
          { name := "C", space := "A.B", containers := ["D"], usings := ["U"] } "MarkAttribute" =
        some "A.MarkAttribute" ∧
      (bindAttribute (.ofNames ["A.MarkAttribute", "U.MarkAttribute"])
          { name := "C", space := "A.B", containers := ["D"], usings := ["U"] }
          "Mark<int>").outcome = .ok (some "A.MarkAttribute") := by
  have h : IsSimple { name := "C", space := "A.B", containers := ["D"], usings := ["U"] }
      "Mark<int>" "Mark" :=
    ⟨by decide +kernel, by unfold Undotted; decide, by decide, by decide⟩
  have hdeclared : innermost? (.ofNames ["A.MarkAttribute", "U.MarkAttribute"])
      { name := "C", space := "A.B", containers := ["D"], usings := ["U"] } "MarkAttribute" =
        some "A.MarkAttribute" := by decide +kernel
  exact ⟨h, hdeclared, (binds_innermost_iff h hdeclared).mpr (Or.inl (by decide +kernel))⟩

/-- A type that is nested in the class does not hide the marker that is used. -/
theorem binds_marker_past_nested_type :
    IsSimple { name := "C", usings := ["ReactiveObject.Generators"] } "ReactiveProperty"
        "ReactiveProperty" ∧
      innermost?
          (.ofNames ["C.ReactivePropertyAttribute",
            "ReactiveObject.Generators.ReactivePropertyAttribute"])
          { name := "C", usings := ["ReactiveObject.Generators"] } "ReactivePropertyAttribute" =
        some "C.ReactivePropertyAttribute" ∧
      (bindAttribute
          (.ofNames ["C.ReactivePropertyAttribute",
            "ReactiveObject.Generators.ReactivePropertyAttribute"])
          { name := "C", usings := ["ReactiveObject.Generators"] } "ReactiveProperty").outcome =
        .ok (some "ReactiveObject.Generators.ReactivePropertyAttribute") := by
  refine ⟨⟨by decide +kernel, by unfold Undotted; decide, by decide, by decide⟩, ?_, ?_⟩
  · decide +kernel
  · rw [Scan.outcome_bindAttribute]
    exact congrArg Except.ok (by decide +kernel)

end Backfield.Binding

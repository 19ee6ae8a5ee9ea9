import Backfield.Proofs.Batch.Names
import Backfield.Proofs.Scan.Echoes
import Backfield.Proofs.Scan.Order
import Backfield.Proofs.Source.Scopes

/-!
# Aliases of a merged class

The class of several declarations gets the using directives of all of them.  Each declaration has
an alias once, but two declarations may mean different types by it, and then the class has two
directives for one alias.

* `aliasOf?` is the alias that a directive sets.
* `declaresAliasesOnce_iff` says when a class has no two directives for one alias: when its
  declarations agree on what they mean by it.
* `scan_clashingAliases` is a batch of two files in which they do not.
-/

namespace Backfield

open Source (fragmentsIn)
open Scan (scan usingsOf aliasTexts reportsOf mem_reportsOf mem_usingsOf nodup_eraseDups)

/-- The values that some elements have are distinct exactly when no two elements share one. -/
theorem nodup_filterMap_iff {α β : Type} {xs : List α} (hxs : xs.Nodup) (value : α → Option β) :
    (xs.filterMap value).Nodup ↔
      ∀ x ∈ xs, ∀ y ∈ xs, ∀ b, value x = some b → value y = some b → x = y := by
  rw [List.Nodup, List.pairwise_filterMap]
  constructor
  · intro hpairwise x hx y hy b hxb hyb
    by_contra hne
    have hsymm : Std.Symm fun x y => ∀ b, value x = some b → ∀ b', value y = some b' → b ≠ b' :=
      ⟨fun x y h b hb b' hb' heq => h b' hb' b hb heq.symm⟩
    exact hpairwise.forall hx hy hne b hxb b hyb rfl
  · intro hinj
    refine hxs.pairwise_of_forall_ne fun x hx y hy hne b hb b' hb' heq => hne ?_
    exact hinj x hx y hy b hb (heq ▸ hb')

theorem Source.isWordChar_of_alias? {b : Source.Bearing} {entry : String × String}
    (h : b.alias? = some entry) : ∀ c ∈ entry.1.toList, Text.isWordChar c = true := by
  obtain ⟨directive, hdirective, halias⟩ := Option.bind_eq_some_iff.mp h
  cases b with
  | directive text =>
    cases directive with
    | aliased name target =>
      cases halias
      exact (UsingDirective.isWordChar_of_ofText? hdirective).2
    | plain target => cases halias
    | statics => cases halias
  | space name => cases hdirective
  | type name => cases hdirective
  | conditional => cases hdirective

/-- The names of aliases that are read are words, and a declaration has each of them once. -/
theorem Source.aliases_of_mem_fragmentsIn {code path : String} {f : Fragment}
    (hf : f ∈ fragmentsIn code path) :
    (f.aliases.map Prod.fst).Nodup ∧
      ∀ entry ∈ f.aliases, ∀ c ∈ entry.1.toList, Text.isWordChar c = true := by
  rw [fragmentsIn_eq] at hf
  obtain ⟨place, -, rfl⟩ := List.mem_map.mp hf
  have hnames := (place.isReadAs_fragment path).aliasNames
  rw [hnames]
  refine ⟨nodup_eraseDups _, fun entry hentry => ?_⟩
  have hname : entry.1 ∈ ((place.fragment path {}).aliases).map Prod.fst :=
    List.mem_map_of_mem hentry
  rw [hnames, List.mem_eraseDups] at hname
  obtain ⟨pair, hpair, heq⟩ := List.mem_map.mp hname
  obtain ⟨b, -, hb⟩ := List.mem_filterMap.mp hpair
  exact heq ▸ isWordChar_of_alias? hb

namespace Batch

variable {settings : Settings} {known : KnownTypes} {reports : List Fragment}

/-! ## The alias that a directive sets -/

/-- The alias that a using directive sets: what stands before its first equals sign, without
spaces.  The directive is given without its keyword, as classes have it. -/
def aliasOf? (directive : String) : Option String :=
  if '=' ∈ directive.toList then
    some (String.ofList ((directive.toList.takeWhile (· != '=')).filter (· != ' ')))
  else none

theorem aliasOf?_plain {name : String} (h : '=' ∉ name.toList) : aliasOf? name = none := if_neg h

theorem aliasOf?_alias {name : String} (hname : ∀ c ∈ name.toList, Text.isWordChar c = true)
    (target : String) : aliasOf? (name ++ " = " ++ target) = some name := by
  have hequals : ∀ c ∈ name.toList, (c != '=') = true := by
    intro c hc
    rw [bne_iff_ne]
    rintro rfl
    exact absurd (hname _ hc) (by decide)
  have hspace : ∀ c ∈ name.toList, (c != ' ') = true := by
    intro c hc
    rw [bne_iff_ne]
    rintro rfl
    exact absurd (hname _ hc) (by decide)
  have htext : (name ++ " = " ++ target).toList =
      name.toList ++ ' ' :: '=' :: ' ' :: target.toList := by
    simp
  have hmem : '=' ∈ name.toList ++ ' ' :: '=' :: ' ' :: target.toList := by simp
  rw [aliasOf?, htext, if_pos hmem, List.takeWhile_append_of_pos hequals, List.filter_append,
    List.filter_eq_self.mpr hspace]
  simp

/-! ## Merged directives -/

/-- No two using directives of the class set one alias. -/
def DeclaresAliasesOnce (c : ReactiveClass) : Prop := (c.usings.filterMap aliasOf?).Nodup

/-- Wherever the declarations set an alias, they do so with the same directive. -/
def DirectivesAgree (reports : List Fragment) : Prop :=
  ∀ f ∈ reports, ∀ g ∈ reports, ∀ line ∈ f.usings ++ aliasTexts f,
    ∀ line' ∈ g.usings ++ aliasTexts g, ∀ name,
      aliasOf? line = some name → aliasOf? line' = some name → line = line'

/-- The declarations mean the same by an alias. -/
def TargetsAgree (reports : List Fragment) : Prop :=
  ∀ f ∈ reports, ∀ g ∈ reports, ∀ entry ∈ f.aliases, ∀ entry' ∈ g.aliases,
    entry.1 = entry'.1 → entry.2 = entry'.2

theorem nodup_aliasesOf_usingsOf (reports : List Fragment) :
    ((usingsOf reports).filterMap aliasOf?).Nodup ↔ DirectivesAgree reports := by
  have hnodup : (usingsOf reports).Nodup := nodup_eraseDups _
  rw [nodup_filterMap_iff hnodup]
  constructor
  · intro h f hf g hg line hline line' hline' name hname hname'
    rw [List.mem_append] at hline hline'
    exact h line (mem_usingsOf.mpr ⟨f, hf, hline⟩) line' (mem_usingsOf.mpr ⟨g, hg, hline'⟩) name
      hname hname'
  · intro h line hline line' hline' name hname hname'
    obtain ⟨f, hf, hline⟩ := mem_usingsOf.mp hline
    obtain ⟨g, hg, hline'⟩ := mem_usingsOf.mp hline'
    rw [← List.mem_append] at hline hline'
    exact h f hf g hg line hline line' hline' name hname hname'

/-- Aliases are told from namespaces by their equals signs, and then what they mean decides. -/
theorem directivesAgree_iff
    (hnames : ∀ f ∈ reports, ∀ entry ∈ f.aliases, ∀ c ∈ entry.1.toList,
      Text.isWordChar c = true)
    (hplain : ∀ f ∈ reports, ∀ name ∈ f.usings, '=' ∉ name.toList) :
    DirectivesAgree reports ↔ TargetsAgree reports := by
  constructor
  · intro h f hf g hg entry hentry entry' hentry' heq
    have hline := aliasOf?_alias (hnames f hf entry hentry) entry.2
    have hline' := aliasOf?_alias (hnames g hg entry' hentry') entry'.2
    have hsame := h f hf g hg _ (List.mem_append_right _ (List.mem_map_of_mem hentry)) _
      (List.mem_append_right _ (List.mem_map_of_mem hentry')) entry.1 hline (heq ▸ hline')
    rw [heq] at hsame
    exact (String.append_right_inj _).mp hsame
  · intro h f hf g hg line hline line' hline' name hname hname'
    have hentry : ∀ f ∈ reports, ∀ line ∈ f.usings ++ aliasTexts f, aliasOf? line = some name →
        ∃ entry ∈ f.aliases, line = entry.1 ++ " = " ++ entry.2 ∧ entry.1 = name := by
      intro f hf line hline hname
      rcases List.mem_append.mp hline with hline | hline
      · rw [aliasOf?_plain (hplain f hf line hline)] at hname
        cases hname
      · obtain ⟨entry, hentry, rfl⟩ := List.mem_map.mp hline
        rw [aliasOf?_alias (hnames f hf entry hentry)] at hname
        exact ⟨entry, hentry, rfl, Option.some.inj hname⟩
    obtain ⟨entry, hmem, rfl, hentryname⟩ := hentry f hf line hline hname
    obtain ⟨entry', hmem', rfl, hentryname'⟩ := hentry g hg line' hline' hname'
    have heq : entry.1 = entry'.1 := hentryname.trans hentryname'.symm
    rw [heq, h f hf g hg entry hmem entry' hmem' heq]

theorem aliases_of_mem_fragmentsOf {sources : List (String × String)} {f : Fragment}
    (hf : f ∈ fragmentsOf sources) :
    (f.aliases.map Prod.fst).Nodup ∧
      ∀ entry ∈ f.aliases, ∀ c ∈ entry.1.toList, Text.isWordChar c = true := by
  obtain ⟨source, -, hf⟩ := List.mem_flatMap.mp hf
  exact Source.aliases_of_mem_fragmentsIn hf

/-- Each declaration that is read has an alias once.  The class that a scan makes of several has no
two directives for one alias exactly when all its declarations set it with the same directive; and
as long as no namespace in scope has an equals sign, exactly when they mean the same by it. -/
theorem declaresAliasesOnce_iff {classes : List ReactiveClass} {c : ReactiveClass}
    (sources : List (String × String))
    (hscan : (scan settings known (fragmentsOf sources)).outcome = .ok classes)
    (hc : c ∈ classes) :
    let reports := reportsOf c.fullName (fragmentsOf sources)
    (∀ f ∈ reports, (f.aliases.map Prod.fst).Nodup) ∧
    (DeclaresAliasesOnce c ↔ DirectivesAgree reports) ∧
    ((∀ f ∈ reports, ∀ name ∈ f.usings, '=' ∉ name.toList) →
      (DeclaresAliasesOnce c ↔ TargetsAgree reports)) := by
  intro reports
  obtain ⟨marker, name, hdescribe⟩ := Scan.exists_describe_of_mem hscan hc
  obtain ⟨first, more, properties, hreports, rfl⟩ := Scan.exists_of_describe_eq_some hdescribe
  have hfirst : first ∈ reportsOf name (fragmentsOf sources) := hreports ▸ List.mem_cons_self
  have hname : first.fullName = name := (mem_reportsOf hfirst).2
  have hself : reports = first :: more := by
    rw [← hreports, ← hname]
    rfl
  have hread : ∀ f ∈ reports, f ∈ fragmentsOf sources := fun f hf => (mem_reportsOf hf).1
  have honce : DeclaresAliasesOnce (Scan.classWith first more properties) ↔
      DirectivesAgree reports := by
    rw [hself]
    exact nodup_aliasesOf_usingsOf (first :: more)
  refine ⟨fun f hf => (aliases_of_mem_fragmentsOf (hread f hf)).1, honce, fun hplain => ?_⟩
  rw [honce]
  exact directivesAgree_iff (fun f hf => (aliases_of_mem_fragmentsOf (hread f hf)).2) hplain

/-- Two files that share an alias and mean the same by it. -/
def agreeingAliases : List (String × String) :=
  [("using ReactiveObject.Generators;\nusing X = A.B;\n" ++
      "partial class C \x7b [ReactiveProperty] private int _a; \x7d\n", "C.cs"),
    ("using X = A.B;\npartial class C \x7b \x7d\n", "More.cs")]

theorem declaresAliasesOnce_iff_agreeingAliases :
    ∃ classes c, (scan {} markerOnly (fragmentsOf agreeingAliases)).outcome = .ok classes ∧
      c ∈ classes ∧ DeclaresAliasesOnce c := by
  let c : ReactiveClass := {
    name := "C"
    space := ""
    fullName := "C"
    accessibility := .isInternal
    properties := [⟨"_a", "A", .isInternal, "int"⟩]
    usings := ["ReactiveObject.Generators", "X = A.B"] }
  let first : Fragment := {
    name := "C"
    fields := [⟨"_a", some "int", ["ReactiveProperty"]⟩]
    usings := ["ReactiveObject.Generators"]
    aliases := [("X", "A.B")]
    path := "C.cs" }
  let second : Fragment := { name := "C", aliases := [("X", "A.B")], path := "More.cs" }
  have hread : fragmentsOf agreeingAliases = [first, second] := by decide +kernel
  have hscan : (scan {} markerOnly (fragmentsOf agreeingAliases)).outcome = .ok [c] := by
    rw [hread]
    decide +kernel
  have hplain : ∀ f ∈ reportsOf "C" (fragmentsOf agreeingAliases), ∀ name ∈ f.usings,
      '=' ∉ name.toList := by
    rw [hread]
    decide +kernel
  have hagree : TargetsAgree (reportsOf "C" (fragmentsOf agreeingAliases)) := by
    rw [hread]
    unfold TargetsAgree
    decide +kernel
  have honce := declaresAliasesOnce_iff agreeingAliases hscan (List.mem_singleton_self c)
  exact ⟨[c], c, hscan, List.mem_singleton_self c, (honce.2.2 hplain).mpr hagree⟩

/-- Two files with an alias by which each means something else. -/
def clashingAliases : List (String × String) :=
  [("using ReactiveObject.Generators;\nusing X = A.B;\n" ++
      "partial class C \x7b [ReactiveProperty] private int _a; \x7d\n", "C.cs"),
    ("using X = C.D;\npartial class C \x7b \x7d\n", "More.cs")]

/-- Their class has two directives for the alias. -/
theorem scan_clashingAliases :
    (scan {} markerOnly (fragmentsOf clashingAliases)).outcome.map (·.map ReactiveClass.usings) =
      .ok [["ReactiveObject.Generators", "X = A.B", "X = C.D"]] ∧
    ¬(["ReactiveObject.Generators", "X = A.B", "X = C.D"].filterMap aliasOf?).Nodup := by
  decide +kernel

end Batch

end Backfield

import Backfield.Proofs.Batch.Artifacts
import Backfield.Proofs.Scan.Echoes
import Backfield.Proofs.Source.Directives

/-!
# Generation from what has been generated

The next batch may read the classes that a batch has generated, among its other sources.  This
module says that it generates the same again.

* `generatedFragment` is the declaration that is read for a generated class.
* `PlainNames` says that using directives and aliases can be told apart, and aliases have one
  target; `echoes_generatedFragment` that the declaration is then an echo of the class.
* `generate_with_generated` is the result.
-/

namespace Backfield

/-- Aliases that are set once each are there in order. -/
theorem Aliases.ofList_of_nodup {pairs : List (String × String)}
    (h : (pairs.map Prod.fst).Nodup) : Aliases.ofList pairs = pairs := by
  have hfold : ∀ (rest : List (String × String)) (aliases : Aliases),
      ((aliases ++ rest).map Prod.fst).Nodup →
        rest.foldl (fun aliases pair => aliases.put pair.1 pair.2) aliases = aliases ++ rest := by
    intro rest
    induction rest with
    | nil => exact fun aliases _ => (List.append_nil aliases).symm
    | cons pair rest ih =>
      intro aliases hkeys
      have hnew : pair.1 ∉ aliases.map Prod.fst := by
        rw [List.map_append, List.nodup_append] at hkeys
        exact fun hmem => hkeys.2.2 _ hmem _ List.mem_cons_self rfl
      rw [List.append_cons] at hkeys ⊢
      rw [List.foldl_cons, put_eq_append _ hnew, ih _ hkeys]
  exact hfold pairs [] h

namespace Batch

open Scan (scan reportsOf mem_reportsOf classWith usingsOf usingsOf_eq aliasTexts Echoes IsEcho
  nodup_eraseDups outcome_scan_echoes)

/-! ## The declaration of a generated class -/

/-- The alias and the target that a using directive with this text sets. -/
def splitAlias? (text : String) : Option (String × String) :=
  match text.toList.dropWhile (· != ' ') with
  | ' ' :: '=' :: ' ' :: target =>
    some (String.ofList (text.toList.takeWhile (· != ' ')), String.ofList target)
  | _ => none

/-- The declaration that is read for a generated class.  Its properties are no fields. -/
def generatedFragment (path : String) (c : ReactiveClass) : Fragment where
  name := c.name
  space := c.space
  containers := c.containers
  typeParameters := c.typeParameters
  accessibility := some c.accessibility
  usings := c.usings.filter fun text => (splitAlias? text).isNone
  aliases := Aliases.ofList (c.usings.filterMap splitAlias?)
  path

theorem splitAlias?_alias {name : String} (hname : ' ' ∉ name.toList) (target : String) :
    splitAlias? (name ++ " = " ++ target) = some (name, target) := by
  have hvisible : ∀ c ∈ name.toList, (c != ' ') = true := by
    intro c hc
    exact bne_iff_ne.mpr fun heq => hname (heq ▸ hc)
  have htext : (name ++ " = " ++ target).toList =
      name.toList ++ ' ' :: '=' :: ' ' :: target.toList := by
    simp
  rw [splitAlias?, htext, List.dropWhile_append_of_pos hvisible,
    List.takeWhile_append_of_pos hvisible]
  simp

theorem splitAlias?_plain {text : String} (htext : ' ' ∉ text.toList) :
    splitAlias? text = none := by
  have hvisible : ∀ c ∈ text.toList, (c != ' ') = true := by
    intro c hc
    exact bne_iff_ne.mpr fun heq => htext (heq ▸ hc)
  rw [splitAlias?, List.dropWhile_eq_nil_iff.mpr hvisible]

/-! ## Using directives and aliases -/

/-- No space stands in a using directive or in the name of an alias, and all fragments of a class
mean the same by an alias. -/
structure PlainNames (fragments : List Fragment) : Prop where
  usings : ∀ f ∈ fragments, ∀ name ∈ f.usings, ' ' ∉ name.toList
  aliases : ∀ f ∈ fragments, ∀ entry ∈ f.aliases, ' ' ∉ entry.1.toList
  targets : ∀ f ∈ fragments, ∀ g ∈ fragments, f.fullName = g.fullName →
    ∀ entry ∈ f.aliases, ∀ entry' ∈ g.aliases, entry.1 = entry'.1 → entry.2 = entry'.2

section

variable {fragments reports : List Fragment} {name : String}

/-- What the plain using directives of the reports name, once each. -/
def plainOf (reports : List Fragment) : List String := (reports.flatMap (·.usings)).eraseDups

/-- The aliases of the reports as texts, once each. -/
def aliasesOf (reports : List Fragment) : List String := (reports.flatMap aliasTexts).eraseDups

theorem PlainNames.splitAlias?_plainOf (h : PlainNames fragments) {text : String}
    (htext : text ∈ plainOf (reportsOf name fragments)) : splitAlias? text = none := by
  rw [plainOf, List.mem_eraseDups] at htext
  obtain ⟨f, hf, hmem⟩ := List.mem_flatMap.mp htext
  exact splitAlias?_plain (h.usings f (mem_reportsOf hf).1 text hmem)

/-- The text of an alias tells the alias. -/
theorem PlainNames.exists_of_mem_aliasesOf (h : PlainNames fragments) {text : String}
    (htext : text ∈ aliasesOf (reportsOf name fragments)) :
    ∃ f ∈ reportsOf name fragments, ∃ entry ∈ f.aliases, text = entry.1 ++ " = " ++ entry.2 ∧
      splitAlias? text = some entry := by
  rw [aliasesOf, List.mem_eraseDups] at htext
  obtain ⟨f, hf, hmem⟩ := List.mem_flatMap.mp htext
  obtain ⟨entry, hentry, rfl⟩ := List.mem_map.mp hmem
  exact ⟨f, hf, entry, hentry, rfl,
    splitAlias?_alias (h.aliases f (mem_reportsOf hf).1 entry hentry) entry.2⟩

/-- The using directives of a class are its plain ones and behind them its aliases. -/
theorem PlainNames.usingsOf_eq_append (h : PlainNames fragments) (name : String) :
    usingsOf (reportsOf name fragments) =
      plainOf (reportsOf name fragments) ++ aliasesOf (reportsOf name fragments) := by
  have hapart : ((reportsOf name fragments).flatMap aliasTexts).removeAll
      ((reportsOf name fragments).flatMap (·.usings)) =
        (reportsOf name fragments).flatMap aliasTexts := by
    rw [List.removeAll, List.filter_eq_self]
    intro text htext
    obtain ⟨f, hf, entry, hentry, -, hsome⟩ :=
      h.exists_of_mem_aliasesOf (List.mem_eraseDups.mpr htext)
    have hnot : text ∉ (reportsOf name fragments).flatMap (·.usings) := by
      intro hplain
      rw [h.splitAlias?_plainOf (List.mem_eraseDups.mpr hplain)] at hsome
      cases hsome
    simpa using hnot
  rw [usingsOf_eq, List.eraseDups_append, hapart]
  rfl

theorem PlainNames.filter_usingsOf (h : PlainNames fragments) (name : String) :
    (usingsOf (reportsOf name fragments)).filter (fun text => (splitAlias? text).isNone) =
      plainOf (reportsOf name fragments) := by
  have hplain : (plainOf (reportsOf name fragments)).filter
      (fun text => (splitAlias? text).isNone) = plainOf (reportsOf name fragments) := by
    rw [List.filter_eq_self]
    intro text htext
    rw [h.splitAlias?_plainOf htext]
    rfl
  have haliases : (aliasesOf (reportsOf name fragments)).filter
      (fun text => (splitAlias? text).isNone) = [] := by
    rw [List.filter_eq_nil_iff]
    intro text htext
    obtain ⟨_, _, _, _, _, hsome⟩ := h.exists_of_mem_aliasesOf htext
    rw [hsome]
    exact Bool.false_ne_true
  rw [h.usingsOf_eq_append, List.filter_append, hplain, haliases, List.append_nil]

theorem PlainNames.filterMap_usingsOf (h : PlainNames fragments) (name : String) :
    (usingsOf (reportsOf name fragments)).filterMap splitAlias? =
      (aliasesOf (reportsOf name fragments)).filterMap splitAlias? := by
  have hplain : (plainOf (reportsOf name fragments)).filterMap splitAlias? = [] :=
    List.filterMap_eq_nil_iff.mpr fun text htext => h.splitAlias?_plainOf htext
  rw [h.usingsOf_eq_append, List.filterMap_append, hplain, List.nil_append]

/-- No alias is set twice. -/
theorem PlainNames.nodup_aliases (h : PlainNames fragments) (name : String) :
    (((aliasesOf (reportsOf name fragments)).filterMap splitAlias?).map Prod.fst).Nodup := by
  rw [List.Nodup, List.pairwise_map, List.pairwise_filterMap]
  refine List.Pairwise.imp_of_mem ?_ (nodup_eraseDups _)
  intro text text' htext htext' hne entry hentry entry' hentry' hkey
  obtain ⟨f, hf, _, hmem, heq, hsplit⟩ := h.exists_of_mem_aliasesOf htext
  obtain ⟨g, hg, _, hmem', heq', hsplit'⟩ := h.exists_of_mem_aliasesOf htext'
  obtain rfl := Option.some.inj (hsplit.symm.trans hentry)
  obtain rfl := Option.some.inj (hsplit'.symm.trans hentry')
  obtain ⟨hf, hfull⟩ := mem_reportsOf hf
  obtain ⟨hg, hfull'⟩ := mem_reportsOf hg
  have htarget := h.targets f hf g hg (hfull.trans hfull'.symm) _ hmem _ hmem' hkey
  exact hne (by rw [heq, heq', hkey, htarget])

/-- The declaration that is read for a generated class is an echo of it. -/
theorem PlainNames.isEcho (h : PlainNames fragments) (path : ReactiveClass → String) :
    IsEcho (fun c => generatedFragment (path c) c) fragments := by
  intro name first more properties hreports
  have husings : (classWith first more properties).usings =
      usingsOf (reportsOf name fragments) := by
    rw [hreports]
    rfl
  have htexts : ((aliasesOf (reportsOf name fragments)).filterMap splitAlias?).map
      (fun entry => entry.1 ++ " = " ++ entry.2) = aliasesOf (reportsOf name fragments) := by
    rw [List.map_filterMap]
    refine (List.filterMap_congr fun text htext => ?_).trans List.filterMap_some
    obtain ⟨_, _, entry, _, heq, hsplit⟩ := h.exists_of_mem_aliasesOf htext
    rw [hsplit, Option.map_some, ← heq]
  refine ⟨⟨rfl, rfl, rfl, rfl⟩, rfl, rfl, ?_, ?_⟩
  · simp only [generatedFragment]
    rw [husings, h.filter_usingsOf, plainOf, hreports]
  · simp only [generatedFragment, aliasTexts]
    rw [husings, h.filterMap_usingsOf, Aliases.ofList_of_nodup (h.nodup_aliases name), htexts,
      aliasesOf, hreports]

end

/-! ## The next batch -/

/-- If a batch succeeds, it generates the same, byte for byte, when the declarations of the classes
that it has generated are behind its sources or before them, whatever their paths. -/
theorem generate_with_generated (settings : Settings) (known : KnownTypes)
    {fragments : List Fragment} {artifacts : List Artifact} (hplain : PlainNames fragments)
    (hgenerate : (generate settings known fragments .never).outcome = .ok artifacts) :
    ∃ classes, (scan settings known fragments).outcome = .ok classes ∧
      ∀ path : ReactiveClass → String,
        let generated := classes.map fun c => generatedFragment (path c) c
        (generate settings known (fragments ++ generated) .never).outcome = .ok artifacts ∧
          (generate settings known (generated ++ fragments) .never).outcome = .ok artifacts := by
  rw [outcome_generate_eq] at hgenerate
  obtain ⟨classes, hscan, hartifacts⟩ := exists_of_bind_eq_ok hgenerate
  refine ⟨classes, hscan, fun path => ?_⟩
  obtain ⟨hafter, hbefore⟩ := outcome_scan_echoes (hplain.isEcho path) hscan
  constructor
  · rw [outcome_generate_eq, hafter]
    exact hartifacts
  · rw [outcome_generate_eq, hbefore]
    exact hartifacts

/-- A class whose own declarations leave its accessibility open and share an alias.  The declaration
of its generated part is among the fragments already, as an earlier batch has left it. -/
theorem generate_with_generated_internal :
    let marker := "ReactiveObject.Generators.ReactivePropertyAttribute"
    let first : Fragment := {
      name := "Car"
      space := "Shop"
      fields := [⟨"_speed", some "int", ["R"]⟩]
      usings := ["System"]
      aliases := [("R", marker), ("S", "System.String")] }
    let second : Fragment := {
      name := "Car"
      space := "Shop"
      fields := [⟨"_owner", some "S", ["ReactiveProperty"]⟩]
      usings := ["ReactiveObject.Generators", "System"]
      aliases := [("S", "System.String")] }
    let third : Fragment := {
      name := "Car"
      space := "Shop"
      accessibility := some .isInternal
      usings := ["System", "ReactiveObject.Generators"]
      aliases := [("R", marker), ("S", "System.String")]
      path := "Car.g.cs" }
    let fragments := [first, second, third]
    let known := KnownTypes.ofNames [marker]
    ∃ artifacts classes,
      (PlainNames fragments ∧ (generate {} known fragments .never).outcome = .ok artifacts ∧
        (scan {} known fragments).outcome = .ok classes ∧ artifacts.length = 2) ∧
      let generated := classes.map fun c => generatedFragment "Car.g.cs" c
      (generate {} known (fragments ++ generated) .never).outcome = .ok artifacts ∧
        (generate {} known (generated ++ fragments) .never).outcome = .ok artifacts := by
  intro marker first second third fragments known
  have hplain : PlainNames fragments :=
    ⟨by decide +kernel, by decide +kernel, by decide +kernel⟩
  have hok : ∃ artifacts, (generate {} known fragments .never).outcome = .ok artifacts ∧
      artifacts.length = 2 := by
    have hlength : ((generate {} known fragments .never).outcome.map List.length) = .ok 2 := by
      decide +kernel
    obtain ⟨artifacts, hgenerate, htwo⟩ := exists_of_map_eq_ok hlength
    exact ⟨artifacts, hgenerate, htwo⟩
  obtain ⟨artifacts, hgenerate, htwo⟩ := hok
  obtain ⟨classes, hscan, hsame⟩ := generate_with_generated {} known hplain hgenerate
  exact ⟨artifacts, classes, ⟨hplain, hgenerate, hscan, htwo⟩, hsame fun _ => "Car.g.cs"⟩

end Batch

end Backfield

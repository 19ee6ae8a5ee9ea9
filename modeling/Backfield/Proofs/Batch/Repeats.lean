import Backfield.Proofs.Batch.Artifacts
import Backfield.Proofs.Scan.Repeats
import Backfield.Proofs.Source.Sites

/-!
# Sources that are read twice

Reading a text again, under another spelling of its path, gives copies of its fragments
(`isCopy_of_mem_fragmentsIn`).  So it changes neither the classes nor the artifacts of a batch,
which `generate_insert_copies` says of copies in general.
-/

namespace Backfield

open CSharp (Declaration)
open Source (Scope visit visitAll foundHere scopeAfter fragmentsIn fragments_append)
open Scan (AliasesAgree scan outcome_scan_insert)

/-! ## The path of a text -/

/-- The fragment under another path. -/
def Fragment.under (path : String) (f : Fragment) : Fragment := { f with path }

namespace Source

theorem fragments_foundHere (path path' : String) (scope : Scope) (head : CSharp.TypeHead)
    (body : List Declaration) :
    (foundHere path' scope head body).fragments =
      (foundHere path scope head body).fragments.map (Fragment.under path') := by
  simp only [foundHere]
  split <;> rfl

mutual

theorem fragments_visit (path path' : String) (scope : Scope) :
    ∀ declaration : Declaration, (visit path' scope declaration).fragments =
      (visit path scope declaration).fragments.map (Fragment.under path')
  | .space name body => fragments_visitAll path path' (scope.enterSpace name) body
  | .type head body => by
    rw [visit, visit]
    split
    · rfl
    · rw [fragments_append, fragments_append, List.map_append,
        ← fragments_foundHere path path' scope head body,
        fragments_visitAll path path' (scope.enterType head.name) body]
  | .usingDirective _ => rfl
  | .fileSpace _ => rfl
  | .field _ => rfl
  | .conditional _ => rfl
  | .other => rfl

theorem fragments_visitAll (path path' : String) (scope : Scope) :
    ∀ declarations : List Declaration, (visitAll path' scope declarations).fragments =
      (visitAll path scope declarations).fragments.map (Fragment.under path')
  | [] => rfl
  | declaration :: rest => by
    rw [visitAll, visitAll, fragments_append, fragments_append, List.map_append,
      ← fragments_visit path path' scope declaration,
      fragments_visitAll path path' (scopeAfter scope declaration) rest]

end

/-- A text that is read under two paths gives the same fragments, apart from the path. -/
theorem isCopy_of_mem_fragmentsIn {code path path' : String} {copy : Fragment}
    (hcopy : copy ∈ fragmentsIn code path') : ∃ f ∈ fragmentsIn code path, copy.IsCopy f := by
  rw [fragmentsIn, fragments_visitAll path path'] at hcopy
  obtain ⟨f, hf, rfl⟩ := List.mem_map.mp hcopy
  exact ⟨f, hf, ⟨rfl, rfl, rfl, rfl, rfl, rfl, rfl⟩, Aliases.SameEntries.refl _⟩

end Source

namespace Batch

/-- Copies of earlier fragments change neither the classes that a scan finds nor the artifacts of
a batch, wherever they stand after what they copy.  In particular, a text that is read a second
time under another path changes nothing. -/
theorem generate_insert_copies (settings : Settings) (known : KnownTypes)
    (front back : List Fragment) (hagree : AliasesAgree (front ++ back)) :
    (∀ copies : List Fragment, (∀ copy ∈ copies, ∃ f ∈ front, copy.IsCopy f) →
      (scan settings known (front ++ (copies ++ back))).outcome =
        (scan settings known (front ++ back)).outcome ∧
      (generate settings known (front ++ (copies ++ back)) .never).outcome =
        (generate settings known (front ++ back) .never).outcome) ∧
    ∀ code path path' : String, fragmentsIn code path ⊆ front →
      (generate settings known (front ++ (fragmentsIn code path' ++ back)) .never).outcome =
        (generate settings known (front ++ back) .never).outcome := by
  have hcopies : ∀ copies : List Fragment, (∀ copy ∈ copies, ∃ f ∈ front, copy.IsCopy f) →
      (scan settings known (front ++ (copies ++ back))).outcome =
        (scan settings known (front ++ back)).outcome ∧
      (generate settings known (front ++ (copies ++ back)) .never).outcome =
        (generate settings known (front ++ back) .never).outcome := by
    intro copies hcopies
    have hscan := @outcome_scan_insert known settings front copies back hagree hcopies
    refine ⟨hscan, ?_⟩
    rw [outcome_generate_eq, outcome_generate_eq, hscan]
  refine ⟨hcopies, fun code path path' hread => (hcopies _ fun copy hcopy => ?_).2⟩
  obtain ⟨f, hf, hof⟩ := @Source.isCopy_of_mem_fragmentsIn code path path' copy hcopy
  exact ⟨f, hread hf, hof⟩

/-- A report with two aliases, and a copy of it under another path with the aliases in another
order.  What follows the copy is again a copy, and would be dropped as a repeat of it. -/
theorem generate_insert_copies_reordered :
    let marker := "ReactiveObject.Generators.ReactivePropertyAttribute"
    let report : Fragment := {
      name := "Car"
      fields := [⟨"_speed", some "int", ["R"]⟩, ⟨"_owner", some "S.String", []⟩]
      aliases := [("R", marker), ("S", "System")]
      path := "Car.cs" }
    let copy : Fragment := {
      report with
      aliases := [("S", "System"), ("R", marker)]
      path := "./Car.cs" }
    let known := KnownTypes.ofNames [marker]
    AliasesAgree ([report] ++ [copy]) ∧ copy.IsCopy report ∧
      (generate {} known ([report] ++ ([copy] ++ [copy])) .never).outcome =
        (generate {} known ([report] ++ [copy]) .never).outcome := by
  intro marker report copy known
  have hentries : copy.aliases.SameEntries report.aliases :=
    Aliases.SameEntries.of_perm (by decide) (List.Perm.swap _ _ _)
  have hcopy : copy.IsCopy report := ⟨⟨rfl, rfl, rfl, rfl, rfl, rfl, rfl⟩, hentries⟩
  have hagree : AliasesAgree ([report] ++ [copy]) := by
    intro f hf g hg _
    simp only [List.cons_append, List.nil_append, List.mem_cons, List.not_mem_nil, or_false]
      at hf hg
    rcases hf with rfl | rfl
    · rcases hg with rfl | rfl
      · exact Aliases.SameEntries.refl _
      · exact hentries.symm
    · rcases hg with rfl | rfl
      · exact hentries
      · exact Aliases.SameEntries.refl _
  refine ⟨hagree, hcopy, ?_⟩
  refine ((generate_insert_copies {} known [report] [copy] hagree).1 [copy] ?_).2
  intro other hother
  rw [List.mem_singleton.mp hother]
  exact ⟨report, List.mem_singleton_self report, hcopy⟩

end Batch

end Backfield

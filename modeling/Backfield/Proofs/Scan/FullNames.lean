import Backfield.Proofs.Scan.Classes

/-!
# Full names

How a full name is put together, and what can be read off it again.

* `joinNames_concat` splits a joined name before its last part, `fullName_eq` does so for the
  full name of a class.
* `qualifiedName_inj` says that a last part without a dot can be told from what is before it,
  and `intercalate_inj` that parts without the separator can be told from each other.
-/

namespace Backfield

open Scan (qualifiedName)

/-! ## Joined names -/

/-- The parts of a name that are joined. -/
def partsOf (names : List String) : List String := names.filter (· != "")

theorem joinNames_eq_empty_iff (names : List String) : joinNames names = "" ↔ partsOf names = [] := by
  rw [joinNames]
  cases hparts : names.filter (· != "") with
  | nil => simp [partsOf, hparts]
  | cons part rest =>
    have hpart : part ≠ "" := by
      have hmem : part ∈ names.filter (· != "") := hparts ▸ List.mem_cons_self
      simpa using List.of_mem_filter hmem
    have hne : ".".intercalate (part :: rest) ≠ "" := by
      intro hempty
      have hchars := congrArg String.toList hempty
      rw [String.toList_intercalate] at hchars
      cases rest with
      | nil => simp [hpart] at hchars
      | cons next more => simp [List.intercalate] at hchars
    simp [partsOf, hparts, hne]

/-- A joined name is its last part after what is before it. -/
theorem joinNames_concat (names : List String) {last : String} (hlast : last ≠ "") :
    joinNames (names ++ [last]) = qualifiedName (joinNames names) last := by
  have hfilter : (names ++ [last]).filter (· != "") = partsOf names ++ [last] := by
    simp [partsOf, hlast]
  rw [joinNames, hfilter, qualifiedName]
  by_cases hparts : partsOf names = []
  · rw [if_pos ((joinNames_eq_empty_iff names).mpr hparts), hparts]
    simp
  · rw [if_neg fun h => hparts ((joinNames_eq_empty_iff names).mp h),
      String.intercalate_append_of_ne_nil hparts (List.cons_ne_nil _ _),
      String.intercalate_singleton]
    rfl

/-- The namespace and the types around a class, joined. -/
def Fragment.scopeName (f : Fragment) : String := joinNames (f.space :: f.containers)

/-- The full name of a class is its name with its list of type parameters, after what is around
it. -/
theorem Fragment.fullName_eq (f : Fragment) (hname : f.name ≠ "") :
    f.fullName = qualifiedName f.scopeName (f.name ++ f.typeParameters) := by
  have hlast : f.name ++ f.typeParameters ≠ "" := by
    intro hempty
    exact hname (String.append_eq_empty_iff.mp hempty).1
  rw [Fragment.scopeName, ← joinNames_concat _ hlast, Fragment.fullName, joinNames,
    List.filter_append]
  simp [hname]

/-! ## Names taken apart -/

/-- What stands before the last mark and what stands after it. -/
theorem append_cons_inj {α : Type} {x : α} {as bs cs ds : List α} (hbs : x ∉ bs) (hds : x ∉ ds)
    (h : as ++ x :: bs = cs ++ x :: ds) : as = cs ∧ bs = ds := by
  rcases List.append_eq_append_iff.mp h with ⟨es, rfl, htail⟩ | ⟨es, rfl, htail⟩
  · cases es with
    | nil => exact ⟨(List.append_nil as).symm, (List.cons.inj htail).2⟩
    | cons e es =>
      obtain ⟨-, rfl⟩ := List.cons.inj htail
      exact absurd (List.mem_append_right es List.mem_cons_self) hbs
  · cases es with
    | nil => exact ⟨List.append_nil cs, (List.cons.inj htail).2.symm⟩
    | cons e es =>
      obtain ⟨-, rfl⟩ := List.cons.inj htail
      exact absurd (List.mem_append_right es List.mem_cons_self) hds

/-- The last part of a name has no dot. -/
def Undotted (name : String) : Prop := '.' ∉ name.toList

theorem qualifiedName_inj {space space' name name' : String} (hname : Undotted name)
    (hname' : Undotted name') :
    qualifiedName space name = qualifiedName space' name' ↔ space = space' ∧ name = name' := by
  refine ⟨fun h => ?_, fun h => by rw [h.1, h.2]⟩
  have hdot : ∀ space name : String, '.' ∈ (space ++ "." ++ name).toList := by simp
  rw [qualifiedName, qualifiedName] at h
  split at h
  · rename_i hspace
    split at h
    · rename_i hspace'
      exact ⟨hspace.trans hspace'.symm, h⟩
    · exact absurd (h ▸ hdot _ _) hname
  · split at h
    · exact absurd (h ▸ hdot _ _) hname'
    · have hchars := congrArg String.toList h
      have hmark : ".".toList = ['.'] := rfl
      simp only [String.toList_append, hmark, List.append_assoc, List.cons_append,
        List.nil_append] at hchars
      obtain ⟨hspaces, hnames⟩ := append_cons_inj hname hname' hchars
      exact ⟨String.toList_inj.mp hspaces, String.toList_inj.mp hnames⟩

/-- Parts without the mark between them can be told from each other. -/
theorem intercalate_inj {mark : String} {c : Char} (hmark : mark.toList = [c])
    {parts parts' : List String} (hparts : parts ≠ []) (hparts' : parts' ≠ [])
    (hfree : ∀ part ∈ parts, c ∉ part.toList) (hfree' : ∀ part ∈ parts', c ∉ part.toList)
    (h : mark.intercalate parts = mark.intercalate parts') : parts = parts' := by
  have hsplit : ∀ parts : List String, parts ≠ [] → (∀ part ∈ parts, c ∉ part.toList) →
      (mark.intercalate parts).toList.splitOn c = parts.map String.toList := by
    intro parts hne hfree
    rw [String.toList_intercalate, hmark]
    refine List.splitOn_intercalate c ?_ (by simpa using hne)
    intro chars hchars
    obtain ⟨part, hpart, rfl⟩ := List.mem_map.mp hchars
    exact hfree part hpart
  have hmap : parts.map String.toList = parts'.map String.toList := by
    rw [← hsplit parts hparts hfree, h, hsplit parts' hparts' hfree']
  exact List.map_injective_iff.mpr (fun _ _ heq => String.toList_inj.mp heq) hmap

end Backfield

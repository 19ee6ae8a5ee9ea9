import Mathlib.Data.List.Nodup
import Mathlib.Data.List.Induction
import Backfield.Scan

/-!
# The groups of a list of fragments

`Scan.group` builds its groups one fragment at a time.  This module says what comes out: one
group for each class, in order of first appearance, that holds the reports of the class with
every declaration once.

* `eraseDupsBy_concat` and `nodup_eraseDups` are the facts about dropped repeats that lists
  grown at the end need.
* `map_eraseDupsBy` and `eraseDupsBy_filter` say what dropping repeats commutes with.
* `addToGroups_of_mem` and `addToGroups_of_not_mem` are the two steps of the loop.
* `group_eq` is the result, and `mem_of_mem_group` says that no group holds anything else.
-/

namespace Backfield.Scan

/-! ## Dropped repeats -/

/-- A last element stays unless one that has stayed repeats it. -/
theorem eraseDupsBy_concat {α : Type} (same : α → α → Bool) (xs : List α) (x : α) :
    (xs ++ [x]).eraseDupsBy same =
      if (xs.eraseDupsBy same).any (same x) then xs.eraseDupsBy same
      else xs.eraseDupsBy same ++ [x] := by
  -- Dropping the repeats of the first element shortens the rest, so the length carries it.
  induction hlength : xs.length using Nat.strongRecOn generalizing xs with
  | ind n ih =>
    cases xs with
    | nil => simp [List.eraseDupsBy_cons]
    | cons y ys =>
      have hshort : (ys.filter fun z => same z y = false).length < n := by
        rw [← hlength, List.length_cons]
        exact Nat.lt_succ_of_le (List.length_filter_le _ _)
      rw [List.cons_append, List.eraseDupsBy_cons, List.eraseDupsBy_cons, List.filter_append]
      by_cases hxy : same x y = true
      · simp [hxy]
      · have hkept : [x].filter (fun z => same z y = false) = [x] := by simp [hxy]
        rw [hkept, ih _ hshort _ rfl]
        split <;> simp_all

theorem mem_of_mem_eraseDupsBy {α : Type} {same : α → α → Bool} {xs : List α} {x : α}
    (hmem : x ∈ xs.eraseDupsBy same) : x ∈ xs := by
  induction xs using List.reverseRecOn with
  | nil => exact hmem
  | append_singleton xs y ih =>
    rw [eraseDupsBy_concat] at hmem
    split at hmem
    · exact List.mem_append_left _ (ih hmem)
    · rcases List.mem_append.mp hmem with hold | hnew
      · exact List.mem_append_left _ (ih hold)
      · exact List.mem_append_right _ hnew

/-- Of every element an equal one is left when repeats are dropped. -/
theorem exists_mem_eraseDupsBy {α : Type} {same : α → α → Bool} (hsame : ∀ x, same x x = true)
    {xs : List α} {x : α} (hx : x ∈ xs) : ∃ y ∈ xs.eraseDupsBy same, same x y = true := by
  induction xs using List.reverseRecOn with
  | nil => cases hx
  | append_singleton xs z ih =>
    rw [eraseDupsBy_concat]
    rcases List.mem_append.mp hx with hold | hnew
    · obtain ⟨y, hy, hxy⟩ := ih hold
      split
      · exact ⟨y, hy, hxy⟩
      · exact ⟨y, List.mem_append_left _ hy, hxy⟩
    · rw [List.mem_singleton.mp hnew]
      split
      · rename_i hany
        exact List.any_eq_true.mp hany
      · exact ⟨z, by simp, hsame z⟩

theorem nodup_eraseDups {α : Type} [BEq α] [LawfulBEq α] (xs : List α) :
    xs.eraseDups.Nodup := by
  induction xs using List.reverseRecOn with
  | nil => simp
  | append_singleton xs x ih =>
    rw [List.eraseDups, eraseDupsBy_concat]
    split
    · exact ih
    · rename_i hnew
      rw [← List.concat_eq_append]
      refine List.Nodup.concat (fun hmem => hnew ?_) ih
      exact List.any_eq_true.mpr ⟨x, hmem, beq_self_eq_true x⟩

/-- The elements that are left have the values that are left. -/
theorem map_eraseDupsBy {α β : Type} [BEq β] [LawfulBEq β] {same : α → α → Bool} {value : α → β}
    (hsame : ∀ x y, same x y = (value x == value y)) (xs : List α) :
    (xs.eraseDupsBy same).map value = (xs.map value).eraseDups := by
  induction xs using List.reverseRecOn with
  | nil => rfl
  | append_singleton xs x ih =>
    have hany : (xs.eraseDupsBy same).any (same x) =
        ((xs.map value).eraseDups).any (value x == ·) := by
      rw [← ih, List.any_map]
      exact congrArg _ (funext (hsame x))
    rw [List.map_append, List.map_singleton, List.eraseDups, eraseDupsBy_concat,
      eraseDupsBy_concat, hany, ← List.eraseDups, ← ih]
    split
    · rfl
    · rw [List.map_append, List.map_singleton]

/-- The order of a list does not matter for what is left. -/
theorem perm_eraseDups {α : Type} [BEq α] [LawfulBEq α] {xs ys : List α} (h : xs.Perm ys) :
    xs.eraseDups.Perm ys.eraseDups := by
  rw [List.perm_ext_iff_of_nodup (nodup_eraseDups xs) (nodup_eraseDups ys)]
  intro x
  rw [List.mem_eraseDups, List.mem_eraseDups, h.mem_iff]

/-- Repeats are dropped before a selection that does not tell them apart, or after it. -/
theorem eraseDupsBy_filter {α : Type} {same : α → α → Bool} {p : α → Bool}
    (hsame : ∀ x y, same x y = true → p x = p y) (xs : List α) :
    (xs.filter p).eraseDupsBy same = (xs.eraseDupsBy same).filter p := by
  induction xs using List.reverseRecOn with
  | nil => rfl
  | append_singleton xs x ih =>
    rw [List.filter_append, List.filter_singleton, eraseDupsBy_concat]
    cases hx : p x with
    | false =>
      rw [cond_false, List.append_nil, ih]
      split
      · rfl
      · rw [List.filter_append, List.filter_singleton, hx, cond_false, List.append_nil]
    | true =>
      have hany : ((xs.eraseDupsBy same).filter p).any (same x) =
          (xs.eraseDupsBy same).any (same x) := by
        rw [List.any_filter]
        refine congrArg _ (funext fun y => ?_)
        cases hxy : same x y with
        | false => rw [Bool.and_false]
        | true => rw [Bool.and_true, ← hsame x y hxy, hx]
      rw [cond_true, eraseDupsBy_concat, ih, hany]
      split
      · rfl
      · rw [List.filter_append, List.filter_singleton, hx, cond_true]

theorem eraseDups_of_nodup {α : Type} [BEq α] [LawfulBEq α] {xs : List α} (h : xs.Nodup) :
    xs.eraseDups = xs := by
  induction xs with
  | nil => rfl
  | cons x xs ih =>
    rw [List.nodup_cons] at h
    have hkept : xs.filter (fun y => !y == x) = xs := by
      rw [List.filter_eq_self]
      intro y hy
      have hne : y ≠ x := fun heq => h.1 (heq ▸ hy)
      simp [hne]
    rw [List.eraseDups_cons, hkept, ih h.2]

/-- Repeats within the front or within the back can be dropped beforehand. -/
theorem eraseDups_append_eraseDups {α : Type} [BEq α] [LawfulBEq α] (xs ys : List α) :
    (xs.eraseDups ++ ys.eraseDups).eraseDups = (xs ++ ys).eraseDups := by
  have hremove : ys.eraseDups.removeAll xs.eraseDups = (ys.removeAll xs).eraseDups := by
    have hsame : ∀ x y : α, (x == y) = true → (!xs.elem x) = !xs.elem y := by
      intro x y hxy
      rw [beq_iff_eq.mp hxy]
    have hfilter : (ys.removeAll xs).eraseDups = ys.eraseDups.filter fun x => !xs.elem x :=
      eraseDupsBy_filter hsame ys
    rw [hfilter, List.removeAll]
    refine congrArg (List.filter · _) (funext fun y => congrArg (!·) ?_)
    simp
  rw [List.eraseDups_append, List.eraseDups_append, hremove,
    eraseDups_of_nodup (nodup_eraseDups xs), eraseDups_of_nodup (nodup_eraseDups _)]

/-! ## One step of the grouping -/

/-- What a group holds: its key and its fragments. -/
def Group.contents (g : Group) : String × List Fragment := (g.key, g.fragments)

/-- The reports of a class after one more, which may repeat an earlier one. -/
def addReport (f : Fragment) (reports : List Fragment) : List Fragment :=
  if reports.any f.sameReport then reports else reports ++ [f]

theorem Group.contents_add (g : Group) (f : Fragment) :
    (g.add f).contents = (g.key, addReport f g.fragments) := by
  unfold Group.add addReport
  split <;> rfl

/-- A fragment of a class that has a group goes into that group. -/
theorem addToGroups_of_mem {f : Fragment} {groups : List Group}
    (hnodup : (groups.map Group.key).Nodup) (hmem : f.fullName ∈ groups.map Group.key) :
    (addToGroups f groups).map Group.contents =
      (groups.map Group.contents).map fun c =>
        if c.1 = f.fullName then (c.1, addReport f c.2) else c := by
  induction groups with
  | nil => simp at hmem
  | cons g rest ih =>
    rw [List.map_cons, List.nodup_cons] at hnodup
    by_cases hkey : g.key = f.fullName
    · -- The keys are distinct, so no later group changes.
      have hrest : ∀ c ∈ rest.map Group.contents,
          (if c.1 = f.fullName then (c.1, addReport f c.2) else c) = c := by
        intro c hc
        obtain ⟨g', hg', rfl⟩ := List.mem_map.mp hc
        refine if_neg fun heq => hnodup.1 ?_
        rw [hkey, ← heq]
        exact List.mem_map_of_mem hg'
      have hcontents : (g.contents).1 = f.fullName := hkey
      rw [addToGroups, if_pos (beq_iff_eq.mpr hkey), List.map_cons, List.map_cons, List.map_cons,
        List.map_congr_left hrest, List.map_id', if_pos hcontents, Group.contents_add]
      rfl
    · have hmem' : f.fullName ∈ rest.map Group.key := by
        rw [List.map_cons, List.mem_cons] at hmem
        exact hmem.resolve_left fun heq => hkey heq.symm
      have hcontents : ¬(g.contents).1 = f.fullName := hkey
      rw [addToGroups, if_neg (by simpa using hkey), List.map_cons, List.map_cons, List.map_cons,
        if_neg hcontents, ih hnodup.2 hmem']

/-- A fragment of a class without a group opens one at the end. -/
theorem addToGroups_of_not_mem {f : Fragment} {groups : List Group}
    (hnew : f.fullName ∉ groups.map Group.key) :
    addToGroups f groups = groups ++ [⟨f.fullName, f, []⟩] := by
  induction groups with
  | nil => rfl
  | cons g rest ih =>
    rw [List.map_cons, List.mem_cons, not_or] at hnew
    have hkey : ¬(g.key == f.fullName) = true := by simpa using Ne.symm hnew.1
    rw [addToGroups, if_neg hkey, ih hnew.2, List.cons_append]

/-! ## All groups -/

/-- The full names of the classes, in order of first appearance. -/
def classNames (fragments : List Fragment) : List String :=
  (fragments.map Fragment.fullName).eraseDups

/-- The fragments of a class, without those that repeat an earlier one in all but the using
aliases. -/
def reportsOf (name : String) (fragments : List Fragment) : List Fragment :=
  (fragments.filter fun f => f.fullName == name).eraseDupsBy Fragment.sameReport

/-- The reports of a class are fragments of its full name. -/
theorem mem_reportsOf {name : String} {fragments : List Fragment} {f : Fragment}
    (h : f ∈ reportsOf name fragments) : f ∈ fragments ∧ f.fullName = name := by
  obtain ⟨hmem, hname⟩ := List.mem_filter.mp (mem_of_mem_eraseDupsBy h)
  exact ⟨hmem, beq_iff_eq.mp hname⟩

theorem sameReport_self (f : Fragment) : f.sameReport f = true := by
  simp [Fragment.sameReport]

/-- Every fragment is reported in the group of its class. -/
theorem exists_report {fragments : List Fragment} {f : Fragment} (hf : f ∈ fragments) :
    ∃ report ∈ reportsOf f.fullName fragments, f.sameReport report = true :=
  exists_mem_eraseDupsBy sameReport_self (List.mem_filter.mpr ⟨hf, beq_self_eq_true _⟩)

/-- A class that has a name has a report. -/
theorem exists_reportsOf_eq_cons {name : String} {fragments : List Fragment}
    (h : name ∈ classNames fragments) : ∃ first more, reportsOf name fragments = first :: more := by
  rw [classNames, List.mem_eraseDups] at h
  obtain ⟨f, hf, rfl⟩ := List.mem_map.mp h
  obtain ⟨report, hreport, -⟩ := exists_report hf
  exact List.exists_cons_of_ne_nil (List.ne_nil_of_mem hreport)

theorem group_concat (fragments : List Fragment) (f : Fragment) :
    group (fragments ++ [f]) = addToGroups f (group fragments) := by
  simp [group, List.foldl_append]

theorem classNames_concat (fragments : List Fragment) (f : Fragment) :
    classNames (fragments ++ [f]) =
      if f.fullName ∈ classNames fragments then classNames fragments
      else classNames fragments ++ [f.fullName] := by
  have hany : ((fragments.map Fragment.fullName).eraseDups.any (f.fullName == ·)) = true ↔
      f.fullName ∈ classNames fragments := by
    simp [classNames, List.any_eq_true]
  rw [classNames, List.map_append, List.map_cons, List.map_nil, List.eraseDups,
    eraseDupsBy_concat]
  exact if_congr hany rfl rfl

theorem reportsOf_concat_self (fragments : List Fragment) (f : Fragment) :
    reportsOf f.fullName (fragments ++ [f]) = addReport f (reportsOf f.fullName fragments) := by
  have hkept : [f].filter (fun g => g.fullName == f.fullName) = [f] := by simp
  rw [reportsOf, List.filter_append, hkept, eraseDupsBy_concat]
  rfl

theorem reportsOf_concat_of_ne {name : String} {fragments : List Fragment} {f : Fragment}
    (hne : f.fullName ≠ name) : reportsOf name (fragments ++ [f]) = reportsOf name fragments := by
  have hdropped : [f].filter (fun g => g.fullName == name) = [] := by simp [hne]
  rw [reportsOf, List.filter_append, hdropped, List.append_nil]
  rfl

theorem reportsOf_of_not_mem {name : String} {fragments : List Fragment}
    (hnew : name ∉ classNames fragments) : reportsOf name fragments = [] := by
  have hnone : fragments.filter (fun f => f.fullName == name) = [] := by
    rw [List.filter_eq_nil_iff]
    intro f hf heq
    apply hnew
    rw [classNames, List.mem_eraseDups, ← beq_iff_eq.mp heq]
    exact List.mem_map_of_mem hf
  rw [reportsOf, hnone]
  rfl

/-- There is one group for each class, in order of first appearance, with the reports of the
class. -/
theorem group_eq (fragments : List Fragment) :
    (group fragments).map Group.contents =
      (classNames fragments).map fun name => (name, reportsOf name fragments) := by
  induction fragments using List.reverseRecOn with
  | nil => rfl
  | append_singleton fragments f ih =>
    have hkeys : (group fragments).map Group.key = classNames fragments := by
      have hfst := congrArg (List.map Prod.fst) ih
      simpa [List.map_map, Function.comp_def, Group.contents] using hfst
    rw [group_concat, classNames_concat]
    by_cases hmem : f.fullName ∈ classNames fragments
    · have hnodup : ((group fragments).map Group.key).Nodup := by
        rw [hkeys]
        exact nodup_eraseDups _
      rw [if_pos hmem, addToGroups_of_mem hnodup (hkeys ▸ hmem), ih, List.map_map]
      apply List.map_congr_left
      intro name _
      by_cases hname : name = f.fullName
      · subst hname
        simp [reportsOf_concat_self]
      · simp [hname, reportsOf_concat_of_ne (Ne.symm hname)]
    · rw [if_neg hmem, addToGroups_of_not_mem (hkeys ▸ hmem), List.map_append, List.map_append, ih]
      congr 1
      · apply List.map_congr_left
        intro name hname
        have hne : f.fullName ≠ name := fun heq => hmem (heq ▸ hname)
        rw [reportsOf_concat_of_ne hne]
      · have hreports : reportsOf f.fullName (fragments ++ [f]) = [f] := by
          rw [reportsOf_concat_self, reportsOf_of_not_mem hmem]
          rfl
        simp [hreports, Group.contents, Group.fragments]

/-- What a group holds has been reported. -/
theorem mem_of_mem_group {fragments : List Fragment} {g : Group} {f : Fragment}
    (hgroup : g ∈ group fragments) (hmem : f ∈ g.fragments) : f ∈ fragments := by
  have hcontents : g.contents ∈ (group fragments).map Group.contents :=
    List.mem_map_of_mem hgroup
  rw [group_eq] at hcontents
  obtain ⟨name, _, heq⟩ := List.mem_map.mp hcontents
  have hreports : reportsOf name fragments = g.fragments := congrArg Prod.snd heq
  rw [← hreports] at hmem
  exact (mem_reportsOf hmem).1

end Backfield.Scan

import Backfield.Proofs.Scan.Outcomes

/-!
# Repeated reports

A declaration that is reported again, under another path, changes nothing.  A repeated report
under the same path is dropped when the fragments are grouped.  One under another path is kept,
but leaves no trace in the class.

* `IsCopy` says that one fragment repeats another, `AliasesAgree` that no declaration is reported
  with two sets of aliases.
* `propertiesFrom_insert` is the argument for the loop over the fields: a field of a copy is
  *settled* when its turn comes, since the loop has seen the field that it repeats.
* `describe_insert` says so of a class, and `describe_eraseDupsBy` that dropping the repeats under
  one path has no effect either.
* `outcome_scan_insert` is the result.
-/

namespace Backfield

/-- The two maps have the same entries, in whatever order. -/
structure Aliases.SameEntries (a b : Aliases) : Prop where
  entries : ∀ entry, entry ∈ a ↔ entry ∈ b
  targets : ∀ name, a.target? name = b.target? name

namespace Aliases.SameEntries

theorem refl (a : Aliases) : a.SameEntries a := ⟨fun _ => Iff.rfl, fun _ => rfl⟩

theorem symm {a b : Aliases} (h : a.SameEntries b) : b.SameEntries a :=
  ⟨fun entry => (h.entries entry).symm, fun name => (h.targets name).symm⟩

theorem trans {a b c : Aliases} (h : a.SameEntries b) (h' : b.SameEntries c) : a.SameEntries c :=
  ⟨fun entry => (h.entries entry).trans (h'.entries entry),
    fun name => (h.targets name).trans (h'.targets name)⟩

/-- If no alias stands twice, the order does not matter. -/
theorem of_perm {a b : Aliases} (hkeys : (a.map Prod.fst).Nodup) (h : a.Perm b) :
    a.SameEntries b := by
  refine ⟨fun entry => h.mem_iff, fun name => ?_⟩
  induction h with
  | nil => rfl
  | cons entry _ ih =>
    obtain ⟨key, target⟩ := entry
    rw [List.map_cons, List.nodup_cons] at hkeys
    have hrest := ih hkeys.2
    simp only [target?, List.lookup_cons] at hrest ⊢
    rw [hrest]
  | swap first second rest =>
    obtain ⟨key, target⟩ := first
    obtain ⟨other, target'⟩ := second
    have hne : other ≠ key := fun heq => by simp [heq] at hkeys
    simp only [target?, List.lookup_cons]
    by_cases hother : name = other
    · rw [beq_iff_eq.mpr hother, beq_eq_false_iff_ne.mpr (hother ▸ hne)]
    · rw [beq_eq_false_iff_ne.mpr hother]
  | trans hab _ ihab ihbc =>
    exact (ihab hkeys).trans (ihbc ((hab.map Prod.fst).nodup_iff.mp hkeys))

end Aliases.SameEntries

namespace Fragment

/-- The two fragments agree on all but the path and the aliases. -/
structure SameDeclaration (f g : Fragment) : Prop where
  name : f.name = g.name
  space : f.space = g.space
  containers : f.containers = g.containers
  typeParameters : f.typeParameters = g.typeParameters
  accessibility : f.accessibility = g.accessibility
  fields : f.fields = g.fields
  usings : f.usings = g.usings

/-- The fragment repeats the other one, apart from the path. -/
structure IsCopy (f g : Fragment) : Prop where
  declaration : f.SameDeclaration g
  aliases : f.aliases.SameEntries g.aliases

namespace SameDeclaration

variable {f g h : Fragment}

theorem symm (hfg : f.SameDeclaration g) : g.SameDeclaration f :=
  ⟨hfg.name.symm, hfg.space.symm, hfg.containers.symm, hfg.typeParameters.symm,
    hfg.accessibility.symm, hfg.fields.symm, hfg.usings.symm⟩

theorem trans (hfg : f.SameDeclaration g) (hgh : g.SameDeclaration h) : f.SameDeclaration h :=
  ⟨hfg.name.trans hgh.name, hfg.space.trans hgh.space, hfg.containers.trans hgh.containers,
    hfg.typeParameters.trans hgh.typeParameters, hfg.accessibility.trans hgh.accessibility,
    hfg.fields.trans hgh.fields, hfg.usings.trans hgh.usings⟩

theorem fullName (hfg : f.SameDeclaration g) : f.fullName = g.fullName := by
  rw [Fragment.fullName, Fragment.fullName, hfg.name, hfg.space, hfg.containers,
    hfg.typeParameters]

end SameDeclaration

theorem sameDeclaration_of_sameReport {f g : Fragment} (h : f.sameReport g = true) :
    f.SameDeclaration g := by
  have heq : { f with aliases := [] } = { g with aliases := [] } := of_decide_eq_true h
  obtain ⟨hname, hspace, hcontainers, hparameters, haccess, hfields, husings, -, -⟩ :=
    Fragment.mk.inj heq
  exact ⟨hname, hspace, hcontainers, hparameters, haccess, hfields, husings⟩

theorem IsCopy.refl (f : Fragment) : f.IsCopy f :=
  ⟨⟨rfl, rfl, rfl, rfl, rfl, rfl, rfl⟩, Aliases.SameEntries.refl _⟩

end Fragment

namespace Scan

variable {known : KnownTypes} {marker : Value} {accessibility : Accessibility}

/-- Reports of one declaration have the same aliases. -/
def AliasesAgree (fragments : List Fragment) : Prop :=
  ∀ f ∈ fragments, ∀ g ∈ fragments, f.SameDeclaration g → f.aliases.SameEntries g.aliases

theorem AliasesAgree.sublist {fragments fewer : List Fragment} (h : AliasesAgree fragments)
    (hfewer : fewer.Sublist fragments) : AliasesAgree fewer :=
  fun f hf g hg => h f (hfewer.subset hf) g (hfewer.subset hg)

/-- Copies bring no new aliases. -/
theorem AliasesAgree.insert {front copies back : List Fragment} (h : AliasesAgree (front ++ back))
    (hcopies : ∀ copy ∈ copies, ∃ f ∈ front, copy.IsCopy f) :
    AliasesAgree (front ++ (copies ++ back)) := by
  have horiginal : ∀ f ∈ front ++ (copies ++ back), ∃ g ∈ front ++ back, f.IsCopy g := by
    intro f hf
    rcases List.mem_append.mp hf with hfront | hf
    · exact ⟨f, List.mem_append_left _ hfront, Fragment.IsCopy.refl f⟩
    · rcases List.mem_append.mp hf with hcopy | hback
      · obtain ⟨g, hg, hcopy⟩ := hcopies f hcopy
        exact ⟨g, List.mem_append_left _ hg, hcopy⟩
      · exact ⟨f, List.mem_append_right _ hback, Fragment.IsCopy.refl f⟩
  intro f hf g hg hsame
  obtain ⟨f', hf', hcopy⟩ := horiginal f hf
  obtain ⟨g', hg', hcopy'⟩ := horiginal g hg
  have hsame' := (hcopy.declaration.symm.trans hsame).trans hcopy'.declaration
  exact (hcopy.aliases.trans (h f' hf' g' hg' hsame')).trans hcopy'.aliases.symm

/-! ## Lists with repeats -/

/-- What has been there before is dropped. -/
theorem eraseDups_insert {front copies : List String} (back : List String)
    (h : ∀ x ∈ copies, x ∈ front) :
    (front ++ (copies ++ back)).eraseDups = (front ++ back).eraseDups := by
  have hnone : copies.removeAll front = [] := by
    rw [List.removeAll, List.filter_eq_nil_iff]
    intro x hx
    simpa using h x hx
  have hremoved : (copies ++ back).removeAll front = back.removeAll front := by
    rw [List.removeAll, List.filter_append]
    exact (congrArg (· ++ _) hnone).trans (List.nil_append _)
  rw [List.eraseDups_append, List.eraseDups_append, hremoved]

/-- The first that is found is not found later. -/
theorem findSome?_insert {α β : Type} {find : α → Option β} {front : List α} {x : α}
    (back : List α) (h : ∃ y ∈ front, find x = find y) :
    (front ++ x :: back).findSome? find = (front ++ back).findSome? find := by
  rw [List.findSome?_append, List.findSome?_append]
  cases hfront : front.findSome? find with
  | some b => rfl
  | none =>
    obtain ⟨y, hy, hxy⟩ := h
    have hx : find x = none := hxy.trans (List.findSome?_eq_none_iff.mp hfront y hy)
    rw [List.findSome?_cons, hx]

/-! ## The fields of a copy -/

theorem bindAttribute?_of_isCopy {f g : Fragment} (h : f.IsCopy g) (written : String) :
    Binding.bindAttribute? known f written = Binding.bindAttribute? known g written := by
  have hbind : ∀ isGlobal name,
      Binding.bindName? known f isGlobal name = Binding.bindName? known g isGlobal name := by
    intro isGlobal name
    simp only [Binding.bindName?, h.aliases.targets, h.declaration.space, h.declaration.usings]
  simp only [Binding.bindAttribute?, hbind]

theorem marksOfValue_of_isCopy {f g : Fragment} (h : f.IsCopy g) (field : Field) :
    marksOfValue known marker f field = marksOfValue known marker g field := by
  simp only [marksOfValue, bindAttribute?_of_isCopy h]

theorem decision_of_isCopy {f g : Fragment} (h : f.IsCopy g) (field : Field) :
    decision known marker accessibility (f, field) =
      decision known marker accessibility (g, field) := by
  simp only [decision, marksOfValue_of_isCopy h]

/-- The loop passes the field over: its name has been seen, or it gets no property. -/
def Settled (known : KnownTypes) (marker : Value) (accessibility : Accessibility)
    (seen : List String) (entry : Fragment × Field) : Prop :=
  entry.2.name ∈ seen ∨ decision known marker accessibility entry = .ok none

theorem Settled.cons {seen : List String} {entry : Fragment × Field} (name : String)
    (h : Settled known marker accessibility seen entry) :
    Settled known marker accessibility (name :: seen) entry :=
  h.imp_left (List.mem_cons_of_mem _)

/-- The field has the name of the other one and is decided like it. -/
def Repeats (known : KnownTypes) (marker : Value) (accessibility : Accessibility)
    (entry other : Fragment × Field) : Prop :=
  entry.2.name = other.2.name ∧
    decision known marker accessibility entry = decision known marker accessibility other

theorem propertiesFrom_settled {className : String} {seen : List String}
    {copies : List (Fragment × Field)} (back : List (Fragment × Field))
    (h : ∀ entry ∈ copies, Settled known marker accessibility seen entry) :
    (propertiesFrom known marker className accessibility seen (copies ++ back)).outcome =
      (propertiesFrom known marker className accessibility seen back).outcome := by
  induction copies with
  | nil => rfl
  | cons entry rest ih =>
    rw [List.cons_append, outcome_propertiesFrom_cons,
      ih fun other hother => h other (List.mem_cons_of_mem _ hother)]
    rcases h entry List.mem_cons_self with hseen | hnone
    · rw [if_pos hseen]
    · rw [hnone]
      exact ite_self _

/-- Fields that repeat others do not matter.  When the loop comes to them, each is settled, or
the field that it repeats is still ahead: every step keeps this, and at the end of the front
nothing is ahead. -/
theorem propertiesFrom_insert {className : String} {seen : List String}
    {front copies : List (Fragment × Field)} (back : List (Fragment × Field))
    (h : ∀ entry ∈ copies, Settled known marker accessibility seen entry ∨
      ∃ other ∈ front, Repeats known marker accessibility entry other) :
    (propertiesFrom known marker className accessibility seen
        (front ++ (copies ++ back))).outcome =
      (propertiesFrom known marker className accessibility seen (front ++ back)).outcome := by
  induction front generalizing seen with
  | nil =>
    refine propertiesFrom_settled back fun entry hentry => ?_
    rcases h entry hentry with hsettled | ⟨other, hother, -⟩
    · exact hsettled
    · cases hother
  | cons first rest ih =>
    -- The step settles what repeats the first field, and the rest is as before.
    have hstep : ∀ {seen' : List String},
        (∀ entry, Settled known marker accessibility seen entry →
          Settled known marker accessibility seen' entry) →
        (∀ entry, Repeats known marker accessibility entry first →
          Settled known marker accessibility seen' entry) →
        (propertiesFrom known marker className accessibility seen'
            (rest ++ (copies ++ back))).outcome =
          (propertiesFrom known marker className accessibility seen' (rest ++ back)).outcome := by
      intro seen' hmono hfirst
      refine ih fun entry hentry => ?_
      rcases h entry hentry with hsettled | ⟨other, hother, hrepeats⟩
      · exact Or.inl (hmono entry hsettled)
      · rcases List.mem_cons.mp hother with rfl | hother
        · exact Or.inl (hfirst entry hrepeats)
        · exact Or.inr ⟨other, hother, hrepeats⟩
    rw [List.cons_append, List.cons_append, outcome_propertiesFrom_cons,
      outcome_propertiesFrom_cons]
    by_cases hseen : first.2.name ∈ seen
    · rw [if_pos hseen, if_pos hseen]
      exact hstep (fun _ => id) fun entry hrepeats => Or.inl (hrepeats.1 ▸ hseen)
    · rw [if_neg hseen, if_neg hseen]
      cases hdecision : decision known marker accessibility first with
      | error e => rfl
      | ok found =>
        cases found with
        | none =>
          exact hstep (fun _ => id) fun entry hrepeats => Or.inr (hrepeats.2.trans hdecision)
        | some p =>
          have hrest := @hstep (first.2.name :: seen) (fun _ hsettled => hsettled.cons _)
            fun entry hrepeats => Or.inl (hrepeats.1 ▸ List.mem_cons_self)
          simp only [Except.bind, hrest]

/-! ## The class of a copy -/

theorem fieldsOf_append (front back : List Fragment) :
    fieldsOf (front ++ back) = fieldsOf front ++ fieldsOf back := List.flatMap_append

theorem fieldsOf_cons (f : Fragment) (rest : List Fragment) :
    fieldsOf (f :: rest) = f.fields.map (fun field => (f, field)) ++ fieldsOf rest :=
  List.flatMap_cons

/-- The aliases of the fragments, as they stand in using directives. -/
def aliasTexts (f : Fragment) : List String := f.aliases.map fun a => a.1 ++ " = " ++ a.2

theorem usingsOf_eq (fragments : List Fragment) :
    usingsOf fragments =
      (fragments.flatMap (·.usings) ++ fragments.flatMap aliasTexts).eraseDups := rfl

/-- Reports that name nothing new leave the using directives as they are. -/
theorem usingsOf_insert_of_subset {front more : List Fragment} (back : List Fragment)
    (hplain : more.flatMap (·.usings) ⊆ front.flatMap (·.usings))
    (haliases : more.flatMap aliasTexts ⊆ front.flatMap aliasTexts) :
    usingsOf (front ++ (more ++ back)) = usingsOf (front ++ back) := by
  rw [usingsOf_eq, usingsOf_eq]
  simp only [List.flatMap_append, List.append_assoc]
  rw [eraseDups_insert _ fun _ hname => hplain hname]
  have hahead : ∀ text ∈ more.flatMap aliasTexts,
      text ∈ front.flatMap (·.usings) ++ (back.flatMap (·.usings) ++ front.flatMap aliasTexts) :=
    fun text htext => List.mem_append_right _ (List.mem_append_right _ (haliases htext))
  have hdrop := eraseDups_insert (back.flatMap aliasTexts) hahead
  simpa only [List.append_assoc] using hdrop

theorem usingsOf_insert {front : List Fragment} {copy : Fragment} (back : List Fragment)
    (hcopy : ∃ f ∈ front, copy.IsCopy f) :
    usingsOf (front ++ copy :: back) = usingsOf (front ++ back) := by
  obtain ⟨f, hf, hcopy⟩ := hcopy
  have hinsert := @usingsOf_insert_of_subset front [copy] back
  refine hinsert (fun name hname => ?_) fun text htext => ?_
  · rw [List.flatMap_singleton, hcopy.declaration.usings] at hname
    exact List.mem_flatMap.mpr ⟨f, hf, hname⟩
  · rw [List.flatMap_singleton] at htext
    obtain ⟨entry, hentry, rfl⟩ := List.mem_map.mp htext
    exact List.mem_flatMap.mpr
      ⟨f, hf, List.mem_map_of_mem ((hcopy.aliases.entries entry).mp hentry)⟩

/-- A copy of an earlier report leaves no trace. -/
theorem describe_insert {front : List Fragment} {copy : Fragment} (back : List Fragment)
    (hcopy : ∃ f ∈ front, copy.IsCopy f) :
    describe known marker (front ++ copy :: back) = describe known marker (front ++ back) := by
  cases front with
  | nil =>
    obtain ⟨f, hf, -⟩ := hcopy
    cases hf
  | cons first more =>
    have haccess : accessibilityOf first (more ++ copy :: back) =
        accessibilityOf first (more ++ back) := by
      have hfind := @findSome?_insert _ _ (fun f : Fragment => f.accessibility) (first :: more) copy
        back
        (hcopy.imp fun f hf => ⟨hf.1, hf.2.declaration.accessibility⟩)
      rw [List.cons_append, List.cons_append] at hfind
      rw [accessibilityOf, accessibilityOf, hfind]
    have husings := usingsOf_insert back hcopy
    rw [List.cons_append, List.cons_append] at husings
    have hloop : ∀ accessibility, (propertiesFrom known marker first.fullName accessibility []
          (fieldsOf (first :: more ++ copy :: back))).outcome =
        (propertiesFrom known marker first.fullName accessibility []
          (fieldsOf (first :: more ++ back))).outcome := by
      intro accessibility
      rw [fieldsOf_append, fieldsOf_append, fieldsOf_cons copy]
      refine propertiesFrom_insert _ fun entry hentry => Or.inr ?_
      obtain ⟨field, hfield, rfl⟩ := List.mem_map.mp hentry
      obtain ⟨f, hf, hcopy⟩ := hcopy
      refine ⟨(f, field), List.mem_flatMap.mpr ⟨f, hf, ?_⟩, rfl, decision_of_isCopy hcopy field⟩
      exact List.mem_map_of_mem (hcopy.declaration.fields ▸ hfield)
    simp only [List.cons_append] at hloop ⊢
    simp only [describe, outcome_classOf?_eq, Group.fragments, haccess, husings, hloop]

theorem describe_insert_copies {front copies : List Fragment} (back : List Fragment)
    (hcopies : ∀ copy ∈ copies, ∃ f ∈ front, copy.IsCopy f) :
    describe known marker (front ++ (copies ++ back)) = describe known marker (front ++ back) := by
  induction copies with
  | nil => rfl
  | cons copy rest ih =>
    rw [List.cons_append, describe_insert _ (hcopies copy List.mem_cons_self),
      ih fun other hother => hcopies other (List.mem_cons_of_mem _ hother)]

/-- Dropping the repeats of reports changes nothing, whatever follows them. -/
theorem describe_eraseDupsBy {fragments : List Fragment} (back : List Fragment)
    (hagree : AliasesAgree fragments) :
    describe known marker (fragments.eraseDupsBy Fragment.sameReport ++ back) =
      describe known marker (fragments ++ back) := by
  induction fragments using List.reverseRecOn generalizing back with
  | nil => rfl
  | append_singleton fragments f ih =>
    have hfewer := hagree.sublist (List.sublist_append_left fragments [f])
    rw [eraseDupsBy_concat, List.append_assoc, List.singleton_append, ← ih (f :: back) hfewer]
    split
    · rename_i hany
      obtain ⟨g, hg, hsame⟩ := List.any_eq_true.mp hany
      have hdeclaration := Fragment.sameDeclaration_of_sameReport hsame
      have hmem : g ∈ fragments ++ [f] := List.mem_append_left _ (mem_of_mem_eraseDupsBy hg)
      have haliases := hagree f (List.mem_append_right _ (List.mem_singleton_self f)) g hmem
        hdeclaration
      rw [describe_insert back ⟨g, hg, hdeclaration, haliases⟩]
    · rw [List.append_assoc, List.singleton_append]

theorem describe_reportsOf {fragments : List Fragment} (hagree : AliasesAgree fragments)
    (name : String) :
    describe known marker (reportsOf name fragments) =
      describe known marker (fragments.filter fun f => f.fullName == name) := by
  have herase := @describe_eraseDupsBy known marker _ []
    (hagree.sublist (List.filter_sublist (p := fun f => f.fullName == name)))
  rwa [List.append_nil, List.append_nil] at herase

/-! ## Scans -/

/-- Copies of earlier fragments do not change what a scan ends with. -/
theorem outcome_scan_insert {settings : Settings} {front copies back : List Fragment}
    (hagree : AliasesAgree (front ++ back))
    (hcopies : ∀ copy ∈ copies, ∃ f ∈ front, copy.IsCopy f) :
    (scan settings known (front ++ (copies ++ back))).outcome =
      (scan settings known (front ++ back)).outcome := by
  have hnames : classNames (front ++ (copies ++ back)) = classNames (front ++ back) := by
    rw [classNames, classNames, List.map_append, List.map_append, List.map_append]
    refine eraseDups_insert _ fun name hname => ?_
    obtain ⟨copy, hcopy, rfl⟩ := List.mem_map.mp hname
    obtain ⟨f, hf, hof⟩ := hcopies copy hcopy
    exact hof.declaration.fullName ▸ List.mem_map_of_mem hf
  have hdescribe : ∀ marker name,
      describe known marker (reportsOf name (front ++ (copies ++ back))) =
        describe known marker (reportsOf name (front ++ back)) := by
    intro marker name
    rw [describe_reportsOf (hagree.insert hcopies), describe_reportsOf hagree, List.filter_append,
      List.filter_append, List.filter_append]
    refine describe_insert_copies _ fun copy hcopy => ?_
    obtain ⟨hmem, hname⟩ := List.mem_filter.mp hcopy
    obtain ⟨f, hf, hof⟩ := hcopies copy hmem
    exact ⟨f, List.mem_filter.mpr ⟨hf, hof.declaration.fullName ▸ hname⟩, hof⟩
  have hturn : ∀ marker, describeIn known marker (front ++ (copies ++ back)) =
      describeIn known marker (front ++ back) := by
    intro marker
    funext name
    rw [describeIn, describeIn, hdescribe]
  rw [outcome_scan_eq, outcome_scan_eq, hnames]
  simp only [hturn]

end Scan

end Backfield

import Backfield.Proofs.Batch.Merging
import Backfield.Proofs.Layout.Nesting
import Backfield.Proofs.Source.Identity
import Backfield.Proofs.Source.OneLine

/-!
# Types around a generated class

The artifact of a nested class opens blocks for the types around it.  Of these types only the
names are kept, and every block is that of a plain class.

* `reopening` is the declaration that would open a type again, and `openings` are those of all
  that is around a site.
* `reopening_eq_iff` says that the block of a plain class opens a type again exactly when the type
  is such a class.
* `render_reopens_iff` is the result for classes that are read from texts.
-/

namespace Backfield

open CSharp (Token TypeHead TypeKind)
open Layout (IsOneLine render renderInside render_eq_renderInside renderInside_inj
  spaceDeclarations)
open Source (TypeSite sitesIn OpensAngle isWordText_of_mem_sitesIn exists_declares_of_mem
  readIn_of_mem_fragmentsIn)

namespace CSharp

/-- The word that declares a type of the kind. -/
def TypeKind.keyword : TypeKind → String
  | isClass => "class"
  | isStruct => "struct"
  | isInterface => "interface"
  | isRecord => "record"
  | isEnum => "enum"
  | isDelegate => "delegate"

namespace TypeHead

/-- What declares another part of the type: its kind, its name and its list of type parameters. -/
def reopening (head : TypeHead) : String :=
  "partial " ++ head.kind.keyword ++ " " ++ head.name ++ Text.collapse head.typeParameters

/-- The type is a class and not generic. -/
def IsPlainClass (head : TypeHead) : Prop := head.kind = .isClass ∧ head.typeParameters = ""

end TypeHead

end CSharp

/-- What opens the blocks around the site, the namespace first. -/
def Source.TypeSite.openings (site : TypeSite) : List String :=
  spaceDeclarations site.space ++ site.around.map TypeHead.reopening

/-! ## The block of a plain class -/

namespace Source

/-- The keyword of a class is told by its first letter. -/
theorem isClass_of_keyword {kind : TypeKind} {front back : String}
    (h : "partial class " ++ front = "partial " ++ kind.keyword ++ " " ++ back) :
    kind = .isClass := by
  have hletter := congrArg (fun text : String => text.toList[8]?) h
  cases kind with
  | isClass => rfl
  | _ => simp [TypeKind.keyword] at hletter

/-- The block of a plain class opens a type again exactly when the type is such a class. -/
theorem reopening_eq_iff {head : TypeHead} {name : String} (hname : Token.IsWordText name)
    (hhead : Token.IsWordText head.name) (hlist : OpensAngle head.typeParameters) :
    "partial class " ++ name = head.reopening ↔ name = head.name ∧ head.IsPlainClass := by
  have hangle : ∀ {word : String}, Token.IsWordText word → '<' ∉ word.toList :=
    fun hword hmem => absurd (hword.2 '<' hmem) (by decide)
  have hclass : ∀ text : String, "partial " ++ TypeKind.isClass.keyword ++ " " ++ text =
      "partial class " ++ text := fun text => by
    rw [← String.toList_inj]
    simp [TypeKind.keyword]
  constructor
  · intro h
    rw [TypeHead.reopening, String.append_assoc] at h
    have hkind := isClass_of_keyword h
    rw [hkind, hclass, String.append_right_inj] at h
    have hsplit : name ++ "" = head.name ++ Text.collapse head.typeParameters := by
      rw [String.append_empty]
      exact h
    obtain ⟨hnames, hempty⟩ := append_opensAngle_inj (hangle hname) (hangle hhead) (Or.inl rfl)
      (opensAngle_collapse hlist) hsplit
    exact ⟨hnames, hkind, (collapse_eq_empty_iff_of_opensAngle hlist).mp hempty.symm⟩
  · rintro ⟨rfl, hkind, hempty⟩
    have hcollapsed : Text.collapse "" = "" := rfl
    rw [TypeHead.reopening, hkind, hempty, hcollapsed, String.append_empty, hclass]

theorem map_reopening_eq_iff {around : List TypeHead} {names : List String}
    (hnames : ∀ name ∈ names, Token.IsWordText name)
    (haround : ∀ head ∈ around, Token.IsWordText head.name ∧ OpensAngle head.typeParameters) :
    names.map ("partial class " ++ ·) = around.map TypeHead.reopening ↔
      names = around.map TypeHead.name ∧ ∀ head ∈ around, head.IsPlainClass := by
  induction around generalizing names with
  | nil => simp
  | cons head rest ih =>
    cases names with
    | nil => simp
    | cons name names =>
      obtain ⟨hword, hlist⟩ := haround head List.mem_cons_self
      have hrest := ih (fun other hother => hnames other (List.mem_cons_of_mem _ hother))
        fun other hother => haround other (List.mem_cons_of_mem _ hother)
      rw [List.map_cons, List.map_cons, List.cons.injEq, hrest, List.map_cons, List.cons.injEq,
        List.forall_mem_cons, reopening_eq_iff (hnames name List.mem_cons_self) hword hlist]
      tauto

/-- The declaration of a namespace can be told from those of types. -/
theorem spaceDeclarations_append_inj {space space' : String} {types types' : List String}
    (htypes : ∀ line ∈ types, line.toList.head? = some 'p')
    (htypes' : ∀ line ∈ types', line.toList.head? = some 'p') :
    spaceDeclarations space ++ types = spaceDeclarations space' ++ types' ↔
      space = space' ∧ types = types' := by
  have hletter : ∀ name : String, ("namespace " ++ name).toList.head? = some 'n' := by simp
  have hspace : ∀ {name : String} {types : List String},
      (∀ line ∈ types, line.toList.head? = some 'p') → "namespace " ++ name ∉ types := by
    intro name types htypes hmem
    have hp := htypes _ hmem
    rw [hletter] at hp
    cases hp
  refine ⟨fun h => ?_, fun h => by rw [h.1, h.2]⟩
  unfold spaceDeclarations at h
  split at h
  · rename_i hempty
    split at h
    · rename_i hempty'
      exact ⟨(beq_iff_eq.mp hempty).trans (beq_iff_eq.mp hempty').symm, h⟩
    · have hmem : "namespace " ++ space' ∈ types := by
        rw [List.nil_append] at h
        rw [h]
        exact List.mem_append_left _ (List.mem_singleton_self _)
      exact absurd hmem (hspace htypes)
  · split at h
    · have hmem : "namespace " ++ space ∈ types' := by
        rw [List.nil_append] at h
        rw [← h]
        exact List.mem_append_left _ (List.mem_singleton_self _)
      exact absurd hmem (hspace htypes')
    · obtain ⟨hname, htypes⟩ := List.cons.inj h
      exact ⟨String.append_right_inj _ |>.mp hname, htypes⟩

end Source

/-! ## Declarations that are one line -/

namespace Layout

theorem isOneLine_reopening {head : TypeHead} (hname : Text.IsUnbroken head.name.toList) :
    IsOneLine head.reopening := by
  have hkind : IsOneLine ("partial " ++ head.kind.keyword ++ " ") := by
    cases head.kind <;> exact ⟨by decide, Text.isUnbroken_of_all (by decide)⟩
  exact (hkind.append hname).append (Text.isUnbroken_collapse _)

end Layout

namespace Batch

variable {settings : Settings} {known : KnownTypes} {marker : String}

/-! ## Classes that are read -/

/-- What is known of a class that is read from texts. -/
structure IsRead (c : ReactiveClass) : Prop where
  name : Token.IsWordText c.name
  space : Text.IsUnbroken c.space.toList
  containers : ∀ name ∈ c.containers, Token.IsWordText name
  typeParameters : Text.IsUnbroken c.typeParameters.toList

theorem isRead_of_isClassOf {sources : List (String × String)} {f : Fragment} {c : ReactiveClass}
    (hf : f ∈ fragmentsOf sources) (hc : IsClassOf f c) : IsRead c := by
  obtain ⟨source, -, hf⟩ := List.mem_flatMap.mp hf
  have hread := readIn_of_mem_fragmentsIn hf
  obtain ⟨list, -, -, hlist⟩ := hread.parameters
  obtain ⟨site, hsite, -, _, scope, body, hof, hspace, -⟩ := exists_declares_of_mem hf
  have hsame : f.space = site.space := by rw [hof, ← hspace]; rfl
  exact {
    name := hc.name ▸ hread.name
    space := by
      rw [hc.space, hsame]
      exact Source.isUnbroken_space_of_mem_sitesIn hsite
    containers := hc.containers ▸ hread.containers
    typeParameters := by
      rw [hc.typeParameters, hlist]
      exact Text.isUnbroken_collapse _ }

/-- The class is declared in the namespace of the site and inside types of the same names. -/
structure StandsAt (c : ReactiveClass) (site : TypeSite) : Prop where
  space : c.space = site.space
  containers : c.containers = site.around.map TypeHead.name

/-- The text of a class opens the types around a site again exactly when the class stands there
and all these types are plain classes. -/
theorem render_eq_openings_iff {c : ReactiveClass} {code : String} {site : TypeSite}
    (hc : IsRead c) (hsite : site ∈ sitesIn code) :
    render settings c = renderInside settings c site.openings ↔
      StandsAt c site ∧ ∀ head ∈ site.around, head.IsPlainClass := by
  have hheads : ∀ head ∈ site.around,
      Token.IsWordText head.name ∧ OpensAngle head.typeParameters := fun head hhead =>
    have hread := isWordText_of_mem_sitesIn hsite head (List.mem_cons_of_mem _ hhead)
    ⟨hread.1, Source.opensAngle_of_readFrom hread.2⟩
  have haround : ∀ line ∈ spaceDeclarations c.space ++ c.containers.map ("partial class " ++ ·),
      IsOneLine line := by
    intro line hline
    rcases List.mem_append.mp hline with hspace | hcontainer
    · exact Layout.isOneLine_of_mem_spaceDeclarations hc.space hspace
    · obtain ⟨name, hname, rfl⟩ := List.mem_map.mp hcontainer
      exact Layout.isOneLine_partialClass (hc.containers name hname).isUnbroken
  have hopenings : ∀ line ∈ site.openings, IsOneLine line := by
    intro line hline
    rcases List.mem_append.mp hline with hspace | htype
    · exact Layout.isOneLine_of_mem_spaceDeclarations
        (Source.isUnbroken_space_of_mem_sitesIn hsite) hspace
    · obtain ⟨head, hhead, rfl⟩ := List.mem_map.mp htype
      exact Layout.isOneLine_reopening (hheads head hhead).1.isUnbroken
  have hletter : ∀ line ∈ c.containers.map ("partial class " ++ ·),
      line.toList.head? = some 'p' := by
    intro line hline
    obtain ⟨name, -, rfl⟩ := List.mem_map.mp hline
    simp
  have hletter' : ∀ line ∈ site.around.map TypeHead.reopening,
      line.toList.head? = some 'p' := by
    intro line hline
    obtain ⟨head, -, rfl⟩ := List.mem_map.mp hline
    simp [TypeHead.reopening]
  rw [render_eq_renderInside, renderInside_inj
      (Layout.isOneLine_classDeclaration hc.name.isUnbroken hc.typeParameters) haround hopenings,
    TypeSite.openings, Source.spaceDeclarations_append_inj hletter hletter',
    Source.map_reopening_eq_iff hc.containers hheads, ← and_assoc]
  exact and_congr_left' ⟨fun h => ⟨h.1, h.2⟩, fun h => ⟨h.1, h.2⟩⟩

/-! ## Reopened types -/

/-- The text of a class opens the types around a declaration of it again exactly when they are all
plain classes.  A struct, an interface, a record or a generic class among them comes back as a
plain class of the same name.

Every class with a marked field is found, and it stands where the declaration does unless a
fragment of the same full name stands elsewhere. -/
theorem render_reopens_iff (settings : Settings) (known : KnownTypes)
    (sources : List (String × String)) {code : String} {site : TypeSite} {f : Fragment}
    (hmarker : settings.markerFullName = .text marker) (hsite : site ∈ sitesIn code)
    (hdeclares : site.Declares f) :
    ∃ classes, (Scan.scan settings known (fragmentsOf sources)).outcome = .ok classes ∧
      (marker ∈ known.names → IsReported (fragmentsOf sources) f → IsMarked known marker f →
        ∃ c ∈ classes, c.fullName = f.fullName ∧ HasFieldsOf known marker c f) ∧
      ∀ c ∈ classes, c.fullName = f.fullName →
        (∀ artifacts, (generate settings known (fragmentsOf sources) .never).outcome =
          .ok artifacts → artifactOf settings c ∈ artifacts) ∧
        (render settings c = renderInside settings c site.openings ↔
          StandsAt c site ∧ ∀ head ∈ site.around, head.IsPlainClass) ∧
        ((∀ g ∈ fragmentsOf sources, g.fullName = f.fullName →
          g.space = f.space ∧ g.containers = f.containers) → StandsAt c site) := by
  have hscan := @outcome_scan settings known marker _ hmarker (@name_ne_of_mem_fragmentsOf sources)
  refine ⟨_, hscan, ?_, fun c hc hname => ?_⟩
  · rintro hknown hreport ⟨field, hfield, hselected⟩
    obtain ⟨c, hc, hname, hfields⟩ := exists_class_of_selected hknown hreport hfield hselected
    exact ⟨c, hc, hname, hfields f hreport⟩
  · obtain ⟨g, hg, hof⟩ := exists_fragment_of_mem hc
    have hread := isRead_of_isClassOf hg hof
    refine ⟨fun artifacts hgenerate => ?_, render_eq_openings_iff hread hsite, fun hplace => ?_⟩
    · rw [outcome_generate_eq, hscan] at hgenerate
      rw [(artifactsOf_sublist hgenerate (List.Sublist.refl _)).1]
      exact List.mem_cons_of_mem _ (List.mem_map_of_mem hc)
    · obtain ⟨hspace, hcontainers⟩ := hplace g hg (hof.fullName.symm.trans hname)
      obtain ⟨path, scope, body, rfl, hscope, haround⟩ := hdeclares
      exact ⟨hof.space.trans (hspace.trans hscope),
        hof.containers.trans (hcontainers.trans haround)⟩

/-- A class inside a generic struct. -/
def structSource : String :=
  "using ReactiveObject.Generators; " ++
    "partial struct S<T> \x7b partial class C \x7b [ReactiveProperty] int _a; \x7d \x7d"

/-- What a scan makes of the class inside the struct. -/
def structClass : ReactiveClass where
  name := "C"
  space := ""
  fullName := "S.C"
  accessibility := .isPrivate
  properties := [⟨"_a", "A", .isPrivate, "int"⟩]
  containers := ["S"]
  usings := ["ReactiveObject.Generators"]

/-- The class comes back inside a class, and the type parameter is gone. -/
theorem render_structSource :
    (Scan.scan {} markerOnly (fragmentsOf [(structSource, "")])).outcome = .ok [structClass] ∧
      (∃ site ∈ sitesIn structSource, site.head.name = "C" ∧
        site.openings = ["partial struct S<T>"]) ∧
      render {} structClass = renderInside {} structClass ["partial class S"] ∧
      render {} structClass ≠ renderInside {} structClass ["partial struct S<T>"] := by
  let inner : TypeSite :=
    ⟨"", [⟨.isStruct, ["partial"], "S", "<T>"⟩], ⟨.isClass, ["partial"], "C", ""⟩⟩
  have hsite : inner ∈ sitesIn structSource := by decide +kernel
  have hopenings : inner.openings = ["partial struct S<T>"] := by decide +kernel
  have hread : IsRead structClass := {
    name := ⟨by decide, List.all_eq_true.mp (by decide +kernel)⟩
    space := Text.isUnbroken_of_all rfl
    containers := fun name hname => List.mem_singleton.mp hname ▸
      ⟨by decide, List.all_eq_true.mp (by decide +kernel)⟩
    typeParameters := Text.isUnbroken_of_all rfl }
  refine ⟨by decide +kernel, ⟨inner, hsite, rfl, hopenings⟩, rfl, fun hsame => ?_⟩
  rw [← hopenings, render_eq_openings_iff hread hsite] at hsame
  have hkind := (hsame.2 _ List.mem_cons_self).1
  cases hkind

/-- A class inside a plain class of a namespace. -/
def nestedSource : String :=
  "using ReactiveObject.Generators; namespace N; " ++
    "partial class A \x7b partial class C \x7b [ReactiveProperty] int _a; \x7d \x7d"

theorem render_reopens_iff_nestedSource :
    let site : TypeSite :=
      ⟨"N", [⟨.isClass, ["partial"], "A", ""⟩], ⟨.isClass, ["partial"], "C", ""⟩⟩
    let f : Fragment := {
      name := "C"
      space := "N"
      containers := ["A"]
      fields := [⟨"_a", some "int", ["ReactiveProperty"]⟩]
      usings := ["ReactiveObject.Generators"] }
    site ∈ sitesIn nestedSource ∧ site.Declares f ∧
      ∃ classes,
        (Scan.scan {} markerOnly (fragmentsOf [(nestedSource, "")])).outcome = .ok classes ∧
        ∃ c ∈ classes, c.fullName = f.fullName ∧
          render {} c = renderInside {} c ["namespace N", "partial class A"] := by
  intro site f
  have hsite : site ∈ sitesIn nestedSource := by decide +kernel
  have hdeclares : site.Declares f :=
    ⟨"", { space := "N", containers := ["A"], usings := ["ReactiveObject.Generators"] },
      [.field ⟨["ReactiveProperty"], some "int", ["_a"]⟩], by decide +kernel, rfl, rfl⟩
  let outer : Fragment := { name := "A", space := "N", usings := ["ReactiveObject.Generators"] }
  have hfragments : fragmentsOf [(nestedSource, "")] = [outer, f] := by decide +kernel
  obtain ⟨classes, hscan, hfound, hall⟩ := render_reopens_iff {} markerOnly [(nestedSource, "")] rfl
    hsite hdeclares
  rw [hfragments] at hfound hall
  have hmarked : IsMarked markerOnly "ReactiveObject.Generators.ReactivePropertyAttribute" f :=
    ⟨⟨"_a", some "int", ["ReactiveProperty"]⟩, List.mem_singleton_self _, by decide +kernel⟩
  have hreport : IsReported [outer, f] f := by
    rw [IsReported]
    decide +kernel
  obtain ⟨c, hc, hname, -⟩ := hfound (by decide) hreport hmarked
  obtain ⟨-, hiff, hplace⟩ := hall c hc hname
  have hopenings : site.openings = ["namespace N", "partial class A"] := by decide +kernel
  refine ⟨hsite, hdeclares, classes, hscan, c, hc, hname, ?_⟩
  refine hopenings ▸ hiff.mpr ⟨hplace ?_, ?_⟩
  · intro g hg hsame
    rcases List.mem_cons.mp hg with rfl | hg
    · exact absurd hsame (by decide)
    · rw [List.mem_singleton.mp hg]
      exact ⟨rfl, rfl⟩
  · intro head hhead
    rw [List.mem_singleton.mp hhead]
    exact ⟨rfl, rfl⟩

end Batch

end Backfield

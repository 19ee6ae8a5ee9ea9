import Backfield.Proofs.Batch.Names
import Backfield.Proofs.CSharp.Spelling
import Backfield.Proofs.Scan.Repeats

/-!
# Fragments of one partial class

Two declarations of a partial class are merged if they fall into one group.  The key of a group
holds the list of type parameters as written, so two spellings of one list may keep them apart.

* `oneGroup_iff` says when two fragments fall into one group: when their full names are equal.
* `exists_class_of_selected` says that the class of a group has the marked fields of all its
  reports.
* `IsPlainList` describes a list of type parameters of names and symbols with nothing but white
  space between them, and `typeParameters_inj` compares two spellings of one.
* `merged_iff_spacedAlike` is the result.
-/

namespace Backfield

open CSharp (Token)
open Scan (Group group classNames reportsOf mem_reportsOf exists_report classOfReports? isSelected
  exists_selectedFields qualifiedName)

/-! ## One group -/

namespace Scan

/-- Both fragments are in one of the groups, each itself or as an equal report. -/
def OneGroup (fragments : List Fragment) (f g : Fragment) : Prop :=
  ∃ found ∈ group fragments, (∃ report ∈ found.fragments, f.sameReport report = true) ∧
    ∃ report ∈ found.fragments, g.sameReport report = true

/-- The group of the class of a fragment. -/
theorem exists_group {fragments : List Fragment} {f : Fragment} (hf : f ∈ fragments) :
    ∃ found ∈ group fragments, found.contents = (f.fullName, reportsOf f.fullName fragments) := by
  have hname : f.fullName ∈ classNames fragments := by
    rw [classNames, List.mem_eraseDups]
    exact List.mem_map_of_mem hf
  have hcontents : (f.fullName, reportsOf f.fullName fragments) ∈
      (group fragments).map Group.contents := by
    rw [group_eq]
    exact List.mem_map_of_mem hname
  obtain ⟨found, hfound, heq⟩ := List.mem_map.mp hcontents
  exact ⟨found, hfound, heq⟩

/-- A group holds reports of one class. -/
theorem fullName_of_mem_group {fragments : List Fragment} {found : Group}
    (hfound : found ∈ group fragments) :
    ∀ report ∈ found.fragments, report.fullName = found.key := by
  have hcontents : found.contents ∈ (group fragments).map Group.contents :=
    List.mem_map_of_mem hfound
  rw [group_eq] at hcontents
  obtain ⟨name, -, heq⟩ := List.mem_map.mp hcontents
  have hkey : name = found.key := congrArg Prod.fst heq
  have hreports : reportsOf name fragments = found.fragments := congrArg Prod.snd heq
  intro report hreport
  rw [← hreports] at hreport
  have hmem := List.of_mem_filter (mem_of_mem_eraseDupsBy hreport)
  exact (beq_iff_eq.mp hmem).trans hkey

/-- Two fragments fall into one group exactly when their full names are equal. -/
theorem oneGroup_iff {fragments : List Fragment} {f g : Fragment} (hf : f ∈ fragments)
    (hg : g ∈ fragments) : OneGroup fragments f g ↔ f.fullName = g.fullName := by
  constructor
  · rintro ⟨found, hfound, ⟨report, hreport, hsame⟩, report', hreport', hsame'⟩
    have hname := (Fragment.sameDeclaration_of_sameReport hsame).fullName
    have hname' := (Fragment.sameDeclaration_of_sameReport hsame').fullName
    rw [hname, hname', fullName_of_mem_group hfound report hreport,
      fullName_of_mem_group hfound report' hreport']
  · intro hname
    obtain ⟨found, hfound, hcontents⟩ := exists_group hf
    have hreports : reportsOf f.fullName fragments = found.fragments :=
      (congrArg Prod.snd hcontents).symm
    refine ⟨found, hfound, ?_, ?_⟩
    · rw [← hreports]
      exact exists_report hf
    · rw [← hreports, hname]
      exact exists_report hg

end Scan

namespace Batch

variable {settings : Settings} {known : KnownTypes} {marker : String}

/-! ## The class of a group -/

/-- The class has the marked fields of the fragment. -/
def HasFieldsOf (known : KnownTypes) (marker : String) (c : ReactiveClass) (f : Fragment) : Prop :=
  ∀ field ∈ f.fields, isSelected known marker (f, field) = true →
    ∃ p ∈ c.properties, p.field = field.name

/-- A class has the marked fields of all reports that describe it. -/
theorem hasFieldsOf_of_classOfReports? {reports : List Fragment} {c : ReactiveClass}
    (hc : classOfReports? known marker reports = some c) :
    ∀ report ∈ reports, HasFieldsOf known marker c report := by
  intro report hreport field hfield hselected
  obtain ⟨entry, hentry, hname⟩ := exists_selectedFields hreport hfield hselected
  rw [Scan.properties_of_classOfReports? hc]
  exact ⟨_, List.mem_map_of_mem hentry, hname⟩

/-- The reports of a class with a marked field describe it with the marked fields of all of
them. -/
theorem exists_class_of_selected {fragments : List Fragment} {f : Fragment} {field : Field}
    (hknown : marker ∈ known.names) (hf : f ∈ reportsOf f.fullName fragments)
    (hfield : field ∈ f.fields) (hselected : isSelected known marker (f, field) = true) :
    ∃ c ∈ scannedClasses known marker fragments, c.fullName = f.fullName ∧
      ∀ report ∈ reportsOf f.fullName fragments, HasFieldsOf known marker c report := by
  have hname : f.fullName ∈ classNames fragments := by
    rw [classNames, List.mem_eraseDups]
    exact List.mem_map_of_mem (mem_reportsOf hf).1
  obtain ⟨entry, hentry, -⟩ := exists_selectedFields hf hfield hselected
  obtain ⟨c, hc⟩ := Scan.exists_classOfReports? (List.ne_nil_of_mem hentry)
  obtain ⟨report, hreport, hof⟩ := isClassOf_classOfReports? hc
  rw [scannedClasses, if_pos hknown]
  refine ⟨c, List.mem_filterMap.mpr ⟨f.fullName, hname, hc⟩, ?_,
    hasFieldsOf_of_classOfReports? hc⟩
  rw [hof.fullName, (mem_reportsOf hreport).2]

/-! ## Two spellings of one list -/

open CSharp.Lexeme (IsPlainKind)

/-- The list of type parameters of the fragment is written with these tokens of the text.  They
are words and symbols, no two words in a row, with nothing but white space between them. -/
structure IsPlainList (code : String) (f : Fragment) (list : List Token) : Prop where
  sublist : list.Sublist (Token.ofText code).tokens
  text : f.typeParameters = Text.collapse (Token.slice list)
  kinds : ∀ t ∈ list, IsPlainKind t.kind
  apart : list.IsChain fun a b => a.kind = .symbol ∨ b.kind = .symbol
  gaps : ∀ t ∈ list.tail, t.gap.toList.all Text.isBlank = true

variable {code code' : String} {f g : Fragment} {list others : List Token}

theorem IsPlainList.hasInk (h : IsPlainList code f list) : ∀ t ∈ list, t.HasInk := fun t ht =>
  Token.hasInk_of_mem_ofText (h.sublist.subset ht) (h.kinds t ht)

theorem IsPlainList.typeParameters_eq (h : IsPlainList code f list) :
    f.typeParameters = Token.slice (list.map Token.tidy) := by
  rw [h.text, Token.collapse_slice list h.hasInk fun t ht => List.all_eq_true.mp (h.gaps t ht)]

theorem IsPlainList.isChain_wordless (h : IsPlainList code f list) :
    list.IsChain fun a b => a.IsWordless ∨ b.IsWordless := by
  have hsymbol : ∀ t ∈ list, t.kind = .symbol → t.IsWordless := by
    intro t ht hkind
    obtain ⟨hne, hchars⟩ := Token.isSymbolChar_of_mem_ofText (h.sublist.subset ht) hkind
    exact ⟨hne, fun c hc => (CSharp.Lexeme.isSymbolChar_ink (hchars c hc)).2⟩
  exact h.apart.imp_of_mem_imp fun a b ha hb hab => hab.imp (hsymbol a ha) (hsymbol b hb)

/-- Two spellings of one list are equal when white space stands at the same places. -/
theorem typeParameters_inj (hlist : IsPlainList code f list) (hothers : IsPlainList code' g others)
    (htexts : list.map Token.text = others.map Token.text) :
    f.typeParameters = g.typeParameters ↔ Token.SpacedAlike list others := by
  rw [hlist.typeParameters_eq, hothers.typeParameters_eq]
  exact Token.slice_tidy_inj hlist.hasInk hothers.hasInk htexts

theorem words_typeParameters (hlist : IsPlainList code f list)
    (hothers : IsPlainList code' g others) (htexts : list.map Token.text = others.map Token.text) :
    Text.words f.typeParameters = Text.words g.typeParameters := by
  rw [hlist.typeParameters_eq, hothers.typeParameters_eq]
  exact Token.words_slice_tidy htexts hlist.isChain_wordless hothers.isChain_wordless

/-- Classes of one place and name have one full name exactly when their lists are equal. -/
theorem fullName_inj (hspace : f.space = g.space) (hcontainers : f.containers = g.containers)
    (hname : f.name = g.name) (hne : f.name ≠ "") :
    f.fullName = g.fullName ↔ f.typeParameters = g.typeParameters := by
  have hscope : f.scopeName = g.scopeName := by
    rw [Fragment.scopeName, Fragment.scopeName, hspace, hcontainers]
  rw [f.fullName_eq hne, g.fullName_eq (hname ▸ hne), hscope, hname, qualifiedName, qualifiedName]
  split
  · simp
  · simp

/-! ## Merging -/

/-- Some field of the fragment gets a property. -/
def IsMarked (known : KnownTypes) (marker : String) (f : Fragment) : Prop :=
  ∃ field ∈ f.fields, isSelected known marker (f, field) = true

/-- No earlier fragment is a report of the same declaration. -/
def IsReported (fragments : List Fragment) (f : Fragment) : Prop :=
  f ∈ reportsOf f.fullName fragments

/-- Classes of one place and name whose lists are spelled in two ways clash. -/
theorem clash_of_spellings {c d : ReactiveClass} (hc : IsClassOf f c) (hd : IsClassOf g d)
    (hspace : f.space = g.space) (hcontainers : f.containers = g.containers)
    (hname : f.name = g.name) (hwords : Text.words f.typeParameters = Text.words g.typeParameters)
    (hne : f.fullName ≠ g.fullName) : Clash c d := by
  refine ⟨?_, ?_, ?_⟩
  · rwa [hc.fullName, hd.fullName]
  · rw [scopeName, scopeName, hc.space, hc.containers, hd.space, hd.containers, hspace,
      hcontainers]
  · rw [flatName, flatName, hc.name, hc.typeParameters, hd.name, hd.typeParameters, hname, hwords]

/-- Two declarations of a partial class whose type parameters have the same names in the same
order are merged exactly when white space stands at the same places in their lists.  If they are
merged, one class has the marked fields of both.  If they are not, a batch with a class for each
of them fails because of two equal names. -/
theorem merged_iff_spacedAlike (settings : Settings) (known : KnownTypes)
    (sources : List (String × String)) {suffix file : String}
    (hqualify : settings.qualifyNames.isTrue = true)
    (hsuffix : settings.artifactSuffix = .text suffix)
    (hmarker : settings.markerFullName = .text marker) (hknown : marker ∈ known.names)
    (hfile : settings.markerArtifact = .text file) (hclash : ¬suffix.toList <:+ file.toList)
    (hf : f ∈ fragmentsOf sources) (hg : g ∈ fragmentsOf sources) (hspace : f.space = g.space)
    (hcontainers : f.containers = g.containers) (hname : f.name = g.name)
    (hlist : IsPlainList code f list) (hothers : IsPlainList code' g others)
    (htexts : list.map Token.text = others.map Token.text) :
    let classes := scannedClasses known marker (fragmentsOf sources)
    (Scan.OneGroup (fragmentsOf sources) f g ↔ Token.SpacedAlike list others) ∧
    (Token.SpacedAlike list others →
      IsReported (fragmentsOf sources) f → IsReported (fragmentsOf sources) g →
      IsMarked known marker f ∨ IsMarked known marker g →
      ∃ c ∈ classes, c.fullName = f.fullName ∧ (∀ d ∈ classes, d.fullName = f.fullName → d = c) ∧
        HasFieldsOf known marker c f ∧ HasFieldsOf known marker c g) ∧
    (¬Token.SpacedAlike list others → (∃ c ∈ classes, IsClassOf f c) →
      (∃ d ∈ classes, IsClassOf g d) →
      IsDuplicate (generate settings known (fragmentsOf sources) .never).outcome) := by
  intro classes
  obtain ⟨tokens, hread⟩ := exists_readIn hf
  have hfull : f.fullName = g.fullName ↔ Token.SpacedAlike list others := by
    rw [fullName_inj hspace hcontainers hname hread.name.1,
      typeParameters_inj hlist hothers htexts]
  refine ⟨(Scan.oneGroup_iff hf hg).trans hfull, ?_, ?_⟩
  · intro halike hreport hreport' hmarked
    have hsame : f.fullName = g.fullName := hfull.mpr halike
    rw [IsReported, ← hsame] at hreport'
    have hclass : ∃ c ∈ classes, c.fullName = f.fullName ∧
        ∀ report ∈ reportsOf f.fullName (fragmentsOf sources),
          HasFieldsOf known marker c report := by
      rcases hmarked with ⟨field, hfield, hselected⟩ | ⟨field, hfield, hselected⟩
      · exact exists_class_of_selected hknown hreport hfield hselected
      · rw [hsame] at hreport' ⊢
        exact exists_class_of_selected hknown hreport' hfield hselected
    obtain ⟨c, hc, hcname, hfields⟩ := hclass
    have hdistinct : (classes.map ReactiveClass.fullName).Nodup :=
      List.pairwise_map.mpr (pairwise_scannedClasses known marker (fragmentsOf sources))
    refine ⟨c, hc, hcname, fun d hd hdname => ?_, hfields f hreport, hfields g hreport'⟩
    exact List.inj_on_of_nodup_map hdistinct hd hc (hdname.trans hcname.symm)
  · rintro hspaced ⟨c, hc, hcf⟩ ⟨d, hd, hdg⟩
    have hne : f.fullName ≠ g.fullName := fun h => hspaced (hfull.mp h)
    have hwords := words_typeParameters hlist hothers htexts
    exact (outcome_generate_fragmentsOf sources hqualify hsuffix hmarker hfile hclash).2
      ⟨c, hc, d, hd, clash_of_spellings hcf hdg hspace hcontainers hname hwords hne⟩

/-- Two declarations of one class, the second with spaces in its list. -/
def spacedSource : String :=
  "class B<T>\x7b[ReactiveObject.Generators.ReactiveProperty]int _a;\x7d" ++
    "class B< T >\x7b[ReactiveObject.Generators.ReactiveProperty]int _b;\x7d"

/-- The two declarations are kept apart, and their artifacts would have one name. -/
theorem generate_spacedSource :
    (generate {} markerOnly (fragmentsOf [(spacedSource, "")]) .never).outcome =
      .error (.duplicateArtifact "B< T >" "B<T>" "B_TReactiveProperty.g.cs") := by
  decide +kernel

/-- Two declarations of one class with the same list. -/
def alikeSource : String :=
  "class B<T>\x7b[ReactiveObject.Generators.ReactiveProperty]int _a;\x7d" ++
    "class B<T>\x7b[ReactiveObject.Generators.ReactiveProperty]int _b;\x7d"

/-- A declaration of the class with one marked field. -/
def partWith (list field : String) : Fragment where
  name := "B"
  typeParameters := list
  fields := [⟨field, some "int", ["ReactiveObject.Generators.ReactiveProperty"]⟩]

/-- The tokens of its list. -/
def listWith (gap : String) : List Token :=
  [⟨.symbol, "<", "", 1, 1⟩, ⟨.word, "T", gap, 1, 1⟩, ⟨.symbol, ">", gap, 1, 1⟩]

theorem isPlainList_listWith {code gap : String} {f : Fragment} (n : Nat)
    (htokens : ((Token.ofText code).tokens.drop n).take 3 = listWith gap)
    (htext : f.typeParameters = Text.collapse (Token.slice (listWith gap)))
    (hgap : gap.toList.all Text.isBlank = true) : IsPlainList code f (listWith gap) where
  sublist := htokens ▸ (List.take_sublist 3 _).trans (List.drop_sublist n _)
  text := htext
  kinds := by simp [listWith, IsPlainKind]
  apart := by simp [listWith]
  gaps := by
    intro t ht
    have hgaps : t.gap = gap := by
      rcases List.mem_cons.mp ht with rfl | ht
      · rfl
      · rw [List.mem_singleton.mp ht]
    rw [hgaps, hgap]

/-- The class with the property of its one marked field. -/
def boxWith (list field property : String) : ReactiveClass where
  name := "B"
  space := ""
  fullName := "B" ++ list
  accessibility := .isInternal
  typeParameters := list
  properties := [⟨field, property, .isInternal, "int"⟩]

/-- Lists with the same spaces are merged.  Others are not, and their classes clash. -/
theorem merged_iff_spacedAlike_markedFields :
    (∃ c ∈ scannedClasses markerOnly "ReactiveObject.Generators.ReactivePropertyAttribute"
        (fragmentsOf [(alikeSource, "")]),
      c.fullName = "B<T>" ∧ (∃ p ∈ c.properties, p.field = "_a") ∧
        ∃ p ∈ c.properties, p.field = "_b") ∧
    IsDuplicate (generate {} markerOnly (fragmentsOf [(spacedSource, "")]) .never).outcome := by
  constructor
  · have hfragments : fragmentsOf [(alikeSource, "")] =
        [partWith "<T>" "_a", partWith "<T>" "_b"] := by decide +kernel
    have htokens : ((Token.ofText alikeSource).tokens.drop 2).take 3 = listWith "" ∧
        ((Token.ofText alikeSource).tokens.drop 19).take 3 = listWith "" := by decide +kernel
    have hlist : IsPlainList alikeSource (partWith "<T>" "_a") (listWith "") :=
      isPlainList_listWith 2 htokens.1 (by decide +kernel) (by decide)
    have hothers : IsPlainList alikeSource (partWith "<T>" "_b") (listWith "") :=
      isPlainList_listWith 19 htokens.2 (by decide +kernel) (by decide)
    have hmem : partWith "<T>" "_a" ∈ fragmentsOf [(alikeSource, "")] ∧
        partWith "<T>" "_b" ∈ fragmentsOf [(alikeSource, "")] := by simp [hfragments]
    have hmerged := merged_iff_spacedAlike {} markerOnly [(alikeSource, "")] rfl rfl rfl
      (by decide) rfl (by decide) hmem.1 hmem.2 rfl rfl rfl hlist hothers rfl
    have hreported : IsReported (fragmentsOf [(alikeSource, "")]) (partWith "<T>" "_a") ∧
        IsReported (fragmentsOf [(alikeSource, "")]) (partWith "<T>" "_b") := by
      rw [hfragments]
      unfold IsReported
      decide +kernel
    obtain ⟨c, hc, hname, -, hfirst, hsecond⟩ := hmerged.2.1 (by decide) hreported.1 hreported.2
      (Or.inl ⟨_, List.mem_cons_self, by decide +kernel⟩)
    exact ⟨c, hc, hname, hfirst _ List.mem_cons_self (by decide +kernel),
      hsecond _ List.mem_cons_self (by decide +kernel)⟩
  · have hfragments : fragmentsOf [(spacedSource, "")] =
        [partWith "<T>" "_a", partWith "< T >" "_b"] := by decide +kernel
    have hclasses : scannedClasses markerOnly "ReactiveObject.Generators.ReactivePropertyAttribute"
        (fragmentsOf [(spacedSource, "")]) =
          [boxWith "<T>" "_a" "A", boxWith "< T >" "_b" "B"] := by
      rw [hfragments]
      decide +kernel
    have htokens : ((Token.ofText spacedSource).tokens.drop 2).take 3 = listWith "" ∧
        ((Token.ofText spacedSource).tokens.drop 19).take 3 = listWith " " := by decide +kernel
    have hlist : IsPlainList spacedSource (partWith "<T>" "_a") (listWith "") :=
      isPlainList_listWith 2 htokens.1 (by decide +kernel) (by decide)
    have hothers : IsPlainList spacedSource (partWith "< T >" "_b") (listWith " ") :=
      isPlainList_listWith 19 htokens.2 (by decide +kernel) (by decide)
    have hmem : partWith "<T>" "_a" ∈ fragmentsOf [(spacedSource, "")] ∧
        partWith "< T >" "_b" ∈ fragmentsOf [(spacedSource, "")] := by simp [hfragments]
    have hmerged := merged_iff_spacedAlike {} markerOnly [(spacedSource, "")] rfl rfl rfl
      (by decide) rfl (by decide) hmem.1 hmem.2 rfl rfl rfl hlist hothers rfl
    refine hmerged.2.2 (by decide) ⟨boxWith "<T>" "_a" "A", by simp [hclasses], ?_⟩
      ⟨boxWith "< T >" "_b" "B", by simp [hclasses], ?_⟩
    · exact ⟨rfl, rfl, rfl, rfl, rfl⟩
    · exact ⟨rfl, rfl, rfl, rfl, rfl⟩

end Batch

end Backfield

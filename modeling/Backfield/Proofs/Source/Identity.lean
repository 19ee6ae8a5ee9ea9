import Backfield.Proofs.CSharp.Flattening
import Backfield.Proofs.Scan.FullNames
import Backfield.Proofs.Source.Sites

/-!
# Classes with one full name

Fragments are grouped by full name.  The full name of a class has its own type parameters, but of
the types around it only the names, and it does not tell where the namespace ends.  This module
says which classes it cannot tell apart.

* `fullName_eq` takes a full name apart: the dotted path, and the list of type parameters
  from the first angle bracket on.
* `arity` counts the type parameters of a list by its tokens, `TypeSite.arities` those along the
  path, and `SameClass` says that two declarations are of one class.
* `sameClass_iff_arities` is the result: declarations with one full name are of one class exactly
  when they have the same numbers of type parameters along the path.
-/

namespace Backfield.Source

open CSharp (Lexeme Token TypeHead)
open CSharp.Lexeme (isNameChar tokensIn)
open Scan (qualifiedName)

/-! ## Dotted names -/

/-- The parts of a dotted name. -/
def segments (name : String) : List String :=
  if name = "" then [] else (name.toList.splitOn '.').map String.ofList

/-- A dotted name consists of the characters of names and of dots. -/
def IsDotted (name : String) : Prop := ∀ c ∈ name.toList, isNameChar c = true ∨ c = '.'

theorem segments_inj {name name' : String} (h : segments name = segments name') : name = name' := by
  have hjoin : ∀ name : String, ".".intercalate (segments name) = name := by
    intro name
    unfold segments
    split
    · rename_i hempty
      rw [hempty, String.intercalate_nil]
    · have hmark : ".".toList = ['.'] := rfl
      rw [← String.toList_inj, String.toList_intercalate, hmark, List.map_map]
      simp [Function.comp_def, List.intercalate_splitOn]
  rw [← hjoin name, h, hjoin name']

theorem isWordText_ne_dot {name : String} (h : Token.IsWordText name) : '.' ∉ name.toList :=
  fun hdot => absurd (h.2 '.' hdot) (by decide)

theorem segments_intercalate {names : List String} (hne : names ≠ [])
    (hwords : ∀ name ∈ names, Token.IsWordText name) :
    ((".".intercalate names).toList.splitOn '.').map String.ofList = names := by
  have hmark : ".".toList = ['.'] := rfl
  rw [String.toList_intercalate, hmark, List.splitOn_intercalate]
  · simp [Function.comp_def]
  · intro chars hchars
    obtain ⟨name, hname, rfl⟩ := List.mem_map.mp hchars
    exact isWordText_ne_dot (hwords name hname)
  · simpa using hne

/-- The parts of the full name of a type: those of its namespace, and the names of the types. -/
theorem segments_joinNames (space : String) {names : List String} (hne : names ≠ [])
    (hwords : ∀ name ∈ names, Token.IsWordText name) :
    segments (joinNames (space :: names)) = segments space ++ names := by
  have hnames : names.filter (· != "") = names := by
    rw [List.filter_eq_self]
    intro name hname
    simpa using (hwords name hname).1
  have hjoined : ".".intercalate names ≠ "" := by
    intro hempty
    have hsplit := segments_intercalate hne hwords
    rw [hempty] at hsplit
    have hone : names = [""] := by simpa using hsplit.symm
    exact (hwords "" (by simp [hone])).1 rfl
  by_cases hspace : space = ""
  · have hparts : (space :: names).filter (· != "") = names := by simp [hspace, hnames]
    rw [joinNames, hparts, hspace, segments, if_neg hjoined, segments_intercalate hne hwords]
    simp [segments]
  · have hparts : (space :: names).filter (· != "") = space :: names := by simp [hspace, hnames]
    have hmark : ".".toList = ['.'] := rfl
    have hall : ¬space ++ "." ++ ".".intercalate names = "" := by
      simp [String.append_eq_empty_iff]
    rw [joinNames, hparts, String.intercalate_cons_of_ne_nil hne, segments, if_neg hall, segments,
      if_neg hspace]
    simp only [String.toList_append, hmark, List.append_assoc, List.cons_append, List.nil_append,
      List.splitOn_append_cons_self, List.map_append]
    rw [segments_intercalate hne hwords]

/-- A joined name has no characters but those of its parts and dots. -/
theorem mem_joinNames {c : Char} {names : List String} (h : c ∈ (joinNames names).toList) :
    c = '.' ∨ ∃ name ∈ names, c ∈ name.toList := by
  have hmark : ".".toList = ['.'] := rfl
  have hall : ∀ parts : List String, c ∈ (".".intercalate parts).toList →
      c = '.' ∨ ∃ part ∈ parts, c ∈ part.toList := by
    intro parts
    induction parts with
    | nil => simp
    | cons part rest ih =>
      intro hc
      cases rest with
      | nil => exact Or.inr ⟨part, List.mem_cons_self, by simpa using hc⟩
      | cons next more =>
        rw [String.intercalate_cons_cons, String.toList_append, String.toList_append, hmark,
          List.mem_append, List.mem_append, List.mem_singleton] at hc
        rcases hc with (hpart | hdot) | hrest
        · exact Or.inr ⟨part, List.mem_cons_self, hpart⟩
        · exact Or.inl hdot
        · exact (ih hrest).imp_right fun ⟨name, hname, hc⟩ =>
            ⟨name, List.mem_cons_of_mem _ hname, hc⟩
  refine (hall _ h).imp_right fun ⟨name, hname, hc⟩ => ⟨name, List.mem_of_mem_filter hname, hc⟩

/-! ## Full names taken apart -/

/-- What begins with a character that is not blank collapses to something that begins with it. -/
theorem collapse_cons {c : Char} {rest : List Char} (hc : Text.isBlank c = false) :
    ∃ more, (Text.collapse (String.ofList (c :: rest))).toList = c :: more := by
  have hsqueezed : Text.squeezeFrom false (c :: rest) = c :: Text.squeezeFrom false rest := by
    simp [Text.squeezeFrom, hc]
  have hdropped : (c :: Text.squeezeFrom false rest).dropWhile Text.isBlank =
      c :: Text.squeezeFrom false rest := by
    simp [hc]
  have hend : Text.dropBlanksEnd (c :: Text.squeezeFrom false rest) =
      c :: Text.dropBlanksEnd (Text.squeezeFrom false rest) := by
    simp only [Text.dropBlanksEnd, List.reverse_cons, List.dropWhile_append]
    split
    · rename_i hempty
      simp [hc, List.isEmpty_iff.mp hempty]
    · simp
  refine ⟨Text.dropBlanksEnd (Text.squeezeFrom false rest), ?_⟩
  rw [Text.collapse, String.toList_ofList, String.toList_ofList, hsqueezed, hdropped, hend]

/-- A list of type parameters is empty or begins with an angle bracket. -/
def OpensAngle (text : String) : Prop := text = "" ∨ ∃ more, text.toList = '<' :: more

theorem opensAngle_of_readFrom {tokens : List Token} {head : TypeHead}
    (h : CSharp.Declaration.ReadFrom tokens head) : OpensAngle head.typeParameters := by
  obtain ⟨list, -, hopens, htext⟩ := h.parameters
  rcases hopens with rfl | hhead
  · exact Or.inl htext
  · cases list with
    | nil => cases hhead
    | cons t rest =>
      have ht : t.text = "<" := by
        have hsymbol : t.isSymbol "<" = true := hhead
        simp only [Token.isSymbol, Bool.and_eq_true, beq_iff_eq] at hsymbol
        exact hsymbol.2
      have hmark : "<".toList = ['<'] := rfl
      refine Or.inr ⟨(String.join (rest.map fun t => t.gap ++ t.text)).toList, ?_⟩
      rw [htext, Token.slice, String.toList_append, ht, hmark]
      rfl

theorem opensAngle_collapse {text : String} (h : OpensAngle text) :
    OpensAngle (Text.collapse text) := by
  rcases h with rfl | ⟨more, htext⟩
  · exact Or.inl rfl
  · obtain ⟨more', hcollapsed⟩ := @collapse_cons '<' more (by decide)
    rw [← htext, String.ofList_toList] at hcollapsed
    exact Or.inr ⟨more', hcollapsed⟩

/-- Only the empty list collapses to nothing. -/
theorem collapse_eq_empty_iff_of_opensAngle {text : String} (h : OpensAngle text) :
    Text.collapse text = "" ↔ text = "" := by
  constructor
  · intro hempty
    rcases h with rfl | ⟨more, hmore⟩
    · rfl
    · obtain ⟨more', hcollapsed⟩ := @collapse_cons '<' more (by decide)
      rw [← hmore, String.ofList_toList, hempty] at hcollapsed
      cases hcollapsed
  · rintro rfl
    rfl

/-- A text without angle brackets can be told from a list of type parameters after it. -/
theorem append_opensAngle_inj {path path' list list' : String} (hpath : '<' ∉ path.toList)
    (hpath' : '<' ∉ path'.toList) (hlist : OpensAngle list) (hlist' : OpensAngle list')
    (h : path ++ list = path' ++ list') : path = path' ∧ list = list' := by
  have htake : ∀ path list : String, '<' ∉ path.toList → OpensAngle list →
      (path ++ list).toList.takeWhile (· != '<') = path.toList := by
    intro path list hpath hlist
    have hall : ∀ c ∈ path.toList, (c != '<') = true := by
      intro c hc
      simpa using fun heq : c = '<' => hpath (heq ▸ hc)
    rw [String.toList_append, List.takeWhile_append_of_pos hall]
    rcases hlist with rfl | ⟨more, hmore⟩
    · simp
    · simp [hmore]
  have hpaths : path = path' := by
    rw [← String.toList_inj, ← htake path list hpath hlist, h, htake path' list' hpath' hlist']
  refine ⟨hpaths, ?_⟩
  rw [hpaths] at h
  simpa using h

/-! ## Paths -/

/-- The commas among some tokens that are not within the square brackets of an attribute, `depth` of
which are open. -/
def countCommas : (depth : Nat) → List Lexeme → Nat
  | _, [] => 0
  | depth, l :: rest =>
    if l = ⟨.symbol, ['[']⟩ then countCommas (depth + 1) rest
    else if l = ⟨.symbol, [']']⟩ then countCommas (depth - 1) rest
    else if l = ⟨.symbol, [',']⟩ ∧ depth = 0 then countCommas depth rest + 1
    else countCommas depth rest

/-- The number of type parameters of a list as written: one more than there are commas between
them.  What stands in a comment or in an attribute does not count. -/
def arity (text : String) : Nat := if text = "" then 0 else countCommas 0 (tokensIn text) + 1

example : arity "<[A(1, 2)] T /* , */, [B, C] U>" = 2 := by decide +kernel

theorem arity_eq_zero_iff {text : String} : arity text = 0 ↔ text = "" := by
  simp [arity]

/-- The list has the same tokens on one line.  `Lexeme.tokensIn_collapse_eq_iff` tells of a list
without literals that it has unless a token follows a comment that ends with its line. -/
def KeepsTokens (text : String) : Prop := tokensIn (Text.collapse text) = tokensIn text

theorem arity_collapse {text : String} (h : OpensAngle text) (hkeeps : KeepsTokens text) :
    arity (Text.collapse text) = arity text := by
  rw [arity, arity, hkeeps]
  simp only [collapse_eq_empty_iff_of_opensAngle h]

namespace TypeSite

variable {s t : TypeSite}

/-- The parts of the full name of the type, without its type parameters. -/
def path (s : TypeSite) : List String :=
  segments s.space ++ (s.around.map TypeHead.name ++ [s.head.name])

/-- The number of type parameters of each part of the path.  Namespaces have none. -/
def arities (s : TypeSite) : List Nat :=
  (segments s.space).map (fun _ => 0) ++
    (s.around.map (fun head => arity head.typeParameters) ++ [arity s.head.typeParameters])

/-- The two declarations are of one class: in one namespace, inside types of the same names and
numbers of type parameters, with one name and one number of type parameters. -/
structure SameClass (s t : TypeSite) : Prop where
  space : s.space = t.space
  names : s.around.map TypeHead.name = t.around.map TypeHead.name
  arities : s.around.map (fun head => arity head.typeParameters) =
    t.around.map fun head => arity head.typeParameters
  name : s.head.name = t.head.name
  arity : arity s.head.typeParameters = arity t.head.typeParameters

/-- What a site of a text is made of. -/
structure IsRead (s : TypeSite) : Prop where
  space : IsDotted s.space
  words : ∀ name ∈ s.around.map TypeHead.name ++ [s.head.name], Token.IsWordText name
  list : OpensAngle s.head.typeParameters

theorem isRead_of_mem {code : String} (hs : s ∈ sitesIn code) (hspace : IsDotted s.space) :
    s.IsRead where
  space := hspace
  words := by
    intro name hname
    have hheads := isWordText_of_mem_sitesIn hs
    rcases List.mem_append.mp hname with haround | hown
    · obtain ⟨head, hhead, rfl⟩ := List.mem_map.mp haround
      exact (hheads head (List.mem_cons_of_mem _ hhead)).1
    · rw [List.mem_singleton.mp hown]
      exact (hheads s.head List.mem_cons_self).1
  list := opensAngle_of_readFrom (isWordText_of_mem_sitesIn hs s.head List.mem_cons_self).2

/-- The full name of a class is the name of its path with its list of type parameters. -/
theorem fullName_eq (h : s.IsRead) {f : Fragment} (hf : s.Declares f) :
    f.fullName = joinNames (s.space :: (s.around.map TypeHead.name ++ [s.head.name])) ++
      Text.collapse s.head.typeParameters := by
  obtain ⟨path, scope, body, rfl, hspace, haround⟩ := hf
  have hname : s.head.name ≠ "" := (h.words s.head.name (by simp)).1
  have hconcat : s.space :: (s.around.map TypeHead.name ++ [s.head.name]) =
      (s.space :: s.around.map TypeHead.name) ++ [s.head.name] := rfl
  rw [Fragment.fullName_eq _ hname, hconcat, joinNames_concat _ hname, Fragment.scopeName]
  simp only [fragmentOf, hspace, haround, qualifiedName]
  split
  · rfl
  · rw [String.append_assoc, String.append_assoc, String.append_assoc]

theorem path_no_angle (h : s.IsRead) :
    '<' ∉ (joinNames (s.space :: (s.around.map TypeHead.name ++ [s.head.name]))).toList := by
  intro hmem
  rcases mem_joinNames hmem with hdot | ⟨name, hname, hmem⟩
  · exact absurd hdot (by decide)
  · rcases List.mem_cons.mp hname with rfl | hname
    · exact absurd (h.space '<' hmem) (by decide)
    · exact absurd ((h.words name hname).2 '<' hmem) (by decide)

/-- Classes with one full name have one path and one list of type parameters. -/
theorem path_eq_of_fullName_eq (hs : s.IsRead) (ht : t.IsRead) {f g : Fragment}
    (hf : s.Declares f) (hg : t.Declares g) (h : f.fullName = g.fullName) :
    s.path = t.path ∧
      Text.collapse s.head.typeParameters = Text.collapse t.head.typeParameters := by
  rw [fullName_eq hs hf, fullName_eq ht hg] at h
  obtain ⟨hpath, hlist⟩ := append_opensAngle_inj (path_no_angle hs) (path_no_angle ht)
    (opensAngle_collapse hs.list) (opensAngle_collapse ht.list) h
  refine ⟨?_, hlist⟩
  have hsegments := congrArg segments hpath
  rwa [segments_joinNames _ (by simp) hs.words, segments_joinNames _ (by simp) ht.words]
    at hsegments

/-! ## Telling classes apart -/

/-- Unless it is generic, no type that stands in a namespace has the name of a namespace, or of
one around it. -/
def SpacesApart (sites : List TypeSite) : Prop :=
  ∀ s ∈ sites, ∀ t ∈ sites, ∀ outer ∈ s.around.head?, outer.typeParameters = "" →
    ¬segments s.space ++ [outer.name] <+: segments t.space

/-- Of two sites with one path and equal numbers of type parameters, the one with the longer
namespace has the same namespace.  Otherwise the first type around the other one would stand at
the place of a namespace, and have no type parameters. -/
theorem segments_eq_of_length_le {sites : List TypeSite} (hapart : SpacesApart sites)
    (hs : s ∈ sites) (ht : t ∈ sites) (hpath : s.path = t.path) (harities : s.arities = t.arities)
    (hle : (segments s.space).length ≤ (segments t.space).length) :
    segments s.space = segments t.space := by
  rcases List.append_eq_append_iff.mp hpath with ⟨more, hspace, hnames⟩ | ⟨more, hspace, -⟩
  · cases more with
    | nil => simpa using hspace.symm
    | cons name more =>
      cases haround : s.around with
      | nil =>
        rw [haround] at hnames
        have hlength := congrArg List.length hnames
        simp at hlength
      | cons outer rest =>
        rw [haround] at hnames
        have hname : outer.name = name := (List.cons.inj hnames).1
        have harity : arity outer.typeParameters = 0 := by
          rw [arities, arities, hspace, haround, List.map_append, List.append_assoc] at harities
          exact (List.cons.inj (List.append_cancel_left harities)).1
        have hempty : outer.typeParameters = "" := arity_eq_zero_iff.mp harity
        refine absurd ?_ (hapart s hs t ht outer (by simp [haround]) hempty)
        rw [hspace, hname]
        exact ⟨more, by simp⟩
  · rw [hspace, List.length_append] at hle
    have hnil : more = [] := List.length_eq_zero_iff.mp (by omega)
    simpa [hnil] using hspace

/-- Sites with one path and one list are of one class exactly when they have equal numbers of type
parameters along the path. -/
theorem sameClass_iff_arities_of_path {sites : List TypeSite} (hapart : SpacesApart sites)
    (hs : s ∈ sites) (ht : t ∈ sites) (hpath : s.path = t.path) :
    SameClass s t ↔ s.arities = t.arities := by
  constructor
  · intro h
    rw [arities, arities, h.space, h.arities, h.arity]
  · intro harities
    have hsegments : segments s.space = segments t.space := by
      rcases Nat.le_total (segments s.space).length (segments t.space).length with hle | hle
      · exact segments_eq_of_length_le hapart hs ht hpath harities hle
      · exact (segments_eq_of_length_le hapart ht hs hpath.symm harities.symm hle).symm
    rw [path, path, hsegments] at hpath
    rw [arities, arities, hsegments] at harities
    obtain ⟨hnames, hname⟩ := List.append_inj' (List.append_cancel_left hpath) rfl
    obtain ⟨hcounts, hcount⟩ := List.append_inj' (List.append_cancel_left harities) rfl
    exact ⟨segments_inj hsegments, hnames, hcounts, (List.cons.inj hname).1,
      (List.cons.inj hcount).1⟩

/-- No type around the site is generic. -/
def IsPlainlyNested (s : TypeSite) : Prop := ∀ head ∈ s.around, head.typeParameters = ""

theorem arities_of_isPlainlyNested (h : s.IsPlainlyNested) :
    s.arities = List.replicate (s.path.length - 1) 0 ++ [arity s.head.typeParameters] := by
  have haround : s.around.map (fun head => arity head.typeParameters) =
      List.replicate s.around.length 0 := by
    rw [List.eq_replicate_iff]
    refine ⟨by simp, fun n hn => ?_⟩
    obtain ⟨head, hhead, rfl⟩ := List.mem_map.mp hn
    rw [h head hhead]
    rfl
  have hlength : s.path.length - 1 = (segments s.space).length + s.around.length := by
    simp [path]
  rw [arities, haround, hlength, List.map_const', ← List.append_assoc,
    List.replicate_append_replicate]

end TypeSite

open TypeSite (SameClass SpacesApart)

/-- Two classes of a text that have one full name are fragments of one class exactly when they have
the same numbers of type parameters along their path.  In particular they are if no type around them
is generic and their own lists keep their tokens on one line, as the full name has them. -/
theorem sameClass_iff_arities {code : String} {s t : TypeSite} {f g : Fragment}
    (hs : s ∈ sitesIn code) (ht : t ∈ sitesIn code) (hf : s.Declares f) (hg : t.Declares g)
    (hdotted : ∀ site ∈ sitesIn code, IsDotted site.space) (hapart : SpacesApart (sitesIn code))
    (hname : f.fullName = g.fullName) :
    (SameClass s t ↔ s.arities = t.arities) ∧
      (s.IsPlainlyNested → t.IsPlainlyNested → KeepsTokens s.head.typeParameters →
        KeepsTokens t.head.typeParameters → SameClass s t) := by
  have hread := TypeSite.isRead_of_mem hs (hdotted s hs)
  have hread' := TypeSite.isRead_of_mem ht (hdotted t ht)
  obtain ⟨hpath, hlist⟩ := TypeSite.path_eq_of_fullName_eq hread hread' hf hg hname
  have hiff := TypeSite.sameClass_iff_arities_of_path hapart hs ht hpath
  refine ⟨hiff, fun hplain hplain' hkeeps hkeeps' => hiff.mpr ?_⟩
  have harity : arity s.head.typeParameters = arity t.head.typeParameters := by
    rw [← arity_collapse hread.list hkeeps, hlist, arity_collapse hread'.list hkeeps']
  rw [TypeSite.arities_of_isPlainlyNested hplain, TypeSite.arities_of_isPlainlyNested hplain',
    hpath, harity]

/-- Two parts of a generic class inside two parts of another class. -/
def partialSource : String :=
  "namespace N\x7bpartial class A\x7bpartial class B<T, U>\x7b\x7d\x7d" ++
    "public partial class A\x7bpublic partial class B<T,\n  U>\x7b\x7d\x7d\x7d"

theorem sameClass_iff_arities_partialSource :
    SameClass ⟨"N", [⟨.isClass, ["partial"], "A", ""⟩], ⟨.isClass, ["partial"], "B", "<T, U>"⟩⟩
      ⟨"N", [⟨.isClass, ["public", "partial"], "A", ""⟩],
        ⟨.isClass, ["public", "partial"], "B", "<T,\n  U>"⟩⟩ := by
  have hsites : sitesIn partialSource =
      [⟨"N", [], ⟨.isClass, ["partial"], "A", ""⟩⟩,
        ⟨"N", [⟨.isClass, ["partial"], "A", ""⟩], ⟨.isClass, ["partial"], "B", "<T, U>"⟩⟩,
        ⟨"N", [], ⟨.isClass, ["public", "partial"], "A", ""⟩⟩,
        ⟨"N", [⟨.isClass, ["public", "partial"], "A", ""⟩],
          ⟨.isClass, ["public", "partial"], "B", "<T,\n  U>"⟩⟩] := by
    decide +kernel
  have hspaces : ∀ site ∈ sitesIn partialSource, site.space = "N" := by
    rw [hsites]
    decide
  have hdotted : ∀ site ∈ sitesIn partialSource, IsDotted site.space := by
    intro site hsite c hc
    rw [hspaces site hsite] at hc
    obtain rfl : c = 'N' := by simpa using hc
    exact Or.inl (by decide)
  have hapart : SpacesApart (sitesIn partialSource) := by
    intro s hs t ht outer _ _ hprefix
    rw [hspaces s hs, hspaces t ht] at hprefix
    exact absurd hprefix.length_le (by simp)
  let f : Fragment := { name := "B", space := "N", containers := ["A"], typeParameters := "<T, U>" }
  let g : Fragment := { f with accessibility := some .isPublic }
  have hsame := @sameClass_iff_arities partialSource
    ⟨"N", [⟨.isClass, ["partial"], "A", ""⟩], ⟨.isClass, ["partial"], "B", "<T, U>"⟩⟩
    ⟨"N", [⟨.isClass, ["public", "partial"], "A", ""⟩],
      ⟨.isClass, ["public", "partial"], "B", "<T,\n  U>"⟩⟩ f g (by simp [hsites]) (by simp [hsites])
    ⟨"", { space := "N", containers := ["A"] }, [], by decide, rfl, rfl⟩
    ⟨"", { space := "N", containers := ["A"] }, [], by decide, rfl, rfl⟩ hdotted hapart rfl
  have hkeeps : KeepsTokens "<T, U>" ∧ KeepsTokens "<T,\n  U>" := by
    refine ⟨?_, ?_⟩ <;> unfold KeepsTokens <;> decide +kernel
  refine hsame.2 (fun head hhead => ?_) (fun head hhead => ?_) hkeeps.1 hkeeps.2
  · rw [List.mem_singleton.mp hhead]
  · rw [List.mem_singleton.mp hhead]

/-- Two outer classes, of which one is generic, with an inner class each. -/
def overloadedSource : String :=
  "class Outer<T>\x7bclass Inner\x7b\x7d\x7dclass Outer\x7bclass Inner\x7b\x7d\x7d"

/-- The inner classes are two, but they have one full name. -/
theorem exists_fullName_eq_of_not_sameClass :
    ∃ s ∈ sitesIn overloadedSource, ∃ t ∈ sitesIn overloadedSource,
      ∃ f ∈ fragmentsIn overloadedSource "", ∃ g ∈ fragmentsIn overloadedSource "",
        s.Declares f ∧ t.Declares g ∧ f.fullName = g.fullName ∧ ¬SameClass s t := by
  let inner : TypeHead := ⟨.isClass, [], "Inner", ""⟩
  let f : Fragment := { name := "Inner", containers := ["Outer"] }
  have hsites : sitesIn overloadedSource =
      [⟨"", [], ⟨.isClass, [], "Outer", "<T>"⟩⟩, ⟨"", [⟨.isClass, [], "Outer", "<T>"⟩], inner⟩,
        ⟨"", [], ⟨.isClass, [], "Outer", ""⟩⟩, ⟨"", [⟨.isClass, [], "Outer", ""⟩], inner⟩] := by
    decide +kernel
  have hf : f ∈ fragmentsIn overloadedSource "" := by decide +kernel
  refine ⟨⟨"", [⟨.isClass, [], "Outer", "<T>"⟩], inner⟩, by simp [hsites],
    ⟨"", [⟨.isClass, [], "Outer", ""⟩], inner⟩, by simp [hsites], f, hf, f, hf, ?_, ?_, rfl, ?_⟩
  · exact ⟨"", { containers := ["Outer"] }, [], rfl, rfl, rfl⟩
  · exact ⟨"", { containers := ["Outer"] }, [], rfl, rfl, rfl⟩
  · intro hsame
    exact absurd hsame.arities (by decide)

/-- A class of two type parameters and one of one, told apart by where a comment ends. -/
def commentedLists : String :=
  "class Box<T // c\n, U >\x7b\x7dclass Box<T // c , U\n>\x7b\x7d"

/-- On one line the two lists are one text, so that the classes have one full name. -/
theorem exists_fullName_eq_of_comment :
    ∃ s ∈ sitesIn commentedLists, ∃ t ∈ sitesIn commentedLists,
      ∃ f ∈ fragmentsIn commentedLists "", ∃ g ∈ fragmentsIn commentedLists "",
        s.Declares f ∧ t.Declares g ∧ f.fullName = g.fullName ∧ s.IsPlainlyNested ∧
          t.IsPlainlyNested ∧ ¬SameClass s t := by
  let f : Fragment := { name := "Box", typeParameters := "<T // c , U >" }
  let s : TypeSite := ⟨"", [], ⟨.isClass, [], "Box", "<T // c\n, U >"⟩⟩
  let t : TypeSite := ⟨"", [], ⟨.isClass, [], "Box", "<T // c , U\n>"⟩⟩
  have hsites : sitesIn commentedLists = [s, t] := by decide +kernel
  have hf : f ∈ fragmentsIn commentedLists "" := by decide +kernel
  refine ⟨s, by simp [hsites], t, by simp [hsites], f, hf, f, hf, ?_, ?_, rfl, ?_, ?_, ?_⟩
  · exact ⟨"", {}, [], by decide +kernel, rfl, rfl⟩
  · exact ⟨"", {}, [], by decide +kernel, rfl, rfl⟩
  · exact fun head hhead => absurd hhead List.not_mem_nil
  · exact fun head hhead => absurd hhead List.not_mem_nil
  · intro hsame
    exact absurd hsame.arity (by decide +kernel)

end Backfield.Source

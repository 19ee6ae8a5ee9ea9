import Backfield.Proofs.CSharp.Members

/-!
# Blocks, written and read

How the parser reads a class and a namespace of which nothing but the name, the modifiers and the
list of type parameters is written before the braces.

* `bodyOf_class` and `bodyOf_namespace` are the results: such a block is read with its head as it
  is written, and with what its body is read as.
-/

namespace Backfield.CSharp.Declaration

open Backfield.CSharp.Tree (Fits)
open Backfield.CSharp.TypeName (isName Ends)

/-! ## Heads -/

/-- Words on a line with a space between them. -/
def lineInks : List String → List Ink
  | [] => []
  | first :: rest => Ink.word first :: rest.map fun word => (Ink.word word).after " "

/-- Type parameters after the first one, and the closing bracket. -/
def moreParameters : List String → List Ink
  | [] => [(Ink.symbol ">").after ""]
  | parameter :: rest =>
    (Ink.symbol ",").after "" :: (Ink.word parameter).after " " :: moreParameters rest

/-- A list of type parameters, or nothing if there are none. -/
def parameterInks : List String → List Ink
  | [] => []
  | first :: rest =>
    (Ink.symbol "<").after "" :: (Ink.word first).after "" :: moreParameters rest

/-- What is written before the body of a class. -/
def classInks (modifiers : List String) (name : String) (parameters : List String) : List Ink :=
  lineInks (modifiers ++ ["partial", "class", name]) ++ parameterInks parameters

/-- What is written before the body of a namespace. -/
def spaceInks (name : String) : List Ink := Ink.word "namespace" :: dotted " " name

/-- Braces on lines of their own. -/
def braces (items : List Sketch) : Sketch :=
  .group (Ink.symbol "\x7b") items (Ink.symbol "\x7d")

/-- A line and a body under it. -/
def blockSketch (inks : List Ink) (items : List Sketch) : List Sketch :=
  inks.map Sketch.leaf ++ [braces items]

theorem fitWords_lineInks {trees : List Tree} {words : List String}
    (h : List.Forall₂ Fits trees ((lineInks words).map Sketch.leaf)) : FitWords trees words := by
  cases words with
  | nil => exact List.forall₂_nil_right_iff.mp h ▸ List.Forall₂.nil
  | cons first rest =>
    obtain ⟨tree, others, htree, hothers, rfl⟩ := List.forall₂_cons_right_iff.mp h
    refine List.Forall₂.cons ⟨none, htree⟩ ?_
    rw [List.map_map, List.forall₂_map_right_iff] at hothers
    exact hothers.imp fun tree word hfits => ⟨some " ", hfits⟩

/-! ## Type parameters -/

theorem stopsParameters_symbol {tree : Tree} {symbol : String} {gap : Option String}
    (h : Fits tree (.leaf ⟨.symbol, symbol, gap⟩)) (hsemicolon : symbol ≠ ";")
    (hcolon : symbol ≠ ":") : stopsParameters tree = false := by
  have hbody : opensBody tree = false := by
    cases h with
    | leaf => rfl
  simp [stopsParameters, hbody, h.isGroup, h.isSymbol, h.isWord, hsemicolon, hcolon]

theorem stopsParameters_identifier {tree : Tree} {name : String} {gap : Option String}
    (h : Fits tree (.leaf ⟨.word, name, gap⟩)) (hname : IsIdentifier name) :
    stopsParameters tree = false := by
  have hbody : opensBody tree = false := by
    cases h with
    | leaf => rfl
  have hwhere : name ≠ "where" := hname.ne_of_mem_leading (by decide)
  simp [stopsParameters, hbody, h.isGroup, h.isSymbol, h.isWord, hwhere]

theorem parametersFrom_more {parameters : List String} {trees : List Tree} (rest : List Tree)
    (hparameters : ∀ parameter ∈ parameters, IsIdentifier parameter)
    (h : List.Forall₂ Fits trees ((moreParameters parameters).map Sketch.leaf)) :
    parametersFrom 0 (trees ++ rest) = (trees, rest, true) := by
  induction parameters generalizing trees with
  | nil =>
    obtain ⟨close, rfl, hclose⟩ := exists_singleton_of_forall₂ h
    have hstop := stopsParameters_symbol hclose (by decide) (by decide)
    simp [parametersFrom, hstop, hclose.isSymbol, Ink.symbol, Ink.after]
  | cons parameter parameters ih =>
    obtain ⟨comma, others, hcomma, hothers, rfl⟩ := List.forall₂_cons_right_iff.mp h
    obtain ⟨tree, trees, htree, htrees, rfl⟩ := List.forall₂_cons_right_iff.mp hothers
    have hrest := ih (fun other hother => hparameters other (List.mem_cons_of_mem _ hother)) htrees
    have hcommaStop := stopsParameters_symbol hcomma (by decide) (by decide)
    have hstop := stopsParameters_identifier htree (hparameters parameter List.mem_cons_self)
    simp [parametersFrom, hcommaStop, hstop, hcomma.isSymbol, htree.isSymbol, Ink.symbol, Ink.word,
      Ink.after, hrest]

/-- No parameter is missing after one that is there. -/
theorem missingParameters_more {parameters : List String} {trees : List Tree} {tree : Tree}
    {name : String} {gap : Option String} (htree : Fits tree (.leaf ⟨.word, name, gap⟩))
    (h : List.Forall₂ Fits trees ((moreParameters parameters).map Sketch.leaf)) :
    missingParameters (tree :: trees) = [] := by
  induction parameters generalizing trees tree name gap with
  | nil =>
    obtain ⟨close, rfl, hclose⟩ := exists_singleton_of_forall₂ h
    simp [missingParameters, htree.isSymbol]
  | cons parameter parameters ih =>
    obtain ⟨comma, others, hcomma, hothers, rfl⟩ := List.forall₂_cons_right_iff.mp h
    obtain ⟨next, trees, hnext, htrees, rfl⟩ := List.forall₂_cons_right_iff.mp hothers
    have hrest := ih hnext htrees
    simp [missingParameters, htree.isSymbol, hnext.isSymbol, Ink.word, Ink.after, hrest]

theorem isNeat_moreParameters {parameters : List String}
    (h : ∀ parameter ∈ parameters, IsIdentifier parameter) :
    ∀ ink ∈ moreParameters parameters, ink.IsNeat := by
  induction parameters with
  | nil =>
    intro ink hink
    obtain rfl := List.mem_singleton.mp hink
    exact ⟨Or.inl rfl, by decide, visible_of_all (by decide)⟩
  | cons parameter rest ih =>
    intro ink hink
    rcases List.mem_cons.mp hink with rfl | hink
    · exact ⟨Or.inl rfl, by decide, visible_of_all (by decide)⟩
    · rcases List.mem_cons.mp hink with rfl | hink
      · exact isNeat_word (h parameter List.mem_cons_self) (Or.inr rfl)
      · exact ih (fun other hother => h other (List.mem_cons_of_mem _ hother)) ink hink

/-- A list of type parameters is read as it is written. -/
theorem typeParameters_parameterInks {last : Nat} {parameters : List String}
    {trees rest : List Tree} (hparameters : ∀ parameter ∈ parameters, IsIdentifier parameter)
    (h : List.Forall₂ Fits trees ((parameterInks parameters).map Sketch.leaf))
    (hrest : ∀ tree ∈ rest.head?, tree.isSymbol "<" = false) :
    typeParameters last (trees ++ rest) =
      { text := Ink.written (parameterInks parameters), rest } := by
  cases parameters with
  | nil =>
    obtain rfl := List.forall₂_nil_right_iff.mp h
    cases rest with
    | nil => rfl
    | cons tree rest =>
      rw [List.nil_append, typeParameters, hrest tree rfl]
      rfl
  | cons first parameters =>
    have hfirst := hparameters first List.mem_cons_self
    have hmore : ∀ parameter ∈ parameters, IsIdentifier parameter := fun parameter hparameter =>
      hparameters parameter (List.mem_cons_of_mem _ hparameter)
    have htext : Tree.text trees = Ink.written (parameterInks (first :: parameters)) := by
      refine slice_eq_written (Tree.shows_tokensOf_leaves h) fun ink hink => ?_
      rcases List.mem_cons.mp hink with rfl | hink
      · exact isNeat_word hfirst (Or.inl rfl)
      · exact isNeat_moreParameters hmore ink hink
    obtain ⟨opener, others, hopener, hothers, rfl⟩ := List.forall₂_cons_right_iff.mp h
    obtain ⟨tree, trees, htree, htrees, rfl⟩ := List.forall₂_cons_right_iff.mp hothers
    have hread := parametersFrom_more rest hmore htrees
    have hmissing := missingParameters_more htree htrees
    have hstop := stopsParameters_identifier htree hfirst
    simp [typeParameters, parametersFrom, missingParameters, hopener.isSymbol, htree.isSymbol,
      hstop, hread, hmissing, htext, Ink.symbol, Ink.word, Ink.after]

/-! ## Classes -/

theorem typeKind?_class {tree : Tree} {gap : Option String}
    (h : Fits tree (.leaf ⟨.word, "class", gap⟩)) (rest : List Tree) :
    typeKind? (tree :: rest) = some (.isClass, rest) := by
  have hword : tree.word? = some "class" := h.word? rfl
  simp [typeKind?, hword]

theorem typeMember_class (start last : Nat) (words : List String) {parameters : List String}
    {name : String} {gap : Option String} {tree block : Tree} {trees : List Tree} {items : List Sketch}
    (hname : IsIdentifier name) (hparameters : ∀ parameter ∈ parameters, IsIdentifier parameter)
    (htree : Fits tree (.leaf ⟨.word, name, gap⟩))
    (htrees : List.Forall₂ Fits trees ((parameterInks parameters).map Sketch.leaf))
    (hblock : Fits block (braces items)) :
    ∃ inside closer, List.Forall₂ Fits inside items ∧
      typeMember start last .isClass words (tree :: (trees ++ [block])) =
        { outline := .type ⟨.isClass, words, name, Ink.written (parameterInks parameters)⟩ inside
            closer start } := by
  have hword : isName tree = true := by
    simp [isName, htree.word? rfl, hname.notReserved]
  cases hblock with
  | @group opener closer inside _ _ _ hopener hinside hcloser =>
    have hbrace : opener.isSymbol "\x7b" = true := by
      simp [Token.isSymbol, hopener.kind, hopener.text, Ink.symbol]
    have hread : typeParameters last (trees ++ [Tree.group opener inside closer]) =
        { text := Ink.written (parameterInks parameters),
          rest := [Tree.group opener inside closer] } := by
      refine typeParameters_parameterInks hparameters htrees ?_
      rintro other ⟨⟩
      rfl
    refine ⟨inside, closer.missedLine, hinside, ?_⟩
    simp [typeMember, hword, htree.word? rfl, hread, headRest, hbrace, junkAfterName, opensBody,
      Tree.isGroup, Tree.groupItems?, afterSemicolon]

/-- A class is read with its head as it is written. -/
theorem bodyOf_class {site : Site} {last fuel : Nat} {trees : List Tree}
    {access parameters : List String} {name : String} {items : List Sketch}
    {declarations : List Declaration}
    (haccess : ∀ word ∈ access, Keyword.isReservedModifier word = true)
    (hname : IsIdentifier name) (hparameters : ∀ parameter ∈ parameters, IsIdentifier parameter)
    (h : List.Forall₂ Fits trees (blockSketch (classInks access name parameters) items))
    (hbody : ∀ inner inside, List.Forall₂ Fits inside items →
      bodyOf .body inner fuel inside = { declarations }) :
    bodyOf site last (fuel + 1) trees =
      { declarations := [.type
          ⟨.isClass, access ++ ["partial"], name, Ink.written (parameterInks parameters)⟩
          declarations] } := by
  rw [blockSketch, classInks, List.map_append] at h
  obtain ⟨head, body, rfl, hhead, hbraces⟩ := exists_append_of_forall₂ h
  obtain ⟨block, rfl, hblock⟩ := exists_singleton_of_forall₂ hbraces
  obtain ⟨line, list, rfl, hline, hlist⟩ := exists_append_of_forall₂ hhead
  obtain ⟨before, after, rfl, hbefore, hafter⟩ :=
    exists_append_of_forall₂ (fitWords_lineInks hline)
  obtain ⟨partialTree, rest, ⟨_, hpartial⟩, hrest, rfl⟩ := List.forall₂_cons_right_iff.mp hafter
  obtain ⟨classTree, nameTree, rfl, ⟨_, hclass⟩, ⟨_, htree⟩⟩ := exists_pair_of_forall₂ hrest
  have hmodifiers : modifiers (before ++ partialTree :: classTree :: nameTree :: (list ++ [block])) =
      (access ++ ["partial"], classTree :: nameTree :: (list ++ [block])) := by
    rw [modifiers_append hbefore haccess, modifiers_partial hpartial hclass]
  have hlist' : (before ++ [partialTree, classTree, nameTree]) ++ list ++ [block] =
      before ++ partialTree :: classTree :: nameTree :: (list ++ [block]) := by simp
  have hfirst : ∃ tree rest word gap,
      before ++ partialTree :: classTree :: nameTree :: (list ++ [block]) = tree :: rest ∧
        Fits tree (.leaf ⟨.word, word, gap⟩) := by
    cases hbefore with
    | nil => exact ⟨_, _, _, _, rfl, hpartial⟩
    | cons hword _ =>
      obtain ⟨gap, hword⟩ := hword
      exact ⟨_, _, _, gap, rfl, hword⟩
  obtain ⟨tree, more, word, gap, heq, hword⟩ := hfirst
  obtain ⟨inside, closer, hinside, hmember⟩ :=
    typeMember_class tree.first.line last (access ++ ["partial"]) hname hparameters htree hlist hblock
  have hread : memberOf site last tree more =
      { outline := .type
          ⟨.isClass, access ++ ["partial"], name, Ink.written (parameterInks parameters)⟩ inside
          closer tree.first.line } := by
    rw [memberOf_word hword, ← heq, hmodifiers, declarationMember, typeKind?_class hclass]
    exact hmember
  rw [hlist', heq, bodyOf_type hread (hbody closer inside hinside)]

/-! ## Namespaces -/

/-- A namespace is read with its name. -/
theorem bodyOf_namespace {last fuel : Nat} {trees : List Tree} {name : String}
    {items : List Sketch} {declarations : List Declaration} (hname : IsDottedName name)
    (h : List.Forall₂ Fits trees (blockSketch (spaceInks name) items))
    (hbody : ∀ inner inside, List.Forall₂ Fits inside items →
      bodyOf .body inner fuel inside = { declarations }) :
    bodyOf .file last (fuel + 1) trees = { declarations := [.space name declarations] } := by
  obtain ⟨tree, others, htree, hothers, rfl⟩ := List.forall₂_cons_right_iff.mp h
  obtain ⟨named, body, rfl, hnamed, hbraces⟩ := exists_append_of_forall₂ hothers
  obtain ⟨block, rfl, hblock⟩ := exists_singleton_of_forall₂ hbraces
  cases hblock with
  | @group opener closer inside _ _ _ hopener hinside hcloser =>
    have hbrace : opener.isSymbol "\x7b" = true := by
      simp [Token.isSymbol, hopener.kind, hopener.text, Ink.symbol]
    have hends : Ends [Tree.group opener inside closer] := by
      rintro other ⟨⟩
      have hsquare : opener.isSymbol "[" = false := by
        simp [Token.isSymbol, hopener.text, Ink.symbol]
      exact ⟨fun _ _ => rfl, by simp [Tree.groupItems?, hsquare]⟩
    have hread : TypeName.dotted? last (named ++ [Tree.group opener inside closer]) =
        some ⟨[Tree.group opener inside closer], []⟩ :=
      TypeName.dotted?_dotted hname hends hnamed
    have htext : Tree.text named = name := by
      rw [← written_dotted " " name]
      exact slice_eq_written (Tree.shows_tokensOf_leaves hnamed) fun ink hink =>
        isNeat_dotted hname (Or.inr rfl) ink (List.mem_of_mem_tail hink)
    have hmember : memberOf .file last tree (named ++ [Tree.group opener inside closer]) =
        { outline := .space name inside closer.missedLine } := by
      rw [memberOf_word htree, modifiers_name htree (by decide) (by decide), declarationMember,
        typeKind?_eq_none "namespace" _ (htree.word? rfl) (by decide)]
      simp [htree.isWord, Ink.word, spaceMember, hread, Reading.taken, htext, hbrace,
        afterSemicolon]
    exact bodyOf_space hmember (hbody _ inside hinside)

end Backfield.CSharp.Declaration

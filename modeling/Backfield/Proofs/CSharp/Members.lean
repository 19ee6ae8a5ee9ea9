import Backfield.CSharp.Declaration.Parser
import Backfield.Proofs.CSharp.Names

/-!
# Members, written and read

How the parser reads using directives, namespaces, classes and properties that are written without
anything superfluous.  Each has a list of sketches, and what is read from fitting trees does not
depend on the lines that they are on.
-/

namespace Backfield.CSharp.Declaration

open Backfield.CSharp.Tree (Fits)
open Backfield.CSharp.TypeName (isName Ends)

/-! ## Modifiers -/

/-- The trees show the words, whatever is between them. -/
def FitWords (trees : List Tree) (words : List String) : Prop :=
  List.Forall₂ (fun tree word => ∃ gap, Fits tree (.leaf ⟨.word, word, gap⟩)) trees words

theorem modifiers_name {tree : Tree} {word : String} {gap : Option String}
    (h : Fits tree (.leaf ⟨.word, word, gap⟩)) (hreserved : Keyword.isReservedModifier word = false)
    (hcontextual : Keyword.isContextualModifier word = false) (rest : List Tree) :
    modifiers (tree :: rest) = ([], tree :: rest) := by
  rw [modifiers, h.word? rfl]
  simp [isModifier, hreserved, hcontextual]

theorem modifiers_append {trees rest : List Tree} {words : List String}
    (h : FitWords trees words) (hwords : ∀ word ∈ words, Keyword.isReservedModifier word = true) :
    modifiers (trees ++ rest) = (words ++ (modifiers rest).1, (modifiers rest).2) := by
  induction h with
  | nil => rfl
  | @cons tree word trees words htree _ ih =>
    obtain ⟨gap, htree⟩ := htree
    have hword := hwords word List.mem_cons_self
    rw [List.cons_append, modifiers, htree.word? rfl]
    simp [isModifier, hword, ih fun other hother => hwords other (List.mem_cons_of_mem _ hother)]

theorem modifiers_partial {tree next : Tree} {gap gap' : Option String}
    (h : Fits tree (.leaf ⟨.word, "partial", gap⟩)) (hnext : Fits next (.leaf ⟨.word, "class", gap'⟩))
    (rest : List Tree) : modifiers (tree :: next :: rest) = (["partial"], next :: rest) := by
  have hclass := modifiers_name hnext (by decide) (by decide) rest
  have hmodifier : isModifier "partial" (next :: rest) = true := by
    have hname : isName next = false := by
      rw [isName, hnext.word? rfl]
      rfl
    simp [isModifier, hnext.word? rfl, hname]
    decide
  rw [modifiers, h.word? rfl]
  simp [hmodifier, hclass]

/-- A member that begins with a word has no attributes. -/
theorem memberOf_word {tree : Tree} {word : String} {gap : Option String}
    (h : Fits tree (.leaf ⟨.word, word, gap⟩)) (site : Site) (last : Nat) (rest : List Tree) :
    memberOf site last tree rest =
      declarationMember site tree.first.line last [] (modifiers (tree :: rest)).1
        (modifiers (tree :: rest)).2 := by
  have hsemicolon : ¬tree.isSymbol ";" = true := by simp [h.isSymbol]
  cases h with
  | @leaf t _ ht =>
    have hopen : ¬t.isSymbol "[" = true := by simp [Token.isSymbol, ht.kind]
    have hattributes : attributes last (rest.length + 1) (.leaf t :: rest) =
        { rest := .leaf t :: rest } := by
      rw [attributes, if_neg hopen]
    have hif : ¬((Tree.leaf t).first.kind == .ifMark && !isConditionalAttributes (.leaf t)) =
        true := by
      simp [Tree.first, ht.kind]
    rw [memberOf, if_neg hsemicolon, if_neg hif, hattributes]
    · cases site with
      | file => simp
      | body => simp
    · exact fun _ _ _ heq => by cases heq

/-! ## Bodies -/

/-- A declaration in front of a body. -/
def Body.cons (declaration : Declaration) (body : Body) : Body :=
  { body with declarations := declaration :: body.declarations }

theorem bodyOf_nil (site : Site) (last fuel : Nat) : bodyOf site last fuel [] = {} := by
  cases fuel <;> rfl

/-- A member without a body to be read. -/
theorem bodyOf_plain {site : Site} {last : Nat} {tree : Tree} {rest more : List Tree}
    {declaration : Declaration}
    (h : memberOf site last tree rest = { outline := .plain declaration, rest := more })
    (fuel : Nat) :
    bodyOf site last (fuel + 1) (tree :: rest) =
      (bodyOf site last fuel more).cons declaration := by
  rw [bodyOf, h]
  simp [Body.cons]

/-- A type at the end of a body, whose own body is read without a problem. -/
theorem bodyOf_type {site : Site} {last start inner : Nat} {tree : Tree} {rest items : List Tree}
    {head : TypeHead} {declarations : List Declaration} {fuel : Nat}
    (h : memberOf site last tree rest = { outline := .type head items inner start })
    (hbody : bodyOf .body inner fuel items = { declarations }) :
    bodyOf site last (fuel + 1) (tree :: rest) = { declarations := [.type head declarations] } := by
  rw [bodyOf, h]
  simp [hbody, bodyOf_nil]

/-- A namespace at the end of a body, whose own body is read without a problem. -/
theorem bodyOf_space {site : Site} {last inner : Nat} {tree : Tree} {rest items : List Tree}
    {name : String} {declarations : List Declaration} {fuel : Nat}
    (h : memberOf site last tree rest = { outline := .space name items inner })
    (hbody : bodyOf .body inner fuel items = { declarations }) :
    bodyOf site last (fuel + 1) (tree :: rest) = { declarations := [.space name declarations] } := by
  rw [bodyOf, h]
  simp [hbody, bodyOf_nil]

/-! ## Using directives -/

/-- Words that begin the declaration of a type. -/
def typeWords : List String :=
  ["class", "struct", "interface", "enum", "ref", "delegate", "record"]

theorem typeKind?_eq_none {tree : Tree} (word : String) (rest : List Tree)
    (h : tree.word? = some word) (hword : word ∉ typeWords) : typeKind? (tree :: rest) = none := by
  simp only [typeWords, List.mem_cons, List.not_mem_nil, or_false, not_or] at hword
  obtain ⟨h1, h2, h3, h4, h5, h6, h7⟩ := hword
  unfold typeKind?
  dsimp only
  rw [h]
  split
  all_goals simp_all

/-- What a using directive names: a namespace or a type, or a type under an alias. -/
def namedInks (name : String) : List Ink := dotted " " name

def aliasedInks (name target : String) : List Ink :=
  (Ink.word name).after " " :: (Ink.symbol "=").after " " :: dotted " " target

/-- A using directive around what it names. -/
def usingInks (target : List Ink) : List Ink :=
  Ink.word "using" :: (target ++ [(Ink.symbol ";").after ""])

theorem ends_of_semicolon {tree : Tree} {gap : Option String}
    (h : Fits tree (.leaf ⟨.symbol, ";", gap⟩)) (rest : List Tree) : Ends (tree :: rest) := by
  rintro other ⟨⟩
  refine ⟨fun symbol hsymbol => ?_, h.groupItems? "["⟩
  have hne : ";" ≠ symbol := by
    rintro rfl
    exact absurd hsymbol (by decide)
  simp [h.isSymbol, hne]

theorem memberOf_using {last : Nat} {tree semicolon : Tree} {trees more : List Tree}
    {gap gap' : Option String} (h : Fits tree (.leaf ⟨.word, "using", gap⟩))
    (hsemicolon : Fits semicolon (.leaf ⟨.symbol, ";", gap'⟩)) (hne : trees ≠ [])
    (hfirst : ∀ first ∈ trees.head?, first.isWord "static" = false ∧ first.isWord "unsafe" = false)
    (htarget : usingTarget last (trees ++ semicolon :: more) = some ⟨semicolon :: more, []⟩) :
    memberOf .file last tree (trees ++ semicolon :: more) =
      { outline := .plain (.usingDirective (Tree.text (tree :: (trees ++ [semicolon])))),
        rest := more } := by
  have hwords : afterUsingWords (tree :: (trees ++ semicolon :: more)) =
      some (trees ++ semicolon :: more) := by
    cases trees with
    | nil => exact absurd rfl hne
    | cons first trees =>
      obtain ⟨hstatic, hunsafe⟩ := hfirst first rfl
      simp [afterUsingWords, h.isWord, hstatic, hunsafe]
  have htaken := take_length_sub (tree :: (trees ++ [semicolon])) more
  rw [List.cons_append, List.append_assoc, List.singleton_append] at htaken
  have hmember : usingDirective? last (tree :: (trees ++ semicolon :: more)) =
      some { outline := .plain (.usingDirective (Tree.text (tree :: (trees ++ [semicolon])))),
             rest := more } := by
    rw [usingDirective?, hwords]
    simp only [Option.bind_eq_bind, Option.bind_some]
    rw [htarget]
    simp only [hsemicolon.isSymbol, htaken]
    rfl
  rw [memberOf_word h, modifiers_name h (by decide) (by decide), declarationMember,
    typeKind?_eq_none "using" _ (h.word? rfl) (by decide)]
  dsimp only
  rw [if_neg (by simp [h.isWord]), hmember]

theorem usingTarget_named {last : Nat} {trees more : List Tree} {semicolon : Tree}
    {gap : Option String} {name : String} (hname : IsDottedName name)
    (hsemicolon : Fits semicolon (.leaf ⟨.symbol, ";", gap⟩))
    (h : List.Forall₂ Fits trees ((namedInks name).map Sketch.leaf)) :
    usingTarget last (trees ++ semicolon :: more) = some ⟨semicolon :: more, []⟩ := by
  have hread : TypeName.dotted? last (trees ++ semicolon :: more) = some ⟨semicolon :: more, []⟩ :=
    TypeName.dotted?_dotted hname (ends_of_semicolon hsemicolon more) h
  obtain ⟨first, parts, -, -, hinks⟩ := exists_dotted name
  rw [namedInks, hinks] at h
  obtain ⟨tree, others, htree, hothers, rfl⟩ := List.forall₂_cons_right_iff.mp h
  have hnext : ∃ next rest, others ++ semicolon :: more = next :: rest ∧
      next.isSymbol "=" = false := by
    cases parts with
    | nil =>
      obtain rfl := List.forall₂_nil_right_iff.mp hothers
      exact ⟨semicolon, more, rfl, by simp [hsemicolon.isSymbol]⟩
    | cons part parts =>
      obtain ⟨dot, rest, hdot, -, rfl⟩ := List.forall₂_cons_right_iff.mp hothers
      exact ⟨dot, _, rfl, by simp [hdot.isSymbol, Ink.symbol, Ink.after]⟩
  obtain ⟨next, rest, heq, hequals⟩ := hnext
  rw [List.cons_append, heq] at hread ⊢
  simp [usingTarget, hequals, htree.isSymbol, Ink.word, Ink.after, hread]

theorem usingTarget_aliased {last : Nat} {trees more : List Tree} {semicolon : Tree}
    {gap : Option String} {name target : String} (hname : IsIdentifier name)
    (htarget : IsDottedName target) (hsemicolon : Fits semicolon (.leaf ⟨.symbol, ";", gap⟩))
    (h : List.Forall₂ Fits trees ((aliasedInks name target).map Sketch.leaf)) :
    usingTarget last (trees ++ semicolon :: more) = some ⟨semicolon :: more, []⟩ := by
  obtain ⟨tree, others, htree, hothers, rfl⟩ := List.forall₂_cons_right_iff.mp h
  obtain ⟨equals, rest, hequals, hrest, rfl⟩ := List.forall₂_cons_right_iff.mp hothers
  have hread : TypeName.ofTrees? .lenient last (rest ++ semicolon :: more) =
      some ⟨semicolon :: more, []⟩ :=
    TypeName.ofTrees?_dotted htarget (ends_of_semicolon hsemicolon more) hrest
  have hword : isName tree = true := by
    simp [isName, htree.word? rfl, Ink.word, Ink.after, hname.notReserved]
  simp [usingTarget, hword, hequals.isSymbol, Ink.symbol, Ink.after, hread]

/-- What a using directive may name. -/
structure IsTarget (target : List Ink) : Prop where
  begins : ∃ name rest, target = (Ink.word name).after " " :: rest ∧ IsIdentifier name
  isNeat : ∀ ink ∈ target, ink.IsNeat
  reads : ∀ {last : Nat} {trees more : List Tree} {semicolon : Tree} {gap : Option String},
    Fits semicolon (.leaf ⟨.symbol, ";", gap⟩) →
      List.Forall₂ Fits trees (target.map Sketch.leaf) →
        usingTarget last (trees ++ semicolon :: more) = some ⟨semicolon :: more, []⟩

theorem isTarget_named {name : String} (hname : IsDottedName name) :
    IsTarget (namedInks name) where
  begins := by
    obtain ⟨first, parts, heq, -, hinks⟩ := exists_dotted name
    exact ⟨first, _, hinks " ", hname first (heq ▸ List.mem_cons_self)⟩
  isNeat := isNeat_dotted hname (Or.inr rfl)
  reads := fun hsemicolon h => usingTarget_named hname hsemicolon h

theorem isTarget_aliased {name target : String} (hname : IsIdentifier name)
    (htarget : IsDottedName target) : IsTarget (aliasedInks name target) where
  begins := ⟨name, _, rfl, hname⟩
  isNeat := by
    intro ink hink
    rcases List.mem_cons.mp hink with rfl | hink
    · exact isNeat_word hname (Or.inr rfl)
    · rcases List.mem_cons.mp hink with rfl | hink
      · exact ⟨Or.inr rfl, by decide, visible_of_all (by decide)⟩
      · exact isNeat_dotted htarget (Or.inr rfl) ink hink
  reads := fun hsemicolon h => usingTarget_aliased hname htarget hsemicolon h

/-- A using directive is read as it is written. -/
theorem bodyOf_using {last : Nat} {trees rest : List Tree} {target : List Ink}
    (htarget : IsTarget target)
    (h : List.Forall₂ Fits trees ((usingInks target).map Sketch.leaf)) (fuel : Nat) :
    bodyOf .file last (fuel + 1) (trees ++ rest) =
      (bodyOf .file last fuel rest).cons (.usingDirective (Ink.written (usingInks target))) := by
  have htext : Tree.text trees = Ink.written (usingInks target) := by
    refine slice_eq_written (Tree.shows_tokensOf_leaves h) fun ink hink => ?_
    rcases List.mem_append.mp hink with hink | hink
    · exact htarget.isNeat ink hink
    · rw [List.mem_singleton.mp hink]
      exact ⟨Or.inl rfl, by decide, visible_of_all (by decide)⟩
  obtain ⟨tree, others, htree, hothers, rfl⟩ := List.forall₂_cons_right_iff.mp h
  rw [List.map_append] at hothers
  obtain ⟨named, ending, rfl, hnamed, hending⟩ := exists_append_of_forall₂ hothers
  obtain ⟨semicolon, rfl, hsemicolon⟩ := exists_singleton_of_forall₂ hending
  have hread : usingTarget last (named ++ semicolon :: rest) = some ⟨semicolon :: rest, []⟩ :=
    htarget.reads hsemicolon hnamed
  obtain ⟨name, more, rfl, hname⟩ := htarget.begins
  obtain ⟨first, named, hfirst, -, rfl⟩ := List.forall₂_cons_right_iff.mp hnamed
  have hbegins : ∀ t ∈ (first :: named).head?,
      t.isWord "static" = false ∧ t.isWord "unsafe" = false := by
    rintro t ⟨⟩
    have hstatic : name ≠ "static" := hname.ne_of_isReserved (by decide)
    have hunsafe : name ≠ "unsafe" := hname.ne_of_isReserved (by decide)
    simp [hfirst.isWord, Ink.word, Ink.after, hstatic, hunsafe]
  have hmember := memberOf_using htree hsemicolon (List.cons_ne_nil first named) hbegins hread
  have hlist : tree :: (first :: named ++ [semicolon]) ++ rest =
      tree :: (first :: named ++ semicolon :: rest) := by simp
  rw [hlist, bodyOf_plain hmember, htext]

end Backfield.CSharp.Declaration

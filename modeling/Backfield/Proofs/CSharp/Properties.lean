import Backfield.Proofs.CSharp.Blocks

/-!
# Properties, written and read

How the parser reads a property whose getter gives a field and whose setter calls a method: as a
member that is not looked into, with nothing wrong in its accessors.

* `accessorProblems_accessors` and `problemsOf_accessors` look into the braces.
* `bodyOf_property` is the result.
-/

namespace Backfield.CSharp.Declaration

open Backfield.CSharp.Tree (Fits)
open Backfield.CSharp.TypeName (isName Ends)
open Backfield.CSharp.Statements (extend isBareValue isAccessorStart accessorWords headWords
  problemsOf problemsOfTree problemsOfMember)

/-! ## Accessors -/

/-- The first two trees of an accessor that gives a value. -/
def accessorInks (name : String) : List Ink := [Ink.word name, (Ink.symbol "=>").after " "]

/-- The call of a method. -/
def callInks (method : String) : List Ink :=
  [(Ink.word "this").after " ", (Ink.symbol ".").after "", (Ink.word method).after ""]

/-- Arguments of the call: a field and the new value. -/
def argumentInks (field : String) : List Ink :=
  [(Ink.word "ref").after "", (Ink.word field).after " ", (Ink.symbol ",").after "",
    (Ink.word "value").after " "]

def stopInk : Ink := (Ink.symbol ";").after ""

/-- A getter that gives a field, and a setter that calls a method. -/
def accessorSketch (method field : String) : List Sketch :=
  (accessorInks "get" ++ [(Ink.word field).after " ", stopInk]).map Sketch.leaf ++
    ((accessorInks "set" ++ callInks method).map Sketch.leaf ++
      [.group ((Ink.symbol "(").after "") ((argumentInks field).map Sketch.leaf)
        ((Ink.symbol ")").after ""), .leaf stopInk])

/-- An expression: no tree of it ends an accessor. -/
theorem accessorProblems_giving {last : Nat} {trees : List Tree} {stop : Tree} (rest : List Tree)
    (htrees : ∀ tree ∈ trees, tree.isSymbol ";" = false) (hstop : Fits stop (.leaf stopInk)) :
    accessorProblems last .giving (trees ++ stop :: rest) = accessorProblems last .before rest := by
  induction trees with
  | nil => simp [accessorProblems, hstop.isSymbol, stopInk, Ink.symbol, Ink.after]
  | cons tree trees ih =>
    have hrest := ih fun other hother => htrees other (List.mem_cons_of_mem _ hother)
    simp [accessorProblems, htrees tree List.mem_cons_self, hrest]

theorem accessorProblems_accessor {last : Nat} {trees : List Tree} {name : String} (rest : List Tree)
    (hname : name ∈ accessorWords) (hplain : Keyword.isReservedModifier name = false)
    (h : List.Forall₂ Fits trees ((accessorInks name).map Sketch.leaf)) :
    accessorProblems last .before (trees ++ rest) = accessorProblems last .giving rest := by
  obtain ⟨tree, arrow, rfl, htree, harrow⟩ := exists_pair_of_forall₂ h
  have hif : ¬tree.first.kind = .ifMark := by
    cases htree with
    | leaf ht => simp [Tree.first, ht.kind, Ink.word]
  simp [accessorProblems, htree.isGroup, htree.word? rfl, hif, hplain, hname, harrow.isSymbol,
    harrow.isGroup, Ink.word, Ink.symbol, Ink.after]

/-- The ink is a piece of an expression. -/
def IsPart (ink : Ink) : Prop := ink.kind ≠ .ifMark ∧ ink.text ≠ ";" ∧ ink.text ≠ ":"

/-- A leaf that ends no statement becomes a part of it. -/
theorem problemsOf_leaf {block : Bool} {last : Nat} {before rest : List Tree} {tree : Tree}
    {ink : Ink} (h : Fits tree (.leaf ink)) (hink : IsPart ink) :
    problemsOf block last before (tree :: rest) = problemsOf block last (extend before tree) rest := by
  obtain ⟨hkind, hsemicolon, hcolon⟩ := hink
  have hif : ¬(tree.first.kind == .ifMark) = true := by
    cases h with
    | leaf ht => simpa [Tree.first, ht.kind] using hkind
  have htree : problemsOfTree false tree = [] := by
    cases h with
    | leaf => rfl
  rw [problemsOf]
  simp [h.isSymbol, h.isGroup, hsemicolon, hcolon, hif, htree]

theorem problemsOf_stop {block : Bool} {last : Nat} {before rest : List Tree} {stop : Tree}
    (hstop : Fits stop (.leaf stopInk)) (hbefore : 2 ≤ before.length) :
    problemsOf block last before (stop :: rest) = problemsOf block last [] rest := by
  have hbare : isBareValue before = false := by
    match before with
    | _ :: _ :: _ => rfl
  rw [problemsOf]
  simp [hstop.isSymbol, stopInk, Ink.symbol, Ink.after, hbare]

/-- The statement so far begins with an arrow. -/
def BeginsWithArrow (before : List Tree) : Prop :=
  ∃ front arrow, before = front ++ [arrow] ∧ Fits arrow (.leaf ((Ink.symbol "=>").after " "))

theorem BeginsWithArrow.append {before : List Tree} (h : BeginsWithArrow before)
    (trees : List Tree) : BeginsWithArrow (trees ++ before) := by
  obtain ⟨front, arrow, rfl, harrow⟩ := h
  exact ⟨trees ++ front, arrow, (List.append_assoc _ _ _).symm, harrow⟩

theorem BeginsWithArrow.extend {before : List Tree} (h : BeginsWithArrow before) {tree : Tree}
    {ink : Ink} (ht : Fits tree (.leaf ink)) : extend before tree = tree :: before := by
  obtain ⟨front, arrow, rfl, harrow⟩ := h
  have hstart : isAccessorStart (front ++ [arrow]) = false := by
    have hword : arrow.word? = none := by
      cases harrow with
      | leaf ha => simp [Tree.word?, Tree.token?, ha.kind, Ink.symbol, Ink.after]
    simp [isAccessorStart, hword, harrow.isGroup]
  have hempty : (front ++ [arrow]).isEmpty = false := by simp
  simp [Statements.extend, ht.isGroup, hstart, hempty]

/-- The parts of an expression are all of one statement. -/
theorem problemsOf_parts (block : Bool) (last : Nat) {before trees : List Tree} {inks : List Ink}
    (rest : List Tree) (hbefore : BeginsWithArrow before) (hinks : ∀ ink ∈ inks, IsPart ink)
    (h : List.Forall₂ Fits trees (inks.map Sketch.leaf)) :
    problemsOf block last before (trees ++ rest) =
      problemsOf block last (trees.reverse ++ before) rest := by
  induction inks generalizing trees before with
  | nil =>
    obtain rfl := List.forall₂_nil_right_iff.mp h
    rfl
  | cons ink inks ih =>
    obtain ⟨tree, others, htree, hothers, rfl⟩ := List.forall₂_cons_right_iff.mp h
    have hmore : BeginsWithArrow (tree :: before) := hbefore.append [tree]
    rw [List.cons_append, problemsOf_leaf htree (hinks ink List.mem_cons_self),
      hbefore.extend htree,
      ih hmore (fun other hother => hinks other (List.mem_cons_of_mem _ hother)) hothers]
    simp

/-- Nothing is wrong within parentheses that hold no group. -/
theorem problemsOf_leaves {last : Nat} {before trees : List Tree} {inks : List Ink}
    (hinks : ∀ ink ∈ inks, IsPart ink) (h : List.Forall₂ Fits trees (inks.map Sketch.leaf)) :
    problemsOf false last before trees = [] := by
  induction inks generalizing trees before with
  | nil =>
    obtain rfl := List.forall₂_nil_right_iff.mp h
    rw [problemsOf]
    rfl
  | cons ink inks ih =>
    obtain ⟨tree, others, htree, hothers, rfl⟩ := List.forall₂_cons_right_iff.mp h
    rw [problemsOf_leaf htree (hinks ink List.mem_cons_self)]
    exact ih (fun other hother => hinks other (List.mem_cons_of_mem _ hother)) hothers

/-- The word of an accessor is no part of the statement after it. -/
theorem problemsOf_accessor (block : Bool) (last : Nat) {trees : List Tree} {name : String}
    (rest : List Tree) (hname : name ∈ accessorWords) (hink : IsPart (Ink.word name))
    (h : List.Forall₂ Fits trees ((accessorInks name).map Sketch.leaf)) :
    ∃ arrow, BeginsWithArrow [arrow] ∧
      problemsOf block last [] (trees ++ rest) = problemsOf block last [arrow] rest := by
  obtain ⟨tree, arrow, rfl, htree, harrow⟩ := exists_pair_of_forall₂ h
  have hword : extend [] tree = [] := by
    simp [Statements.extend, htree.word? rfl, Ink.word, hname, isAccessorStart]
  have harrowWord : arrow.word? = none := by
    cases harrow with
    | leaf ha => simp [Tree.word?, Tree.token?, ha.kind, Ink.symbol, Ink.after]
  have hextend : extend [] arrow = [arrow] := by
    simp [Statements.extend, harrow.isGroup, harrowWord]
  refine ⟨arrow, ⟨[], arrow, rfl, harrow⟩, ?_⟩
  have hpart : IsPart ((Ink.symbol "=>").after " ") := ⟨by decide, by decide, by decide⟩
  rw [List.cons_append, List.cons_append, List.nil_append, problemsOf_leaf htree hink, hword,
    problemsOf_leaf harrow hpart, hextend]

theorem isPart_identifier {name : String} (h : IsIdentifier name) (gap : Option String) :
    IsPart ⟨.word, name, gap⟩ := by
  have hsymbol : ∀ c : Char, Lexeme.isNameChar c = false → name ≠ String.ofList [c] := by
    rintro c hc rfl
    have hname := h.isWord.isNameChar c (by simp)
    rw [hc] at hname
    cases hname
  exact ⟨nofun, hsymbol ';' (by decide), hsymbol ':' (by decide)⟩

/-- Parentheses after a name are the arguments of a call. -/
theorem problemsOf_arguments {block : Bool} {last : Nat} {before rest : List Tree}
    {call arguments : Tree} {method field : String} {gap : Option String}
    (hmethod : IsIdentifier method) (hfield : IsIdentifier field)
    (hcall : Fits call (.leaf ⟨.word, method, gap⟩)) (hbefore : BeginsWithArrow before)
    (h : Fits arguments (.group ((Ink.symbol "(").after "")
      ((argumentInks field).map Sketch.leaf) ((Ink.symbol ")").after ""))) :
    problemsOf block last (call :: before) (arguments :: rest) =
      problemsOf block last (arguments :: call :: before) rest := by
  have hparts : ∀ ink ∈ argumentInks field, IsPart ink := by
    intro ink hink
    simp only [argumentInks, List.mem_cons, List.not_mem_nil, or_false] at hink
    rcases hink with rfl | rfl | rfl | rfl
    · exact ⟨by decide, by decide, by decide⟩
    · exact isPart_identifier hfield _
    · exact ⟨by decide, by decide, by decide⟩
    · exact ⟨by decide, by decide, by decide⟩
  have hhead : method ∉ headWords := by
    have hall : (headWords.all Keyword.isReserved) = true := by decide
    intro hmem
    exact hmethod.ne_of_isReserved (List.all_eq_true.mp hall method hmem) rfl
  obtain ⟨front, arrow, rfl, harrow⟩ := hbefore
  cases h with
  | @group opener closer items _ _ _ hopener hitems hcloser =>
    have hbrace : opener.isSymbol "\x7b" = false := by
      simp [Token.isSymbol, hopener.text, Ink.symbol, Ink.after]
    have hinside : problemsOf false closer.missedLine [] items = [] :=
      problemsOf_leaves hparts hitems
    have hextend : extend (call :: (front ++ [arrow])) (.group opener items closer) =
        .group opener items closer :: call :: (front ++ [arrow]) := by
      have hcallWord : call.word? = some method := hcall.word? rfl
      have hgroup : (Tree.group opener items closer).word? = none := rfl
      simp [Statements.extend, hgroup, hcallWord, hhead, harrow.isWord, Ink.symbol, Ink.after,
        List.getLast?_cons]
    rw [problemsOf]
    simp [Tree.isSymbol, Tree.token?, Tree.isGroup, Tree.groupItems?, hbrace, Tree.first,
      hopener.kind, Ink.symbol, Ink.after, problemsOfTree, hinside, hextend]

/-- The trees of both accessors. -/
theorem exists_accessorTrees {trees : List Tree} {method field : String}
    (h : List.Forall₂ Fits trees (accessorSketch method field)) :
    ∃ get value stop set call arguments stop',
      trees = get ++ (value :: stop :: (set ++ (call ++ [arguments, stop']))) ∧
      List.Forall₂ Fits get ((accessorInks "get").map Sketch.leaf) ∧
      Fits value (.leaf ((Ink.word field).after " ")) ∧ Fits stop (.leaf stopInk) ∧
      List.Forall₂ Fits set ((accessorInks "set").map Sketch.leaf) ∧
      List.Forall₂ Fits call ((callInks method).map Sketch.leaf) ∧
      Fits arguments (.group ((Ink.symbol "(").after "")
        ((argumentInks field).map Sketch.leaf) ((Ink.symbol ")").after "")) ∧
      Fits stop' (.leaf stopInk) := by
  obtain ⟨getter, setter, rfl, hgetter, hsetter⟩ := exists_append_of_forall₂ h
  rw [List.map_append] at hgetter hsetter
  obtain ⟨get, ending, rfl, hget, hending⟩ := exists_append_of_forall₂ hgetter
  obtain ⟨value, stop, rfl, hvalue, hstop⟩ := exists_pair_of_forall₂ hending
  obtain ⟨front, back, rfl, hfront, hback⟩ := exists_append_of_forall₂ hsetter
  obtain ⟨set, call, rfl, hset, hcall⟩ := exists_append_of_forall₂ hfront
  obtain ⟨arguments, stop', rfl, harguments, hstop'⟩ := exists_pair_of_forall₂ hback
  exact ⟨get, value, stop, set, call, arguments, stop', by simp, hget, hvalue, hstop, hset, hcall,
    harguments, hstop'⟩

theorem isPart_callInks {method : String} (hmethod : IsIdentifier method) :
    ∀ ink ∈ callInks method, IsPart ink := by
  intro ink hink
  simp only [callInks, List.mem_cons, List.not_mem_nil, or_false] at hink
  rcases hink with rfl | rfl | rfl
  · exact ⟨by decide, by decide, by decide⟩
  · exact ⟨by decide, by decide, by decide⟩
  · exact isPart_identifier hmethod _

/-- The accessors of a property can be read. -/
theorem accessorProblems_accessors {last : Nat} {trees : List Tree} {method field : String}
    (hmethod : IsIdentifier method) (hfield : IsIdentifier field)
    (h : List.Forall₂ Fits trees (accessorSketch method field)) :
    accessorProblems last .before trees = [] := by
  obtain ⟨get, value, stop, set, call, arguments, stop', rfl, hget, hvalue, hstop, hset, hcall,
    harguments, hstop'⟩ := exists_accessorTrees h
  have hnone : ∀ {tree : Tree} {ink : Ink}, IsPart ink → Fits tree (.leaf ink) →
      tree.isSymbol ";" = false := fun hink htree => by simp [htree.isSymbol, hink.2.1]
  have hvalueNone : ∀ tree ∈ [value], tree.isSymbol ";" = false := by
    intro tree htree
    rw [List.mem_singleton.mp htree]
    exact hnone (isPart_identifier hfield _) hvalue
  have hcallNone : ∀ tree ∈ call ++ [arguments], tree.isSymbol ";" = false := by
    intro tree htree
    rcases List.mem_append.mp htree with htree | htree
    · exact Tree.forall_mem_of_leaves hcall
        (fun other ink hink hother => hnone (isPart_callInks hmethod ink hink) hother) tree htree
    · rw [List.mem_singleton.mp htree]
      cases harguments with
      | group => rfl
  calc accessorProblems last .before
        (get ++ (value :: stop :: (set ++ (call ++ [arguments, stop']))))
    _ = accessorProblems last .giving
          ([value] ++ stop :: (set ++ (call ++ [arguments, stop']))) :=
        accessorProblems_accessor _ (by decide) (by decide) hget
    _ = accessorProblems last .before (set ++ (call ++ [arguments, stop'])) :=
        accessorProblems_giving _ hvalueNone hstop
    _ = accessorProblems last .giving (call ++ [arguments, stop']) :=
        accessorProblems_accessor _ (by decide) (by decide) hset
    _ = accessorProblems last .giving ((call ++ [arguments]) ++ stop' :: []) := by simp
    _ = accessorProblems last .before [] := accessorProblems_giving _ hcallNone hstop'
    _ = [] := rfl

/-- The accessors of a property lack no semicolon. -/
theorem problemsOf_accessors {last : Nat} {trees : List Tree} {method field : String}
    (hmethod : IsIdentifier method) (hfield : IsIdentifier field)
    (h : List.Forall₂ Fits trees (accessorSketch method field)) :
    problemsOf true last [] trees = [] := by
  obtain ⟨get, value, stop, set, call, arguments, stop', rfl, hget, hvalue, hstop, hset, hcall,
    harguments, hstop'⟩ := exists_accessorTrees h
  have hparts : ∀ ink ∈ [(Ink.word field).after " "], IsPart ink := by
    intro ink hink
    rw [List.mem_singleton.mp hink]
    exact isPart_identifier hfield _
  obtain ⟨arrow, harrow, hgetRead⟩ := problemsOf_accessor true last
    ([value] ++ stop :: (set ++ (call ++ [arguments, stop']))) (by decide)
    ⟨by decide, by decide, by decide⟩ hget
  obtain ⟨arrow', harrow', hsetRead⟩ := problemsOf_accessor true last
    (call ++ [arguments, stop']) (by decide) ⟨by decide, by decide, by decide⟩ hset
  have hcallRead :=
    problemsOf_parts true last [arguments, stop'] harrow' (isPart_callInks hmethod) hcall
  obtain ⟨this, rest, -, hcalled, rfl⟩ := List.forall₂_cons_right_iff.mp hcall
  obtain ⟨dot, name, rfl, -, hname⟩ := exists_pair_of_forall₂ hcalled
  calc problemsOf true last [] (get ++ (value :: stop :: (set ++ ([this, dot, name] ++
        [arguments, stop']))))
    _ = problemsOf true last [arrow] ([value] ++ stop :: (set ++ ([this, dot, name] ++
          [arguments, stop']))) := hgetRead
    _ = problemsOf true last [value, arrow] (stop :: (set ++ ([this, dot, name] ++
          [arguments, stop']))) :=
        problemsOf_parts true last _ harrow hparts (List.Forall₂.cons hvalue List.Forall₂.nil)
    _ = problemsOf true last [] (set ++ ([this, dot, name] ++ [arguments, stop'])) :=
        problemsOf_stop hstop (Nat.le_refl 2)
    _ = problemsOf true last [arrow'] ([this, dot, name] ++ [arguments, stop']) := hsetRead
    _ = problemsOf true last [name, dot, this, arrow'] [arguments, stop'] := hcallRead
    _ = problemsOf true last [arguments, name, dot, this, arrow'] [stop'] :=
        problemsOf_arguments hmethod hfield hname (harrow'.append [dot, this]) harguments
    _ = problemsOf true last [] [] := problemsOf_stop hstop' (by simp)
    _ = [] := by rw [problemsOf]; rfl

/-! ## Members with accessors -/

/-- The tree is a word or a dot. -/
def IsHeadTree (tree : Tree) : Prop :=
  ∃ ink : Ink, Fits tree (.leaf ink) ∧ (ink.kind = .word ∨ ink.text = ".")

theorem IsHeadTree.isSymbol {tree : Tree} (h : IsHeadTree tree) {symbol : String}
    (hsymbol : symbol ≠ ".") : tree.isSymbol symbol = false := by
  obtain ⟨ink, hfits, hkind | htext⟩ := h
  · simp [hfits.isSymbol, hkind]
  · simp [hfits.isSymbol, htext, hsymbol.symm]

theorem IsHeadTree.opensBody {tree : Tree} (h : IsHeadTree tree) : opensBody tree = false := by
  obtain ⟨ink, hfits, -⟩ := h
  cases hfits with
  | leaf => rfl

theorem isHeadTree_dotted {gap name : String} {trees : List Tree}
    (h : List.Forall₂ Fits trees ((dotted gap name).map Sketch.leaf)) :
    ∀ tree ∈ trees, IsHeadTree tree := by
  have hparts : ∀ parts, ∀ ink ∈ dotParts parts, ink.kind = .word ∨ ink.text = "." := by
    intro parts
    induction parts with
    | nil => exact fun ink hink => absurd hink List.not_mem_nil
    | cons part rest ih =>
      intro ink hink
      rcases List.mem_cons.mp hink with rfl | hink
      · exact Or.inr rfl
      · rcases List.mem_cons.mp hink with rfl | hink
        · exact Or.inl rfl
        · exact ih ink hink
  obtain ⟨first, rest, -, -, hinks⟩ := exists_dotted name
  refine Tree.forall_mem_of_leaves h fun tree ink hink htree => ⟨ink, htree, ?_⟩
  rw [hinks] at hink
  rcases List.mem_cons.mp hink with rfl | hink
  · exact Or.inl rfl
  · exact hparts rest ink hink

variable {head : List Tree} {opener closer : Token} {items rest : List Tree}

theorem opensBody_group (hopener : opener.isSymbol "\x7b" = true) :
    opensBody (.group opener items closer) = true := by
  simp [opensBody, Tree.isGroup, Tree.groupItems?, hopener]

theorem memberHead_append (hhead : ∀ tree ∈ head, IsHeadTree tree)
    (hopener : opener.isSymbol "\x7b" = true) :
    memberHead (head ++ .group opener items closer :: rest) = head := by
  rw [memberHead, List.takeWhile_append_of_pos,
    List.takeWhile_cons_of_neg (by simp [opensBody_group hopener]), List.append_nil]
  intro tree htree
  have h := hhead tree htree
  simp [h.isSymbol, h.opensBody]

theorem afterMember_append (hhead : ∀ tree ∈ head, IsHeadTree tree)
    (hopener : opener.isSymbol "\x7b" = true)
    (hrest : ∀ tree ∈ rest.head?, tree.isSymbol "=" = false) :
    afterMember false (head ++ .group opener items closer :: rest) = (rest, .closed) := by
  induction head with
  | nil =>
    have hnone : rest.head?.any (·.isSymbol "=") = false := by
      cases rest with
      | nil => rfl
      | cons tree rest => exact hrest tree rfl
    simp [afterMember, hopener, hnone]
  | cons tree head ih =>
    have h := hhead tree List.mem_cons_self
    have hmore := ih fun other hother => hhead other (List.mem_cons_of_mem _ hother)
    obtain ⟨ink, hfits, -⟩ := id h
    cases hfits with
    | @leaf t _ ht =>
      have hno : ∀ symbol, symbol ≠ "." → t.isSymbol symbol = false := fun symbol hsymbol =>
        h.isSymbol hsymbol
      simp [afterMember, hno, hmore]

theorem problemsOfMember_append {before : List Tree}
    (hbefore : ∀ tree ∈ before, IsHeadTree tree) (hhead : ∀ tree ∈ head, IsHeadTree tree)
    (hopener : opener.isSymbol "\x7b" = true)
    (hitems : problemsOf true closer.missedLine [] items = []) :
    problemsOfMember before (head ++ [.group opener items closer]) = [] := by
  induction head generalizing before with
  | nil =>
    have hnone : (before.any fun t => t.isSymbol "=" || t.isSymbol "=>") = false := by
      rw [List.any_eq_false]
      intro tree htree
      simp [(hbefore tree htree).isSymbol]
    simp [problemsOfMember, Tree.isGroup, Tree.groupItems?, hopener, hnone, problemsOfTree, hitems]
  | cons tree head ih =>
    have hbefore' : ∀ other ∈ tree :: before, IsHeadTree other := by
      intro other hother
      rcases List.mem_cons.mp hother with rfl | hother
      · exact hhead _ List.mem_cons_self
      · exact hbefore other hother
    have hmore := ih hbefore' fun other hother => hhead other (List.mem_cons_of_mem _ hother)
    obtain ⟨ink, hfits, -⟩ := hhead tree List.mem_cons_self
    cases hfits with
    | leaf => simpa [problemsOfMember, problemsOfTree] using hmore

/-! ## Properties -/

/-- What is written before the accessors of a property. -/
def propertyInks (access : List String) (type name : String) : List Ink :=
  lineInks access ++ (dotted " " type ++ [(Ink.word name).after " "])

section Member

variable {trees : List Tree} {tree : Tree} {gap : Option String}
  {type name method field : String}

/-- No type goes on into the braces of a property. -/
theorem ends_group (hopener : opener.isSymbol "\x7b" = true) :
    Ends (.group opener items closer :: rest) := by
  rintro other ⟨⟩
  have hsquare : opener.isSymbol "[" = false := by
    simp only [Token.isSymbol, Bool.and_eq_true, beq_iff_eq] at hopener
    simp [Token.isSymbol, hopener.2]
  exact ⟨fun _ _ => rfl, by simp [Tree.groupItems?, hsquare]⟩

/-- The type of a property is read up to its name. -/
theorem ofTrees?_typed (mode : TypeName.Mode) (last : Nat) (rest : List Tree)
    (htype : IsDottedName type)
    (htrees : List.Forall₂ Fits trees ((dotted " " type).map Sketch.leaf))
    (htree : Fits tree (.leaf ⟨.word, name, gap⟩)) :
    TypeName.ofTrees? mode last (trees ++ tree :: rest) = some ⟨tree :: rest, []⟩ := by
  refine TypeName.ofTrees?_dotted htype ?_ htrees
  rintro other ⟨⟩
  exact ⟨fun symbol _ => by simp [htree.isSymbol], htree.groupItems? "["⟩

theorem isProperty_typed (last : Nat) (htype : IsDottedName type) (hname : IsIdentifier name)
    (htrees : List.Forall₂ Fits trees ((dotted " " type).map Sketch.leaf))
    (htree : Fits tree (.leaf ⟨.word, name, gap⟩)) (hopener : opener.isSymbol "\x7b" = true) :
    isProperty last (trees ++ tree :: .group opener items closer :: rest) = true := by
  have hdotted : TypeName.dotted? last (tree :: .group opener items closer :: rest) =
      some ⟨.group opener items closer :: rest, []⟩ :=
    TypeName.name?_dotParts (fun _ h => absurd h List.not_mem_nil) (ends_group hopener)
      List.Forall₂.nil _ (Nat.zero_le _) hname htree
  simp [isProperty, ofTrees?_typed _ last _ htype htrees htree, hdotted, opensBody_group hopener]

/-- A type names something, so that no name is missed after a keyword. -/
theorem missingNames_dotted (last : Nat) (rest : List Tree) (htype : IsDottedName type)
    (htrees : List.Forall₂ Fits trees ((dotted " " type).map Sketch.leaf)) :
    missingNames last (trees ++ rest) = [] := by
  obtain ⟨first, begin, others, hfirst, rfl, hbegin⟩ := TypeName.exists_first_dotted htype htrees
  have hevent : first ≠ "event" := hfirst.ne_of_isReserved (by decide)
  rw [List.cons_append]
  cases others ++ rest with
  | nil => rfl
  | cons next more => simp [missingNames, hbegin.word? rfl, hbegin.isWord, hfirst.isType, hevent]

theorem accessorListProblems_accessors {last : Nat}
    (hhead : ∀ tree ∈ head, IsHeadTree tree) (hopener : opener.isSymbol "\x7b" = true)
    (hmethod : IsIdentifier method) (hfield : IsIdentifier field)
    (hitems : List.Forall₂ Fits items (accessorSketch method field))
    (hproperty : isProperty last (head ++ .group opener items closer :: rest) = true) :
    accessorListProblems last (head ++ .group opener items closer :: rest) = [] := by
  have hdrop : (head ++ .group opener items closer :: rest).drop head.length =
      .group opener items closer :: rest := List.drop_left
  rw [accessorListProblems, hproperty, memberHead_append hhead hopener]
  simp only [Bool.true_or, if_true]
  rw [hdrop]
  simp [hopener, accessorProblems_accessors hmethod hfield hitems]

/-- What comes after the accessors is left. -/
theorem skipped_accessors (start last : Nat) (hhead : ∀ tree ∈ head, IsHeadTree tree)
    (hopener : opener.isSymbol "\x7b" = true) (hmethod : IsIdentifier method)
    (hfield : IsIdentifier field)
    (hitems : List.Forall₂ Fits items (accessorSketch method field))
    (hrest : ∀ tree ∈ rest.head?, tree.isSymbol "=" = false) :
    skipped start last (head ++ .group opener items closer :: rest) = { rest } := by
  have htaken := take_length_sub (head ++ [.group opener items closer]) rest
  rw [List.append_assoc, List.singleton_append] at htaken
  rw [skipped, afterMember_append hhead hopener hrest]
  simp only [htaken]
  rw [problemsOfMember_append (fun _ h => absurd h List.not_mem_nil) hhead hopener
    (problemsOf_accessors hmethod hfield hitems)]

/-- A member is passed over that is a property with these accessors. -/
theorem plainMember_property (start last : Nat) (htype : IsDottedName type)
    (hname : IsIdentifier name) (hmethod : IsIdentifier method) (hfield : IsIdentifier field)
    (htrees : List.Forall₂ Fits trees ((dotted " " type).map Sketch.leaf))
    (htree : Fits tree (.leaf ⟨.word, name, gap⟩))
    (hopener : opener.isSymbol "\x7b" = true)
    (hitems : List.Forall₂ Fits items (accessorSketch method field))
    (hrest : ∀ tree ∈ rest.head?, tree.isSymbol "=" = false) :
    plainMember start last [] (trees ++ tree :: .group opener items closer :: rest) =
      { rest } := by
  have hread := fun mode => ofTrees?_typed mode last (.group opener items closer :: rest) htype
    htrees htree
  have hproperty : isProperty last (trees ++ tree :: .group opener items closer :: rest) = true :=
    isProperty_typed last htype hname htrees htree hopener
  have hafter : afterType (tree :: .group opener items closer :: rest) = .otherMember := by
    have hword : isName tree = true := by simp [isName, htree.word? rfl, hname.notReserved]
    simp [afterType, hword, continuesField, opensBody_group hopener]
  have hmissing := missingNames_dotted last (tree :: .group opener items closer :: rest) htype
    htrees
  have hhead : ∀ other ∈ trees ++ [tree], IsHeadTree other := by
    intro other hother
    rcases List.mem_append.mp hother with hother | hother
    · exact isHeadTree_dotted htrees other hother
    · rw [List.mem_singleton.mp hother]
      exact ⟨_, htree, Or.inl rfl⟩
  have hlist : trees ++ tree :: .group opener items closer :: rest =
      (trees ++ [tree]) ++ .group opener items closer :: rest := by simp
  have haccessors : accessorListProblems last
      (trees ++ tree :: .group opener items closer :: rest) = [] := by
    rw [hlist] at hproperty ⊢
    exact accessorListProblems_accessors hhead hopener hmethod hfield hitems hproperty
  have hskipped : skipped start last (trees ++ tree :: .group opener items closer :: rest) =
      { rest } := by
    rw [hlist]
    exact skipped_accessors start last hhead hopener hmethod hfield hitems hrest
  simp [plainMember, hread, hafter, hproperty, hmissing, haccessors, hskipped]

end Member

theorem not_mem_typeWords {name : String} (h : IsIdentifier name) : name ∉ typeWords := by
  have hall : (typeWords.all fun word => Keyword.isReserved word || word == "record") = true := by
    decide
  intro hmem
  have hword := List.all_eq_true.mp hall name hmem
  rw [h.notReserved, Bool.false_or, beq_iff_eq] at hword
  exact h.ne_of_mem_leading (by decide) hword

theorem isModifier_eq_false {name : String} (h : IsIdentifier name) :
    Keyword.isReservedModifier name = false ∧ Keyword.isContextualModifier name = false := by
  have hreserved := h.notReserved
  simp only [Keyword.isReserved, Bool.or_eq_false_iff] at hreserved
  have hall : (Keyword.contextualModifiers.all Keyword.leading.contains) = true := by decide
  refine ⟨hreserved.1.2, Bool.eq_false_iff.mpr fun hmodifier => h.notLeading ?_⟩
  have hmem := List.all_eq_true.mp hall name (List.contains_iff_mem.mp hmodifier)
  exact List.contains_iff_mem.mp hmem

theorem modifiers_dotted {trees : List Tree} {gap type : String} (rest : List Tree)
    (htype : IsDottedName type)
    (h : List.Forall₂ Fits trees ((dotted gap type).map Sketch.leaf)) :
    modifiers (trees ++ rest) = ([], trees ++ rest) := by
  obtain ⟨first, tree, others, hfirst, rfl, htree⟩ := TypeName.exists_first_dotted htype h
  obtain ⟨hreserved, hcontextual⟩ := isModifier_eq_false hfirst
  exact modifiers_name htree hreserved hcontextual _

/-- A declaration that begins with a dotted name is neither a type nor a namespace nor a using
directive. -/
theorem declarationMember_dotted (start last : Nat) (words : List String) {trees : List Tree}
    {gap type : String} (rest : List Tree) (htype : IsDottedName type)
    (h : List.Forall₂ Fits trees ((dotted gap type).map Sketch.leaf)) :
    declarationMember .body start last [] words (trees ++ rest) =
      plainMember start last [] (trees ++ rest) := by
  obtain ⟨first, tree, others, hfirst, rfl, htree⟩ := TypeName.exists_first_dotted htype h
  have hno : ∀ word, first ≠ word → tree.isWord word = false := fun word hne => by
    simp [htree.isWord, hne]
  have husing : usingDirective? last (tree :: (others ++ rest)) = none := by
    have hwords : afterUsingWords (tree :: (others ++ rest)) = none := by
      simp [afterUsingWords, hno "global" (hfirst.ne_of_mem_leading (by decide)),
        hno "using" (hfirst.ne_of_isReserved (by decide))]
    rw [usingDirective?, hwords]
    rfl
  rw [List.cons_append, declarationMember,
    typeKind?_eq_none first _ (htree.word? rfl) (not_mem_typeWords hfirst)]
  dsimp only
  rw [hno "namespace" (hfirst.ne_of_isReserved (by decide)), husing]
  rfl

/-- A property as it stands in the body of a class. -/
def propertySketch (access : List String) (type name method field : String) : List Sketch :=
  blockSketch (propertyInks access type name) (accessorSketch method field)

/-- A property adds no declaration and no problem. -/
theorem bodyOf_property {last : Nat} {trees rest : List Tree} {access : List String}
    {type name method field : String}
    (haccess : ∀ word ∈ access, Keyword.isReservedModifier word = true) (hne : access ≠ [])
    (htype : IsDottedName type) (hname : IsIdentifier name) (hmethod : IsIdentifier method)
    (hfield : IsIdentifier field)
    (h : List.Forall₂ Fits trees (propertySketch access type name method field))
    (hrest : ∀ tree ∈ rest.head?, tree.isSymbol "=" = false) (fuel : Nat) :
    bodyOf .body last (fuel + 1) (trees ++ rest) =
      (bodyOf .body last fuel rest).cons .other := by
  rw [propertySketch, blockSketch, propertyInks, List.map_append, List.map_append] at h
  obtain ⟨line, body, rfl, hline, hbody⟩ := exists_append_of_forall₂ h
  obtain ⟨words, named, rfl, hwords, hnamed⟩ := exists_append_of_forall₂ hline
  obtain ⟨typed, ending, rfl, htyped, hending⟩ := exists_append_of_forall₂ hnamed
  obtain ⟨tree, rfl, htree⟩ := exists_singleton_of_forall₂ hending
  obtain ⟨block, rfl, hblock⟩ := exists_singleton_of_forall₂ hbody
  have hfit := fitWords_lineInks hwords
  have hmodifiers : modifiers (words ++ (typed ++ tree :: block :: rest)) =
      (access, typed ++ tree :: block :: rest) := by
    rw [modifiers_append hfit haccess, modifiers_dotted _ htype htyped, List.append_nil]
  have hlist : words ++ (typed ++ [tree]) ++ [block] ++ rest =
      words ++ (typed ++ tree :: block :: rest) := by simp
  have hfirst : ∃ start more word gap,
      words ++ (typed ++ tree :: block :: rest) = start :: more ∧
        Fits start (.leaf ⟨.word, word, gap⟩) := by
    cases hfit with
    | nil => exact absurd rfl hne
    | cons hword _ =>
      obtain ⟨gap, hword⟩ := hword
      exact ⟨_, _, _, gap, rfl, hword⟩
  obtain ⟨start, more, word, gap, heq, hword⟩ := hfirst
  have hmember : memberOf .body last start more = { rest } := by
    rw [memberOf_word hword, ← heq, hmodifiers, declarationMember_dotted _ last access _ htype htyped]
    cases hblock with
    | @group opener closer inside _ _ _ hopener hinside _ =>
      have hbrace : opener.isSymbol "\x7b" = true := by
        simp [Token.isSymbol, hopener.kind, hopener.text, Ink.symbol]
      exact plainMember_property _ last htype hname hmethod hfield htyped htree hbrace hinside hrest
  rw [hlist, heq, bodyOf_plain hmember]

end Backfield.CSharp.Declaration

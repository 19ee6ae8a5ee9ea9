import Backfield.Proofs.CSharp.Neighbors
import Backfield.Proofs.CSharp.Remainder
import Backfield.Proofs.CSharp.Sketch

/-!
# Dotted names, written and read

A dotted name is written as its parts with dots between them, and the parser reads the whole of it
wherever it looks for a name or a type.

* `Tail.dotted` says how a dotted name is written, `written_dotted` that its inks spell it.
* `name?_dotted` says how it is read; `dotted?_dotted` and `ofTrees?_dotted` are the same for a
  namespace and for a type.
-/

namespace Backfield.CSharp

/-- Words with a meaning of their own where a declaration or a type begins.  Elsewhere they are
names. -/
def Keyword.leading : List String :=
  ["async", "file", "global", "partial", "record", "required", "scoped", "where"]

/-- A word that is a name wherever it stands. -/
structure IsIdentifier (name : String) : Prop where
  isWord : Lexeme.IsWord name.toList
  notReserved : Keyword.isReserved name = false
  notLeading : name ∉ Keyword.leading

instance : DecidablePred IsIdentifier := fun name =>
  decidable_of_iff (Lexeme.IsWord name.toList ∧ Keyword.isReserved name = false ∧
      name ∉ Keyword.leading)
    ⟨fun h => ⟨h.1, h.2.1, h.2.2⟩, fun h => ⟨h.isWord, h.notReserved, h.notLeading⟩⟩

/-- The parts of a dotted name. -/
def partsOf (name : String) : List String := (name.toList.splitOn '.').map String.ofList

theorem intercalate_partsOf (name : String) : ".".intercalate (partsOf name) = name := by
  have hmark : ".".toList = ['.'] := rfl
  rw [← String.toList_inj, String.toList_intercalate, hmark, partsOf, List.map_map]
  simp [Function.comp_def, List.intercalate_splitOn]

theorem partsOf_ne_nil (name : String) : partsOf name ≠ [] := by
  simp [partsOf, List.splitOn_ne_nil]

/-- No part of a name holds a dot. -/
theorem dot_not_mem_of_mem_partsOf {name part : String} (h : part ∈ partsOf name) :
    '.' ∉ part.toList := by
  have hsplit : ∀ text : List Char, ∀ chars ∈ text.splitOn '.', '.' ∉ chars := by
    intro text
    induction text with
    | nil => simp
    | cons c text ih =>
      rw [List.splitOn_cons_eq_if_modifyHead]
      split
      · exact List.forall_mem_cons.mpr ⟨List.not_mem_nil, ih⟩
      · rename_i hc
        have hdot : '.' ≠ c := fun heq => hc (beq_iff_eq.mpr heq.symm)
        obtain ⟨first, rest, hparts⟩ :=
          List.exists_cons_of_ne_nil (List.splitOn_ne_nil '.' text)
        rw [hparts, List.forall_mem_cons] at ih
        rw [hparts, List.modifyHead_cons, List.forall_mem_cons, List.mem_cons, not_or]
        exact ⟨⟨hdot, ih.1⟩, ih.2⟩
  obtain ⟨chars, hchars, rfl⟩ := List.mem_map.mp h
  rw [String.toList_ofList]
  exact hsplit _ chars hchars

/-- Every part of a dotted name is an identifier. -/
def IsDottedName (name : String) : Prop := ∀ part ∈ partsOf name, IsIdentifier part

instance : DecidablePred IsDottedName := fun name =>
  inferInstanceAs (Decidable (∀ part ∈ partsOf name, IsIdentifier part))

/-! ## Words that identifiers are not -/

namespace IsIdentifier

variable {name : String}

theorem ne_of_isReserved (h : IsIdentifier name) {word : String}
    (hword : Keyword.isReserved word = true) : name ≠ word := by
  rintro rfl
  rw [h.notReserved] at hword
  cases hword

theorem ne_of_mem_leading (h : IsIdentifier name) {word : String}
    (hword : word ∈ Keyword.leading) : name ≠ word := by
  rintro rfl
  exact h.notLeading hword

theorem isType (h : IsIdentifier name) : Keyword.isType name = false := by
  have hreserved := h.notReserved
  simp only [Keyword.isReserved, Bool.or_eq_false_iff] at hreserved
  exact hreserved.1.1

theorem ne_empty (h : IsIdentifier name) : name ≠ "" := by
  rintro rfl
  exact h.isWord.ne_nil rfl

/-- An identifier as a piece of a line. -/
theorem stands (h : IsIdentifier name) {text : List Char} (htext : Lexeme.EndsName text) :
    Stands .word name.toList text := Stands.word h.isWord htext

end IsIdentifier

/-! ## Writing -/

/-- The inks of what follows the first part of a dotted name. -/
def dotParts : List String → List Ink
  | [] => []
  | part :: rest => (Ink.symbol ".").after "" :: (Ink.word part).after "" :: dotParts rest

/-- The inks of a dotted name after a gap. -/
def dotted (gap name : String) : List Ink :=
  match partsOf name with
  | [] => []
  | first :: rest => (Ink.word first).after gap :: dotParts rest

/-- What follows the first part of a dotted name. -/
def dotText (rest : List String) : List Char := rest.flatMap fun part => '.' :: part.toList

theorem exists_dotted (name : String) : ∃ first rest, partsOf name = first :: rest ∧
    name.toList = first.toList ++ dotText rest ∧
    ∀ gap, dotted gap name = (Ink.word first).after gap :: dotParts rest := by
  have hparts : ∃ first rest, partsOf name = first :: rest :=
    List.exists_cons_of_ne_nil (partsOf_ne_nil name)
  obtain ⟨first, rest, hparts⟩ := hparts
  refine ⟨first, rest, hparts, ?_, fun gap => by rw [dotted, hparts]⟩
  have htext : ∀ parts : List String, ∀ first : String,
      (".".intercalate (first :: parts)).toList = first.toList ++ dotText parts := by
    intro parts
    induction parts with
    | nil => simp [dotText]
    | cons part parts ih =>
      intro first
      rw [String.intercalate_cons_cons, String.toList_append, String.toList_append, ih part]
      simp [dotText]
  rw [← htext, ← hparts, intercalate_partsOf]

theorem Tail.dotParts {parts : List String} {text : List Char} {inks : List Ink}
    (hparts : ∀ part ∈ parts, IsIdentifier part) (htext : Lexeme.EndsName text)
    (h : Tail text inks) :
    Tail (dotText parts ++ text) (dotParts parts ++ inks) ∧
      Lexeme.EndsName (dotText parts ++ text) := by
  induction parts with
  | nil => exact ⟨h, htext⟩
  | cons part parts ih =>
    have hpart := hparts part List.mem_cons_self
    obtain ⟨htail, hends⟩ := ih fun other hother => hparts other (List.mem_cons_of_mem _ hother)
    have hword : Tail (part.toList ++ (dotText parts ++ text))
        ((Ink.word part).after "" :: (CSharp.dotParts parts ++ inks)) :=
      Tail.tight (Ink.word part) (hpart.stands hends) htail
    have hdot : Stands .symbol ['.'] (part.toList ++ (dotText parts ++ text)) :=
      Stands.joining (by decide) (hpart.isWord.endsSymbol _)
    have hall : Tail ('.' :: (part.toList ++ (dotText parts ++ text)))
        ((Ink.symbol ".").after "" :: (Ink.word part).after "" :: (CSharp.dotParts parts ++ inks)) :=
      Tail.tight (Ink.symbol ".") hdot hword
    have htexts : dotText (part :: parts) ++ text =
        '.' :: (part.toList ++ (dotText parts ++ text)) := by
      simp [dotText]
    rw [htexts]
    exact ⟨hall, Lexeme.endsName_cons _ (by decide)⟩

/-- A dotted name after a space. -/
theorem Tail.dotted {name : String} {text : List Char} {inks : List Ink} (hname : IsDottedName name)
    (htext : Lexeme.EndsName text) (h : Tail text inks) :
    Tail (' ' :: (name.toList ++ text)) (dotted " " name ++ inks) := by
  obtain ⟨first, rest, hparts, hchars, hinks⟩ := exists_dotted name
  rw [IsDottedName, hparts] at hname
  have hrest := Tail.dotParts (fun part hpart => hname part (List.mem_cons_of_mem _ hpart)) htext h
  rw [hchars, hinks, List.append_assoc]
  exact Tail.spaced (Ink.word first) ((hname first List.mem_cons_self).stands hrest.2) hrest.1

/-! ## Inks of names -/

theorem isPlain_dotted (round : Bool) (gap name : String) :
    (dotted gap name).all (Sketch.isPlain round) = true := by
  have hparts : ∀ parts, (dotParts parts).all (Sketch.isPlain round) = true := by
    intro parts
    induction parts with
    | nil => rfl
    | cons part rest ih =>
      rw [dotParts, List.all_cons, List.all_cons, ih]
      cases round <;> rfl
  obtain ⟨first, rest, -, -, hinks⟩ := exists_dotted name
  rw [hinks, List.all_cons, hparts]
  rfl

/-- A name may follow whatever asks for one, and asks for nothing itself. -/
theorem goTogether_dotted {asked : Bool} {gap name : String} {inks : List Ink}
    (hname : IsDottedName name) (h : Ink.goTogether false inks = true) :
    Ink.goTogether asked (dotted gap name ++ inks) = true := by
  have hparts : ∀ parts, (∀ part ∈ parts, IsIdentifier part) →
      Ink.goTogether false (dotParts parts ++ inks) = true := by
    intro parts hall
    induction parts with
    | nil => exact h
    | cons part rest ih =>
      have hpart := (hall part List.mem_cons_self).isType
      have hrest := ih fun other hother => hall other (List.mem_cons_of_mem _ hother)
      have hword := Ink.goTogether_word true (some "") (dotParts rest ++ inks) hpart
      exact hword.trans hrest
  obtain ⟨first, rest, heq, -, hinks⟩ := exists_dotted name
  rw [IsDottedName, heq] at hname
  have hfirst := (hname first List.mem_cons_self).isType
  have hrest := hparts rest fun part hpart => hname part (List.mem_cons_of_mem _ hpart)
  rw [hinks]
  exact (Ink.goTogether_word asked (some gap) (dotParts rest ++ inks) hfirst).trans hrest

theorem isNeat_word {name gap : String} (hname : IsIdentifier name) (hgap : gap = "" ∨ gap = " ") :
    ((Ink.word name).after gap).IsNeat where
  gap := hgap.imp (congrArg some) (congrArg some)
  ne_empty := hname.ne_empty
  visible := fun c hc => Text.isBlank_of_isNameChar (hname.isWord.isNameChar c hc)

theorem isNeat_dotParts {parts : List String} (h : ∀ part ∈ parts, IsIdentifier part) :
    ∀ ink ∈ dotParts parts, ink.IsNeat := by
  have hdot : ((Ink.symbol ".").after "").IsNeat := ⟨Or.inl rfl, by decide, visible_of_all (by decide)⟩
  induction parts with
  | nil => exact fun ink hink => absurd hink List.not_mem_nil
  | cons part rest ih =>
    intro ink hink
    rcases List.mem_cons.mp hink with rfl | hink
    · exact hdot
    · rcases List.mem_cons.mp hink with rfl | hink
      · exact isNeat_word (h part List.mem_cons_self) (Or.inl rfl)
      · exact ih (fun other hother => h other (List.mem_cons_of_mem _ hother)) ink hink

theorem isNeat_dotted {gap name : String} (hname : IsDottedName name)
    (hgap : gap = "" ∨ gap = " ") : ∀ ink ∈ dotted gap name, ink.IsNeat := by
  obtain ⟨first, rest, heq, -, hinks⟩ := exists_dotted name
  rw [IsDottedName, heq] at hname
  rw [hinks]
  intro ink hink
  rcases List.mem_cons.mp hink with rfl | hink
  · exact isNeat_word (hname first List.mem_cons_self) hgap
  · exact isNeat_dotParts (fun part hpart => hname part (List.mem_cons_of_mem _ hpart)) ink hink

theorem join_dotParts (parts : List String) :
    (String.join ((dotParts parts).map fun ink => ink.gap.getD "" ++ ink.text)).toList =
      dotText parts := by
  induction parts with
  | nil => rfl
  | cons part rest ih =>
    have hcons : dotText (part :: rest) = '.' :: (part.toList ++ dotText rest) := by simp [dotText]
    rw [hcons, ← ih]
    simp [dotParts, Ink.symbol, Ink.word, Ink.after]

/-- The inks of a dotted name are written as the name. -/
theorem written_dotted (gap name : String) : Ink.written (dotted gap name) = name := by
  obtain ⟨first, rest, -, hchars, hinks⟩ := exists_dotted name
  rw [hinks, ← String.toList_inj, Ink.written, String.toList_append, join_dotParts, hchars]
  rfl

/-! ## Trees of words and symbols -/

namespace Tree.Fits

variable {tree : Tree} {ink : Ink}

theorem word? (h : Fits tree (.leaf ink)) (hkind : ink.kind = .word) :
    tree.word? = some ink.text := by
  cases h with
  | leaf ht => simp [Tree.word?, Tree.token?, ht.kind, ht.text, hkind]

theorem isWord (h : Fits tree (.leaf ink)) (word : String) :
    tree.isWord word = (ink.kind == .word && ink.text == word) := by
  cases h with
  | leaf ht => simp [Tree.isWord, Tree.token?, Token.isWord, ht.kind, ht.text]

theorem isSymbol (h : Fits tree (.leaf ink)) (symbol : String) :
    tree.isSymbol symbol = (ink.kind == .symbol && ink.text == symbol) := by
  cases h with
  | leaf ht => simp [Tree.isSymbol, Tree.token?, Token.isSymbol, ht.kind, ht.text]

theorem groupItems? (h : Fits tree (.leaf ink)) (opening : String) :
    tree.groupItems? opening = none := by
  cases h with
  | leaf ht => rfl

theorem isGroup (h : Fits tree (.leaf ink)) (opening : String) : tree.isGroup opening = false := by
  rw [Tree.isGroup, h.groupItems?]
  rfl

end Tree.Fits

namespace TypeName

open Backfield.CSharp.Tree (Fits)

/-- No type and no name goes on into the trees. -/
def Ends (rest : List Tree) : Prop :=
  ∀ tree ∈ rest.head?, (∀ symbol ∈ ["<", ".", "::", "?", "*", "["], tree.isSymbol symbol = false) ∧
    tree.groupItems? "[" = none

theorem afterMarks_of_ends {mode : Mode} {last : Nat} {rest : List Tree} (h : Ends rest) :
    afterMarks mode last rest = ⟨rest, []⟩ := by
  cases rest with
  | nil => rfl
  | cons tree rest =>
    obtain ⟨hsymbols, hgroup⟩ := h tree rfl
    rw [afterMarks, hsymbols "?" (by decide), hsymbols "*" (by decide), hgroup,
      hsymbols "[" (by decide)]
    simp

/-- A dotted name is read as far as it goes. -/
theorem name?_dotParts {mode : Mode} {last : Nat} {trees rest : List Tree} {parts : List String}
    (hparts : ∀ part ∈ parts, IsIdentifier part) (hrest : Ends rest)
    (h : List.Forall₂ Fits trees ((dotParts parts).map Sketch.leaf)) (fuel : Nat)
    (hfuel : parts.length ≤ fuel) {tree : Tree} {first : String} (hfirst : IsIdentifier first)
    {gap : Option String} (htree : Fits tree (.leaf ⟨.word, first, gap⟩)) :
    name? mode last (fuel + 1) (tree :: (trees ++ rest)) = some ⟨rest, []⟩ := by
  have hword : isTypeWord tree = true := by
    simp [isTypeWord, htree.word? rfl, hfirst.notReserved]
  induction parts generalizing trees fuel tree first gap with
  | nil =>
    obtain rfl := List.forall₂_nil_right_iff.mp h
    rw [name?_cons, hword]
    cases rest with
    | nil => rfl
    | cons next more =>
      obtain ⟨hsymbols, -⟩ := hrest next rfl
      simp [ownArguments?, afterPart?, hsymbols]
  | cons part parts ih =>
    obtain ⟨dot, others, hdot, hothers, rfl⟩ := List.forall₂_cons_right_iff.mp h
    obtain ⟨next, trees, hnext, htrees, rfl⟩ := List.forall₂_cons_right_iff.mp hothers
    have hpart := hparts part List.mem_cons_self
    have hnextWord : isTypeWord next = true := by
      simp [isTypeWord, hnext.word? rfl, Ink.word, Ink.after, hpart.notReserved]
    cases fuel with
    | zero => cases hfuel
    | succ fuel =>
      have hmore := ih (fun other hother => hparts other (List.mem_cons_of_mem _ hother)) htrees
        fuel (Nat.le_of_succ_le_succ hfuel) hpart hnext hnextWord
      rw [name?_cons, hword]
      simp [ownArguments?, afterPart?, hdot.isSymbol, Ink.symbol, Ink.after, hmore]

/-- The first tree of a dotted name. -/
theorem exists_first_dotted {trees : List Tree} {gap type : String} (htype : IsDottedName type)
    (h : List.Forall₂ Fits trees ((dotted gap type).map Sketch.leaf)) :
    ∃ first tree others, IsIdentifier first ∧ trees = tree :: others ∧
      Fits tree (.leaf ⟨.word, first, some gap⟩) := by
  obtain ⟨first, parts, heq, -, hinks⟩ := exists_dotted type
  rw [hinks] at h
  obtain ⟨tree, others, htree, -, rfl⟩ := List.forall₂_cons_right_iff.mp h
  exact ⟨first, tree, others, htype first (heq ▸ List.mem_cons_self), rfl, htree⟩

/-- Enough fuel for a dotted name at the front of the trees. -/
theorem name?_dotted {mode : Mode} {last : Nat} {trees rest : List Tree} {gap name : String}
    (hname : IsDottedName name) (hrest : Ends rest)
    (h : List.Forall₂ Fits trees ((dotted gap name).map Sketch.leaf)) (fuel : Nat)
    (hfuel : trees.length ≤ fuel) : name? mode last fuel (trees ++ rest) = some ⟨rest, []⟩ := by
  obtain ⟨first, parts, heq, -, hinks⟩ := exists_dotted name
  rw [IsDottedName, heq] at hname
  rw [hinks] at h
  obtain ⟨tree, others, htree, hothers, rfl⟩ := List.forall₂_cons_right_iff.mp h
  have hlength : others.length = 2 * parts.length := by
    have hparts : ∀ parts, (dotParts parts).length = 2 * parts.length := by
      intro parts
      induction parts with
      | nil => rfl
      | cons part rest ih => simp [dotParts, ih]; omega
    rw [hothers.length_eq, List.length_map, hparts]
  rw [List.length_cons] at hfuel
  cases fuel with
  | zero => omega
  | succ fuel =>
    exact name?_dotParts (fun part hpart => hname part (List.mem_cons_of_mem _ hpart)) hrest hothers
      fuel (by omega) (hname first List.mem_cons_self) htree

theorem dotted?_dotted {last : Nat} {trees rest : List Tree} {gap name : String}
    (hname : IsDottedName name) (hrest : Ends rest)
    (h : List.Forall₂ Fits trees ((dotted gap name).map Sketch.leaf)) :
    dotted? last (trees ++ rest) = some ⟨rest, []⟩ :=
  name?_dotted hname hrest h _ (by rw [List.length_append]; omega)

theorem afterReference_eq {tree : Tree} (rest : List Tree) (href : tree.isWord "ref" = false)
    (hscoped : tree.isWord "scoped" = false) : afterReference (tree :: rest) = tree :: rest := by
  match rest with
  | [] => rfl
  | [b] => simp [afterReference, href]
  | b :: c :: rest => simp [afterReference, href, hscoped]

/-- A dotted name is a type. -/
theorem ofTrees?_dotted {mode : Mode} {last : Nat} {trees rest : List Tree} {gap name : String}
    (hname : IsDottedName name) (hrest : Ends rest)
    (h : List.Forall₂ Fits trees ((dotted gap name).map Sketch.leaf)) :
    ofTrees? mode last (trees ++ rest) = some ⟨rest, []⟩ := by
  have hread : name? mode last (4 * (trees ++ rest).length + 3) (trees ++ rest) =
      some ⟨rest, []⟩ :=
    name?_dotted hname hrest h _ (by rw [List.length_append]; omega)
  obtain ⟨first, tree, others, hfirst, rfl, htree⟩ := exists_first_dotted hname h
  have hno : ∀ word, first ≠ word → tree.isWord word = false := fun word hne => by
    simp [htree.isWord, hne]
  have hword : isTypeWord tree = true := by
    simp [isTypeWord, htree.word? rfl, hfirst.notReserved]
  rw [List.cons_append] at hread ⊢
  rw [ofTrees?, type?, afterReference_eq _ (hno "ref" (hfirst.ne_of_isReserved (by decide)))
    (hno "scoped" (hfirst.ne_of_mem_leading (by decide)))]
  dsimp only
  rw [htree.isGroup, hno "delegate" (hfirst.ne_of_isReserved (by decide)), hword, hread]
  simp [Reading.withMarks, afterMarks_of_ends hrest]

end TypeName

end Backfield.CSharp

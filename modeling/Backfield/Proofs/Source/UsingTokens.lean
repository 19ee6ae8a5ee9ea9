import Backfield.Proofs.CSharp.Compact
import Backfield.Proofs.Source.UsingText

/-!
# Using directives in every spelling

A using directive is the same however its tokens are spaced and whatever comments stand between
them.  The reader looks for white space in fixed places, though, and drops the blanks of what the
directive names.

* `UsingTokens` is a directive, and `StandsIn` says that a text has it.
* `ofText?_text` says when the keywords in front are taken off.
* `ofRest?_plain`, `ofRest?_statics` and `ofRest?_aliased` say what then becomes of each kind.
-/

namespace Backfield

open CSharp (Keyword.isReserved OpensWithSign Token gapSigns)
open CSharp.Lexeme (EndsName IsPlainKind isNameChar)
open CSharp.Token (charsOf)
open Text (BeginsBlank isBlank isWordChar squeezeFrom visible)
open UsingDirective (isAliasName ofRest? ofTarget? ofText? targetOf)

/-! ## Directives as tokens -/

/-- What a directive does with the name after it, and the tokens that say so. -/
inductive UsingRole
  | plain
  | statics (word : Token) (unsafes : Option Token)
  | aliased (unsafes : Option Token) (name equals : Token)

namespace UsingRole

def tokens : UsingRole → List Token
  | plain => []
  | statics word unsafes => word :: unsafes.toList
  | aliased unsafes name equals => unsafes.toList ++ [name, equals]

def isStatic : UsingRole → Bool
  | statics .. => true
  | _ => false

/-- The tokens are the words and the sign that they have to be. -/
def IsSpelled : UsingRole → Prop
  | plain => True
  | statics word unsafes =>
    word.isWord "static" = true ∧ ∀ t ∈ unsafes, t.isWord "unsafe" = true
  | aliased unsafes name equals =>
    (∀ t ∈ unsafes, t.isWord "unsafe" = true) ∧ name.kind = .word ∧
      Keyword.isReserved name.text = false ∧ equals.isSymbol "=" = true

end UsingRole

/-- The tokens of a using directive. -/
structure UsingTokens where
  globals : Option Token := none
  keyword : Token
  role : UsingRole := .plain
  target : List Token
  semicolon : Token

namespace UsingTokens

/-- The tokens after the word `using`. -/
def rest (u : UsingTokens) : List Token := u.role.tokens ++ u.target ++ [u.semicolon]

def all (u : UsingTokens) : List Token := u.globals.toList ++ u.keyword :: u.rest

/-- The directive as it is written. -/
def text (u : UsingTokens) : String := Token.slice u.all

/-- The directive stands in the text.  No name and no type begins with two words. -/
structure StandsIn (u : UsingTokens) (code : String) : Prop where
  together : u.all <:+: (Token.ofText code).tokens
  globals : ∀ t ∈ u.globals, t.isWord "global" = true
  keyword : u.keyword.isWord "using" = true
  role : u.role.IsSpelled
  semicolon : u.semicolon.isSymbol ";" = true
  target_ne_nil : u.target ≠ []
  target : ∀ t ∈ u.target, t.IsOfType ∧ t.text ≠ "static"
  opening : ∀ first second more, u.target = first :: second :: more → first.kind = .word →
    second.kind = .symbol

variable {u : UsingTokens} {code : String}

theorem isWord_iff {t : Token} {word : String} :
    t.isWord word = true ↔ t.kind = .word ∧ t.text = word := by
  simp [Token.isWord]

theorem isSymbol_iff {t : Token} {symbol : String} :
    t.isSymbol symbol = true ↔ t.kind = .symbol ∧ t.text = symbol := by
  simp [Token.isSymbol]

theorem rest_subset (u : UsingTokens) : ∀ t ∈ u.rest, t ∈ u.all := fun _ ht =>
  List.mem_append_right _ (List.mem_cons_of_mem _ ht)

theorem target_subset (u : UsingTokens) : ∀ t ∈ u.target, t ∈ u.rest := fun _ ht =>
  List.mem_append_left _ (List.mem_append_right _ ht)

theorem role_subset (u : UsingTokens) : ∀ t ∈ u.role.tokens, t ∈ u.rest := fun _ ht =>
  List.mem_append_left _ (List.mem_append_left _ ht)

theorem semicolon_mem_rest (u : UsingTokens) : u.semicolon ∈ u.rest :=
  List.mem_append_right _ (List.mem_singleton_self _)

theorem StandsIn.mem (h : u.StandsIn code) {t : Token} (ht : t ∈ u.all) :
    t ∈ (Token.ofText code).tokens := h.together.subset ht

theorem StandsIn.opensWithSign (h : u.StandsIn code) {t : Token} (ht : t ∈ u.rest) :
    OpensWithSign t.gap.toList := Token.opensWithSign_gap (h.mem (u.rest_subset t ht))

theorem mem_role_cases {role : UsingRole} (h : role.IsSpelled) :
    ∀ t ∈ role.tokens, t.kind = .word ∨ t.isSymbol "=" = true := by
  have hunsafes : ∀ {unsafes : Option Token}, (∀ t ∈ unsafes, t.isWord "unsafe" = true) →
      ∀ t ∈ unsafes.toList, t.kind = .word ∨ t.isSymbol "=" = true := fun hall t ht =>
    Or.inl (isWord_iff.mp (hall t (Option.mem_toList.mp ht))).1
  cases role with
  | plain => exact fun t ht => by cases ht
  | statics word unsafes =>
    exact List.forall_mem_cons.mpr ⟨Or.inl (isWord_iff.mp h.1).1, hunsafes h.2⟩
  | aliased unsafes name equals =>
    obtain ⟨hall, hname, -, hequals⟩ := h
    refine List.forall_mem_append.mpr ⟨hunsafes hall, List.forall_mem_cons.mpr ⟨Or.inl hname, ?_⟩⟩
    exact List.forall_mem_singleton.mpr (Or.inr hequals)

theorem StandsIn.isPlainKind (h : u.StandsIn code) : ∀ t ∈ u.all, IsPlainKind t.kind := by
  refine List.forall_mem_append.mpr ⟨fun t ht => ?_, List.forall_mem_cons.mpr ⟨?_, ?_⟩⟩
  · exact Or.inl (isWord_iff.mp (h.globals t (Option.mem_toList.mp ht))).1
  · exact Or.inl (isWord_iff.mp h.keyword).1
  · refine List.forall_mem_append.mpr ⟨List.forall_mem_append.mpr ⟨?_, ?_⟩, ?_⟩
    · exact fun t ht => (mem_role_cases h.role t ht).imp id fun h => (isSymbol_iff.mp h).1
    · exact fun t ht => (h.target t ht).1.isPlainKind
    · exact List.forall_mem_singleton.mpr (Or.inr (isSymbol_iff.mp h.semicolon).1)

theorem StandsIn.hasInk (h : u.StandsIn code) : ∀ t ∈ u.all, t.HasInk := fun t ht =>
  Token.hasInk_of_mem_ofText (h.mem ht) (h.isPlainKind t ht)

/-! ## The keywords in front -/

theorem charsOf_nil : charsOf [] = [] := rfl

theorem charsOf_cons (t : Token) (ts : List Token) :
    charsOf (t :: ts) = t.gap.toList ++ (t.text.toList ++ charsOf ts) := by
  simp [charsOf]

theorem charsOf_append (ts more : List Token) :
    charsOf (ts ++ more) = charsOf ts ++ charsOf more := by
  simp [charsOf]

/-- A slice on one line has its white space squeezed. -/
theorem toList_collapse_slice (first : Token) (rest : List Token)
    (hink : ∀ t ∈ first :: rest, t.HasInk) :
    (Text.collapse (Token.slice (first :: rest))).toList =
      squeezeFrom true (first.text.toList ++ charsOf rest) := by
  obtain ⟨front, c, heq, hc⟩ := Token.exists_last_slice first rest hink
  rw [UsingDirective.toList_collapse_of_concat heq hc, Token.toList_slice_cons]

/-- White space and nothing else stands between `global` and `using`, and white space comes after
`using`. -/
def IsOpen (u : UsingTokens) : Prop :=
  (u.globals.isSome = true →
      BeginsBlank u.keyword.gap.toList ∧ visible u.keyword.gap.toList = []) ∧
    BeginsBlank (charsOf u.rest)

instance : DecidablePred IsOpen := fun u =>
  inferInstanceAs (Decidable ((u.globals.isSome = true →
    BeginsBlank u.keyword.gap.toList ∧ visible u.keyword.gap.toList = []) ∧
      BeginsBlank (charsOf u.rest)))

theorem beginsBlank_append {gap more : List Char} (hmore : ¬BeginsBlank more) :
    BeginsBlank (gap ++ more) ↔ BeginsBlank gap := by
  cases gap with
  | nil => exact iff_of_false hmore (by rintro ⟨c, ⟨⟩, -⟩)
  | cons c gap => rfl

theorem isNameChar_using : ∀ c ∈ "using".toList, isNameChar c = true :=
  List.all_eq_true.mp (by decide)

theorem isNameChar_global : ∀ c ∈ "global".toList, isNameChar c = true :=
  List.all_eq_true.mp (by decide)

theorem ofText?_of_globals_none (h : u.StandsIn code) (hglobals : u.globals = none) :
    ofText? u.text =
      if BeginsBlank (charsOf u.rest) then ofRest? (squeezeFrom true (charsOf u.rest))
      else none := by
  have hall : u.all = u.keyword :: u.rest := by rw [all, hglobals]; rfl
  have hink := h.hasInk
  rw [hall] at hink
  rw [ofText?, text, hall, toList_collapse_slice _ _ hink, (isWord_iff.mp h.keyword).2,
    UsingDirective.ofChars?_eq,
    UsingDirective.afterWord?_of_head_ne (by decide) (by decide) isNameChar_using (by decide),
    Option.getD_none, UsingDirective.afterWord?_squeezeFrom_self (by decide) isNameChar_using]
  split <;> rfl

theorem ofText?_of_globals_some (h : u.StandsIn code) {t : Token} (hglobals : u.globals = some t) :
    ofText? u.text =
      if (BeginsBlank u.keyword.gap.toList ∧ visible u.keyword.gap.toList = []) ∧
          BeginsBlank (charsOf u.rest) then ofRest? (squeezeFrom true (charsOf u.rest))
      else none := by
  have hall : u.all = t :: u.keyword :: u.rest := by rw [all, hglobals]; rfl
  have hink := h.hasInk
  rw [hall] at hink
  have hkeyword := (isWord_iff.mp h.keyword).2
  have hgap : OpensWithSign u.keyword.gap.toList :=
    Token.opensWithSign_gap (h.mem (by rw [hall]; simp))
  have hblank : BeginsBlank (charsOf (u.keyword :: u.rest)) ↔
      BeginsBlank u.keyword.gap.toList := by
    rw [charsOf_cons, hkeyword]
    refine beginsBlank_append ?_
    rintro ⟨c, ⟨⟩, hc⟩
    exact absurd hc (by decide)
  rw [ofText?, text, hall, toList_collapse_slice _ _ hink,
    (isWord_iff.mp (h.globals t hglobals)).2, UsingDirective.ofChars?_eq,
    UsingDirective.afterWord?_squeezeFrom_self (by decide) isNameChar_global]
  simp only [hblank]
  by_cases hspace : BeginsBlank u.keyword.gap.toList
  · rw [if_pos hspace, Option.getD_some, charsOf_cons, hkeyword,
      UsingDirective.afterWord?_squeezeFrom (by decide) isNameChar_using hgap]
    simp only [hspace, true_and]
    split <;> rfl
  · -- The word `global` stays in front of the keyword, which is not found behind it.
    rw [if_neg hspace, Option.getD_none,
      UsingDirective.afterWord?_of_head_ne (by decide) (by decide) isNameChar_global (by decide),
      if_neg fun hopen => hspace hopen.1.1]
    rfl

/-- The keywords in front are taken off if the directive is open. -/
theorem ofText?_text (h : u.StandsIn code) :
    ofText? u.text = if u.IsOpen then ofRest? (squeezeFrom true (charsOf u.rest)) else none := by
  cases hglobals : u.globals with
  | none =>
    have hopen : u.IsOpen ↔ BeginsBlank (charsOf u.rest) := by simp [IsOpen, hglobals]
    simp only [ofText?_of_globals_none h hglobals, hopen]
  | some t =>
    have hopen : u.IsOpen ↔ (BeginsBlank u.keyword.gap.toList ∧
        visible u.keyword.gap.toList = []) ∧ BeginsBlank (charsOf u.rest) := by
      simp [IsOpen, hglobals]
    simp only [ofText?_of_globals_some h hglobals, hopen]

/-! ## What follows the keywords -/

/-- Everything between `using` and the semicolon. -/
def body (u : UsingTokens) : List Char :=
  charsOf (u.role.tokens ++ u.target) ++ u.semicolon.gap.toList

/-- The target and what stands before the semicolon. -/
def targetChars (u : UsingTokens) : List Char := charsOf u.target ++ u.semicolon.gap.toList

theorem StandsIn.charsOf_semicolon (h : u.StandsIn code) :
    charsOf [u.semicolon] = u.semicolon.gap.toList ++ [';'] := by
  rw [charsOf_cons, (isSymbol_iff.mp h.semicolon).2]
  rfl

theorem StandsIn.charsOf_target (h : u.StandsIn code) :
    charsOf (u.target ++ [u.semicolon]) = u.targetChars ++ [';'] := by
  rw [charsOf_append, h.charsOf_semicolon, targetChars, List.append_assoc]

theorem StandsIn.charsOf_rest (h : u.StandsIn code) : charsOf u.rest = u.body ++ [';'] := by
  rw [rest, charsOf_append, h.charsOf_semicolon, body, List.append_assoc]

theorem body_eq (u : UsingTokens) : u.body = charsOf u.role.tokens ++ u.targetChars := by
  rw [body, charsOf_append, targetChars, List.append_assoc]

theorem StandsIn.visible_targetChars (h : u.StandsIn code) : visible u.targetChars ≠ [] := by
  obtain ⟨t, ts, htarget⟩ := List.exists_cons_of_ne_nil h.target_ne_nil
  have ht : t ∈ u.all := u.rest_subset t (u.target_subset t (by rw [htarget]; simp))
  obtain ⟨hne, hink⟩ := h.hasInk t ht
  have hne : t.text.toList ≠ [] := by simpa using hne
  rw [targetChars, htarget, charsOf_cons, Text.visible_append, Text.visible_append,
    Text.visible_append, Text.visible_eq_self hink]
  simp [hne]

theorem StandsIn.visible_body (h : u.StandsIn code) : visible u.body ≠ [] := by
  rw [body_eq, Text.visible_append]
  exact List.append_ne_nil_of_right_ne_nil _ h.visible_targetChars

/-- What the directive names, as the reader has it. -/
def seen (u : UsingTokens) : String := targetOf (visible u.targetChars)

/-- No comment after `using` has a semicolon. -/
def LacksSemicolon (u : UsingTokens) : Prop := ∀ t ∈ u.rest, ';' ∉ t.gap.toList

instance : DecidablePred LacksSemicolon := fun u =>
  inferInstanceAs (Decidable (∀ t ∈ u.rest, ';' ∉ t.gap.toList))

theorem not_mem_word {t : Token} {c : Char} (ht : t ∈ (Token.ofText code).tokens)
    (hkind : t.kind = .word) (hc : isNameChar c = false) : c ∉ t.text.toList := by
  intro hmem
  have hname := (Token.isWordText_of_mem_ofText ht hkind).2 c hmem
  rw [hc] at hname
  cases hname

/-- Neither a semicolon nor an equals sign is in a token of a type. -/
theorem not_mem_target (h : u.StandsIn code) {t : Token} (ht : t ∈ u.target) :
    ';' ∉ t.text.toList ∧ '=' ∉ t.text.toList := by
  have hmem := h.mem (u.rest_subset t (u.target_subset t ht))
  rcases (h.target t ht).1 with hword | ⟨-, hsymbol⟩
  · exact ⟨not_mem_word hmem hword (by decide), not_mem_word hmem hword (by decide)⟩
  · have hall : (Token.typeSymbols.all fun symbol =>
        !symbol.contains ';' && !symbol.contains '=') = true := by decide
    simpa using List.all_eq_true.mp hall _ hsymbol

theorem semicolon_not_mem_role (h : u.StandsIn code) :
    ∀ t ∈ u.role.tokens, ';' ∉ t.text.toList := by
  intro t ht
  rcases mem_role_cases h.role t ht with hword | hequals
  · exact not_mem_word (h.mem (u.rest_subset t (u.role_subset t ht))) hword (by decide)
  · rw [(isSymbol_iff.mp hequals).2]
    decide

theorem mem_charsOf {c : Char} {ts : List Token} :
    c ∈ charsOf ts ↔ ∃ t ∈ ts, c ∈ t.gap.toList ∨ c ∈ t.text.toList := by
  simp [charsOf]

theorem lacksSemicolon_iff (h : u.StandsIn code) : u.LacksSemicolon ↔ ';' ∉ u.body := by
  rw [body, List.mem_append, mem_charsOf, LacksSemicolon, rest]
  constructor
  · rintro hall (⟨t, ht, hgap | htext⟩ | hgap)
    · exact hall t (List.mem_append_left _ ht) hgap
    · rcases List.mem_append.mp ht with ht | ht
      · exact semicolon_not_mem_role h t ht htext
      · exact (not_mem_target h ht).1 htext
    · exact hall u.semicolon u.semicolon_mem_rest hgap
  · intro hnot t ht hgap
    rcases List.mem_append.mp ht with ht | ht
    · exact hnot (Or.inl ⟨t, ht, Or.inl hgap⟩)
    · rw [List.mem_singleton.mp ht] at hgap
      exact hnot (Or.inr hgap)

/-- Among tokens without an equals sign no alias is found. -/
theorem aliasName?_eq_none {ts : List Token}
    (h : ∀ t ∈ ts, OpensWithSign t.gap.toList ∧ t.HasInk ∧ '=' ∉ t.text.toList) (pending : Bool) :
    UsingDirective.aliasName? (squeezeFrom pending (charsOf ts)) = none := by
  refine UsingDirective.aliasName?_eq_none_of_visible ?_
  rw [Text.visible_squeezeFrom]
  induction ts with
  | nil => exact fun hhead => by cases hhead
  | cons t rest ih =>
    obtain ⟨hgap, ⟨-, hink⟩, hequals⟩ := h t List.mem_cons_self
    rw [charsOf_cons, Text.visible_append, Text.visible_append, Text.visible_eq_self hink]
    cases hvisible : visible t.gap.toList with
    | cons c more =>
      have hc : c ∈ gapSigns := hgap c (by rw [hvisible]; rfl)
      rw [List.cons_append,
        List.dropWhile_cons_of_neg (by simp [UsingDirective.isWordChar_sign c hc])]
      rintro ⟨⟩
      exact absurd hc (by decide)
    | nil =>
      rw [List.nil_append, List.dropWhile_append]
      split
      · exact ih fun t ht => h t (List.mem_cons_of_mem _ ht)
      · rename_i hne
        have hne : t.text.toList.dropWhile isWordChar ≠ [] := by simpa using hne
        rw [List.head?_append_of_ne_nil _ hne]
        intro hhead
        exact hequals ((List.dropWhile_suffix _).subset (List.mem_of_mem_head? hhead))

theorem StandsIn.not_mem_equals (h : u.StandsIn code) {ts : List Token} (hts : ts ⊆ u.rest)
    (hequals : ∀ t ∈ ts, '=' ∉ t.text.toList) :
    ∀ t ∈ ts, OpensWithSign t.gap.toList ∧ t.HasInk ∧ '=' ∉ t.text.toList := fun t ht =>
  ⟨h.opensWithSign (hts ht), h.hasInk t (u.rest_subset t (hts ht)), hequals t ht⟩

/-- No equals sign is in a directive whose role has none. -/
theorem StandsIn.equals_not_mem_rest (h : u.StandsIn code)
    (hrole : ∀ t ∈ u.role.tokens, '=' ∉ t.text.toList) : ∀ t ∈ u.rest, '=' ∉ t.text.toList := by
  refine List.forall_mem_append.mpr
    ⟨List.forall_mem_append.mpr ⟨hrole, fun t ht => (not_mem_target h ht).2⟩, ?_⟩
  rw [List.forall_mem_singleton, (isSymbol_iff.mp h.semicolon).2]
  decide

/-! ## Roles -/

/-- A target without an alias before it. -/
theorem StandsIn.ofTarget?_eq (h : u.StandsIn code) {ts : List Token} {chars : List Char}
    (hts : ts ⊆ u.rest) (hequals : ∀ t ∈ ts, '=' ∉ t.text.toList)
    (hchars : charsOf ts = chars ++ [';']) (hvisible : visible chars ≠ []) (pending : Bool) :
    ofTarget? (squeezeFrom pending (charsOf ts)) =
      if ';' ∈ chars then none else some (.plain (targetOf (visible chars))) := by
  rw [UsingDirective.ofTarget?_of_none (aliasName?_eq_none (h.not_mem_equals hts hequals) pending),
    hchars, UsingDirective.beforeEnd?_squeezeFrom pending hvisible]
  split <;> rfl

/-- A word that is not `static`, with a symbol after it. -/
theorem afterWord?_static {t next : Token} {ts : List Token}
    (ht : t ∈ (Token.ofText code).tokens) (hword : t.kind = .word) (hne : t.text ≠ "static")
    (hnext : next ∈ (Token.ofText code).tokens) (hsymbol : next.kind = .symbol) :
    UsingDirective.afterWord? "static" (squeezeFrom true (charsOf (t :: next :: ts))) = none := by
  obtain ⟨htext, hchars⟩ := Token.isWordText_of_mem_ofText ht hword
  obtain ⟨hnext', hsymbols⟩ := Token.isSymbolChar_of_mem_ofText hnext hsymbol
  have hends : EndsName (charsOf (next :: ts)) := by
    rw [charsOf_cons]
    refine UsingDirective.endsName_gap (Token.opensWithSign_gap hnext) fun c hc => ?_
    rw [List.head?_append_of_ne_nil _ (by simpa using hnext')] at hc
    exact CSharp.Lexeme.isNameChar_of_isSymbolChar (hsymbols c (List.mem_of_mem_head? hc))
  rw [charsOf_cons]
  exact UsingDirective.afterWord?_other (by decide) (List.all_eq_true.mp (by decide))
    (Token.opensWithSign_gap ht) (by simpa using htext) hchars hends
    fun heq => hne (String.toList_inj.mp heq)

/-- Neither is a symbol taken for it. -/
theorem afterWord?_static_symbol {t : Token} {ts : List Token}
    (ht : t ∈ (Token.ofText code).tokens) (hsymbol : t.kind = .symbol) :
    UsingDirective.afterWord? "static" (squeezeFrom true (charsOf (t :: ts))) = none := by
  have hgap := Token.opensWithSign_gap ht
  obtain ⟨hne, hchars⟩ := Token.isSymbolChar_of_mem_ofText ht hsymbol
  have hstatic : ∀ c ∈ "static".toList, isNameChar c = true := List.all_eq_true.mp (by decide)
  rw [charsOf_cons]
  by_cases hwhite : visible t.gap.toList = []
  · have hink : ∀ c ∈ t.text.toList, isBlank c = false := fun c hc =>
      (CSharp.Lexeme.isSymbolChar_ink (hchars c hc)).1
    have hne : t.text.toList ≠ [] := by simpa using hne
    refine UsingDirective.afterWord?_eq_none_of_head (by decide) ?_
    rw [Text.head?_squeezeFrom_true, Text.visible_append, hwhite, List.nil_append,
      Text.visible_append, Text.visible_eq_self hink, List.head?_append_of_ne_nil _ hne]
    intro hhead
    have hs : 's' ∈ t.text.toList := List.mem_of_mem_head? hhead
    exact absurd (CSharp.Lexeme.isNameChar_of_isSymbolChar (hchars 's' hs)) (by decide)
  · exact UsingDirective.afterWord?_sign (by decide) hstatic hgap hwhite _

/-- A type after `using` is not taken for the word `static`. -/
theorem StandsIn.afterWord?_plain (h : u.StandsIn code) (hrole : u.role = .plain) :
    UsingDirective.afterWord? "static" (squeezeFrom true (charsOf u.rest)) = none := by
  obtain ⟨t, ts, htarget⟩ := List.exists_cons_of_ne_nil h.target_ne_nil
  have hrest : u.rest = t :: ts ++ [u.semicolon] := by simp [rest, hrole, UsingRole.tokens, htarget]
  have hmem : ∀ v ∈ u.rest, v ∈ (Token.ofText code).tokens := fun v hv =>
    h.mem (u.rest_subset v hv)
  obtain ⟨htype, hne⟩ := h.target t (by rw [htarget]; simp)
  rw [hrest] at hmem
  rw [hrest]
  rcases htype with hword | ⟨hsymbol, -⟩
  · cases ts with
    | nil =>
      exact afterWord?_static (hmem t (by simp)) hword hne (hmem _ (by simp))
        (isSymbol_iff.mp h.semicolon).1
    | cons second more =>
      exact afterWord?_static (hmem t (by simp)) hword hne (hmem second (by simp))
        (h.opening t second more htarget hword)
  · exact afterWord?_static_symbol (hmem t (by simp)) hsymbol

theorem StandsIn.ofRest?_plain (h : u.StandsIn code) (hrole : u.role = .plain) :
    ofRest? (squeezeFrom true (charsOf u.rest)) =
      if ';' ∈ u.body then none else some (.plain u.seen) := by
  have hbody : u.body = u.targetChars := by simp [body, targetChars, hrole, UsingRole.tokens]
  have hequals := h.equals_not_mem_rest (by simp [hrole, UsingRole.tokens])
  rw [ofRest?, h.afterWord?_plain hrole]
  dsimp only
  rw [h.ofTarget?_eq (List.Subset.refl _) hequals h.charsOf_rest h.visible_body true, seen, hbody]

theorem StandsIn.equals_not_mem_statics (h : u.StandsIn code) {word : Token}
    {unsafes : Option Token} (hrole : u.role = .statics word unsafes) :
    ∀ t ∈ u.rest, '=' ∉ t.text.toList := by
  obtain ⟨hword, hunsafes⟩ : (UsingRole.statics word unsafes).IsSpelled := hrole ▸ h.role
  refine h.equals_not_mem_rest ?_
  rw [hrole]
  refine List.forall_mem_cons.mpr ⟨?_, fun t ht => ?_⟩
  · rw [(isWord_iff.mp hword).2]
    decide
  · rw [(isWord_iff.mp (hunsafes t (Option.mem_toList.mp ht))).2]
    decide

theorem StandsIn.afterWord?_statics (h : u.StandsIn code) {word : Token} {unsafes : Option Token}
    (hrole : u.role = .statics word unsafes) :
    UsingDirective.afterWord? "static" (squeezeFrom true (charsOf u.rest)) =
      if visible word.gap.toList = [] ∧
          BeginsBlank (charsOf (unsafes.toList ++ u.target ++ [u.semicolon])) then
        some (squeezeFrom true (charsOf (unsafes.toList ++ u.target ++ [u.semicolon])))
      else none := by
  obtain ⟨hword, -⟩ : (UsingRole.statics word unsafes).IsSpelled := hrole ▸ h.role
  have hrest : u.rest = word :: (unsafes.toList ++ u.target ++ [u.semicolon]) := by
    simp [rest, hrole, UsingRole.tokens]
  have hwordmem : word ∈ u.rest := by simp [hrest]
  rw [hrest, charsOf_cons, (isWord_iff.mp hword).2]
  exact UsingDirective.afterWord?_squeezeFrom (by decide) (List.all_eq_true.mp (by decide))
    (h.opensWithSign hwordmem) _

/-- What is read after `static`, of which only the semicolons count. -/
theorem StandsIn.ofTarget?_statics (h : u.StandsIn code) {word : Token} {unsafes : Option Token}
    (hrole : u.role = .statics word unsafes) (hwhite : visible word.gap.toList = []) :
    (ofTarget? (squeezeFrom true
      (charsOf (unsafes.toList ++ u.target ++ [u.semicolon])))).isSome = true ↔ ';' ∉ u.body := by
  obtain ⟨hword, -⟩ : (UsingRole.statics word unsafes).IsSpelled := hrole ▸ h.role
  have hsubset : unsafes.toList ++ u.target ++ [u.semicolon] ⊆ u.rest := by
    rw [show u.rest = word :: (unsafes.toList ++ u.target ++ [u.semicolon]) by
      simp [rest, hrole, UsingRole.tokens]]
    exact List.subset_cons_self _ _
  have hchars : charsOf (unsafes.toList ++ u.target ++ [u.semicolon]) =
      charsOf unsafes.toList ++ u.targetChars ++ [';'] := by
    rw [List.append_assoc, charsOf_append, h.charsOf_target, List.append_assoc]
  have hvisible : visible (charsOf unsafes.toList ++ u.targetChars) ≠ [] := by
    rw [Text.visible_append]
    exact List.append_ne_nil_of_right_ne_nil _ h.visible_targetChars
  have hbody : u.body =
      word.gap.toList ++ ("static".toList ++ (charsOf unsafes.toList ++ u.targetChars)) := by
    rw [body_eq, hrole, UsingRole.tokens, charsOf_cons, (isWord_iff.mp hword).2]
    simp
  have hmem : ';' ∈ u.body ↔ ';' ∈ charsOf unsafes.toList ++ u.targetChars := by
    have hgap : ';' ∉ word.gap.toList := fun hc =>
      absurd (Text.visible_eq_nil_iff.mp hwhite ';' hc) (by decide)
    have hstatic : ';' ∉ "static".toList := by decide
    simp only [hbody, List.mem_append, hgap, hstatic, false_or]
  rw [h.ofTarget?_eq hsubset (fun t ht => h.equals_not_mem_statics hrole t (hsubset ht)) hchars
    hvisible true, hmem]
  split <;> simp [*]

theorem StandsIn.ofRest?_statics (h : u.StandsIn code) {word : Token} {unsafes : Option Token}
    (hrole : u.role = .statics word unsafes) :
    ofRest? (squeezeFrom true (charsOf u.rest)) =
      if ';' ∈ u.body then none
      else if visible word.gap.toList = [] ∧
          BeginsBlank (charsOf (unsafes.toList ++ u.target ++ [u.semicolon])) then some .statics
      else some (.plain (targetOf (visible u.body))) := by
  have hwhole := h.ofTarget?_eq (List.Subset.refl _) (h.equals_not_mem_statics hrole)
    h.charsOf_rest h.visible_body true
  rw [ofRest?, h.afterWord?_statics hrole, hwhole]
  by_cases hlegible : visible word.gap.toList = [] ∧
      BeginsBlank (charsOf (unsafes.toList ++ u.target ++ [u.semicolon]))
  · have hinner := h.ofTarget?_statics hrole hlegible.1
    rw [if_pos hlegible, if_pos hlegible]
    dsimp only
    by_cases hsemicolon : ';' ∈ u.body
    · rw [if_neg (mt hinner.mp (not_not_intro hsemicolon)), if_pos hsemicolon, if_pos hsemicolon]
    · rw [if_pos (hinner.mpr hsemicolon), if_neg hsemicolon]
  · rw [if_neg hlegible, if_neg hlegible]

/-- The tokens of an alias after the words before it. -/
theorem charsOf_alias (h : u.StandsIn code) {unsafes : Option Token} {name equals : Token}
    (hrole : u.role = .aliased unsafes name equals) :
    charsOf u.rest = charsOf unsafes.toList ++ (name.gap.toList ++ (name.text.toList ++
      (equals.gap.toList ++ '=' :: (u.targetChars ++ [';'])))) := by
  have hspelled := h.role
  rw [hrole] at hspelled
  have hequals : equals.text.toList = ['='] := by rw [(isSymbol_iff.mp hspelled.2.2.2).2]; rfl
  rw [h.charsOf_rest, body_eq, hrole, UsingRole.tokens, charsOf_append, charsOf_cons, charsOf_cons,
    hequals]
  simp [charsOf]

/-- The name of an alias is a name, and it stands among the tokens after `using`. -/
theorem StandsIn.name_of_aliased (h : u.StandsIn code) {unsafes : Option Token}
    {name equals : Token} (hrole : u.role = .aliased unsafes name equals) :
    name ∈ u.rest ∧ name.text.toList ≠ [] ∧ ∀ c ∈ name.text.toList, isNameChar c = true := by
  obtain ⟨-, hword, -⟩ : (UsingRole.aliased unsafes name equals).IsSpelled := hrole ▸ h.role
  have hmem : name ∈ u.rest := u.role_subset name (by simp [hrole, UsingRole.tokens])
  obtain ⟨hne, hchars⟩ := Token.isWordText_of_mem_ofText (h.mem (u.rest_subset name hmem)) hword
  exact ⟨hmem, by simpa using hne, hchars⟩

theorem equals_mem_rest {unsafes : Option Token} {name equals : Token}
    (hrole : u.role = .aliased unsafes name equals) : equals ∈ u.rest :=
  u.role_subset equals (by simp [hrole, UsingRole.tokens])

/-- No keyword is the name of an alias. -/
theorem StandsIn.name_ne (h : u.StandsIn code) {unsafes : Option Token} {name equals : Token}
    (hrole : u.role = .aliased unsafes name equals) {word : String}
    (hword : Keyword.isReserved word = true) : name.text ≠ word := by
  obtain ⟨-, -, hreserved, -⟩ : (UsingRole.aliased unsafes name equals).IsSpelled := hrole ▸ h.role
  rintro rfl
  rw [hreserved] at hword
  cases hword

/-- The name of an alias is not taken for the word `static`. -/
theorem StandsIn.afterWord?_aliased (h : u.StandsIn code) {name equals : Token}
    (hrole : u.role = .aliased none name equals) :
    UsingDirective.afterWord? "static" (squeezeFrom true (charsOf u.rest)) = none := by
  obtain ⟨-, hword, -, hsymbol⟩ : (UsingRole.aliased none name equals).IsSpelled := hrole ▸ h.role
  have hrest : u.rest = name :: equals :: (u.target ++ [u.semicolon]) := by
    simp [rest, hrole, UsingRole.tokens]
  have hnamemem := h.mem (u.rest_subset name (h.name_of_aliased hrole).1)
  have hequalsmem := h.mem (u.rest_subset equals (equals_mem_rest hrole))
  rw [hrest]
  exact afterWord?_static hnamemem hword (h.name_ne hrole (by decide)) hequalsmem
    (isSymbol_iff.mp hsymbol).1

/-- With white space and nothing else before the equals sign, a semicolon can only come after it. -/
theorem StandsIn.semicolon_mem_body_iff (h : u.StandsIn code) {name equals : Token}
    (hrole : u.role = .aliased none name equals) (hname : visible name.gap.toList = [])
    (hequals : visible equals.gap.toList = []) : ';' ∈ u.body ↔ ';' ∈ u.targetChars := by
  have hblank : ∀ {gap : List Char}, visible gap = [] → ';' ∉ gap := fun hgap hc =>
    absurd (Text.visible_eq_nil_iff.mp hgap ';' hc) (by decide)
  have hnone : ';' ∉ charsOf u.role.tokens := by
    rw [mem_charsOf]
    rintro ⟨t, ht, hgap | htext⟩
    · rw [hrole] at ht
      rcases List.mem_cons.mp ht with rfl | ht
      · exact hblank hname hgap
      · rw [List.mem_singleton.mp ht] at hgap
        exact hblank hequals hgap
    · exact semicolon_not_mem_role h t ht htext
  rw [body_eq, List.mem_append, or_iff_right hnone]

/-- An alias that the reader finds, and what it is given. -/
theorem StandsIn.ofRest?_aliased (h : u.StandsIn code) {name equals : Token}
    (hrole : u.role = .aliased none name equals) (hname : visible name.gap.toList = [])
    (halias : isAliasName name.text = true) (hequals : visible equals.gap.toList = []) :
    ofRest? (squeezeFrom true (charsOf u.rest)) =
      if ';' ∈ u.body then none else some (.aliased name.text u.seen) := by
  obtain ⟨-, hne, hchars⟩ := h.name_of_aliased hrole
  have hsplit : squeezeFrom true (charsOf u.rest) = name.text.toList ++
      squeezeFrom false (equals.gap.toList ++ '=' :: (u.targetChars ++ [';'])) := by
    rw [charsOf_alias h hrole]
    exact UsingDirective.squeezeFrom_word hname hne hchars _
  have hfound := UsingDirective.aliasName?_squeezeFrom hne (List.all_eq_true.mp halias) hequals
    (u.targetChars ++ [';'])
  rw [← hsplit, String.ofList_toList] at hfound
  have hbody := h.semicolon_mem_body_iff hrole hname hequals
  rw [ofRest?, h.afterWord?_aliased hrole]
  dsimp only
  rw [UsingDirective.ofTarget?_of_some hfound,
    UsingDirective.beforeEnd?_squeezeFrom false h.visible_targetChars, h.charsOf_rest,
    UsingDirective.beforeEnd?_squeezeFrom true h.visible_body]
  by_cases hsemicolon : ';' ∈ u.targetChars
  · simp [hsemicolon, hbody.mpr hsemicolon]
  · simp [hsemicolon, mt hbody.mp hsemicolon, seen]

theorem takeWhile_eq_nil_of_head {text : List Char}
    (h : ∀ c ∈ text.head?, isWordChar c = false) : text.takeWhile isWordChar = [] := by
  cases text with
  | nil => rfl
  | cons c rest => exact List.takeWhile_cons_of_neg (by simp [h c rfl])

/-- Where something visible stands before a word, no word comes first. -/
theorem takeWhile_sign {gap : List Char} (hgap : OpensWithSign gap) (hvisible : visible gap ≠ [])
    (more : List Char) : (squeezeFrom true (gap ++ more)).takeWhile isWordChar = [] := by
  obtain ⟨c, hc, hhead⟩ := UsingDirective.exists_sign hgap hvisible more
  refine takeWhile_eq_nil_of_head fun d hd => ?_
  rw [hhead] at hd
  cases hd
  exact UsingDirective.isWordChar_sign c hc

/-- After `unsafe` the name of an alias is not what the reader finds first. -/
theorem takeWhile_unsafe {gap name more : List Char} (hgap : OpensWithSign gap) (hne : name ≠ [])
    (hname : ∀ c ∈ name, isWordChar c = true) (hother : name ≠ "unsafe".toList) :
    ("unsafe".toList ++ squeezeFrom false (gap ++ (name ++ more))).takeWhile isWordChar ≠ name := by
  have hall : ∀ c ∈ "unsafe".toList, isWordChar c = true := List.all_eq_true.mp (by decide)
  rw [List.takeWhile_append_of_pos hall]
  intro heq
  cases gap with
  | nil =>
    rw [List.nil_append,
      Text.squeezeFrom_ink false more hne (UsingDirective.ink_of_isWordChar hname),
      List.takeWhile_append_of_pos hname] at heq
    have hlength := congrArg List.length heq
    simp only [List.length_append] at hlength
    have hsix : "unsafe".toList.length = 6 := by decide
    omega
  | cons c gap =>
    have hhead : ∀ d ∈ (squeezeFrom false (c :: gap ++ (name ++ more))).head?,
        isWordChar d = false := by
      intro d hd
      rw [List.cons_append, squeezeFrom] at hd
      cases hblank : isBlank c with
      | true =>
        simp only [hblank, ↓reduceIte, Bool.false_eq_true, List.head?_cons,
          Option.mem_some_iff] at hd
        subst hd
        decide
      | false =>
        simp only [hblank, Bool.false_eq_true, ↓reduceIte, List.head?_cons,
          Option.mem_some_iff] at hd
        subst hd
        refine UsingDirective.isWordChar_sign c (hgap c ?_)
        rw [Text.visible_cons_ink gap hblank]
        rfl
    rw [takeWhile_eq_nil_of_head hhead, List.append_nil] at heq
    exact hother heq.symm

theorem exists_alias_of_ofRest? {text : List Char} {name target : String}
    (h : ofRest? text = some (.aliased name target)) :
    ∃ after, UsingDirective.aliasName? text = some (name, after) := by
  have htarget : ofTarget? text = some (.aliased name target) := by
    rw [ofRest?] at h
    split at h
    · split at h
      · cases h
      · exact h
    · exact h
  cases hfound : UsingDirective.aliasName? text with
  | none =>
    rw [UsingDirective.ofTarget?_of_none hfound] at htarget
    obtain ⟨_, _, heq⟩ := Option.map_eq_some_iff.mp htarget
    cases heq
  | some found =>
    obtain ⟨other, after⟩ := found
    rw [UsingDirective.ofTarget?_of_some hfound] at htarget
    rcases Option.or_eq_some_iff.mp htarget with hsome | ⟨-, hsome⟩
    · obtain ⟨_, _, heq⟩ := Option.map_eq_some_iff.mp hsome
      cases heq
      exact ⟨after, rfl⟩
    · obtain ⟨_, _, heq⟩ := Option.map_eq_some_iff.mp hsome
      cases heq

/-- Behind `unsafe` the name of an alias does not come first, and neither does it behind a
comment. -/
theorem StandsIn.takeWhile_ne_of_unsafes (h : u.StandsIn code) {t name equals : Token}
    (hrole : u.role = .aliased (some t) name equals)
    (hall : ∀ c ∈ name.text.toList, isWordChar c = true) :
    (squeezeFrom true (charsOf u.rest)).takeWhile isWordChar ≠ name.text.toList := by
  obtain ⟨hunsafes, -⟩ : (UsingRole.aliased (some t) name equals).IsSpelled := hrole ▸ h.role
  obtain ⟨hnamemem, hne, -⟩ := h.name_of_aliased hrole
  have htmem : t ∈ u.rest := u.role_subset t (by simp [hrole, UsingRole.tokens])
  have hsplit : charsOf u.rest = t.gap.toList ++ ("unsafe".toList ++ (name.gap.toList ++
      (name.text.toList ++ (equals.gap.toList ++ '=' :: (u.targetChars ++ [';']))))) := by
    rw [charsOf_alias h hrole, Option.toList_some, charsOf_cons,
      (isWord_iff.mp (hunsafes t rfl)).2]
    simp [charsOf]
  rw [hsplit]
  by_cases hwhite : visible t.gap.toList = []
  · rw [UsingDirective.squeezeFrom_word hwhite (by decide) (List.all_eq_true.mp (by decide))]
    exact takeWhile_unsafe (h.opensWithSign hnamemem) hne hall
      (mt String.toList_inj.mp (h.name_ne hrole (by decide)))
  · rw [takeWhile_sign (h.opensWithSign htmem) hwhite]
    exact hne.symm

/-- A comment before the equals sign hides it. -/
theorem StandsIn.aliasName?_of_comment (h : u.StandsIn code) {name equals : Token}
    (hrole : u.role = .aliased none name equals) (hwhite : visible name.gap.toList = [])
    (hall : ∀ c ∈ name.text.toList, isWordChar c = true)
    (hvisible : visible equals.gap.toList ≠ []) :
    UsingDirective.aliasName? (squeezeFrom true (charsOf u.rest)) = none := by
  obtain ⟨-, -, hchars⟩ := h.name_of_aliased hrole
  obtain ⟨c, more, hcons⟩ := List.exists_cons_of_ne_nil hvisible
  have hc : c ∈ gapSigns :=
    h.opensWithSign (equals_mem_rest hrole) c (by rw [hcons]; rfl)
  refine UsingDirective.aliasName?_eq_none_of_visible ?_
  rw [Text.visible_squeezeFrom, charsOf_alias h hrole, Option.toList_none, charsOf_nil,
    List.nil_append, Text.visible_append, hwhite, List.nil_append, Text.visible_append,
    Text.visible_eq_self (UsingDirective.ink_of_isNameChar hchars),
    List.dropWhile_append_of_pos hall, Text.visible_append, hcons, List.cons_append,
    List.dropWhile_cons_of_neg (by simp [UsingDirective.isWordChar_sign c hc])]
  rintro ⟨⟩
  exact absurd hc (by decide)

/-- The reader finds an alias only without `unsafe` and without comments before the equals sign,
and if its name is made of word characters. -/
theorem StandsIn.legible_of_ofRest? (h : u.StandsIn code) {unsafes : Option Token}
    {name equals : Token} {target : String} (hrole : u.role = .aliased unsafes name equals)
    (hread : ofRest? (squeezeFrom true (charsOf u.rest)) = some (.aliased name.text target)) :
    unsafes = none ∧ visible name.gap.toList = [] ∧ isAliasName name.text = true ∧
      visible equals.gap.toList = [] := by
  obtain ⟨hnamemem, hne, -⟩ := h.name_of_aliased hrole
  obtain ⟨after, hfound⟩ := exists_alias_of_ofRest? hread
  obtain ⟨htake, -⟩ := UsingDirective.takeWhile_of_aliasName? hfound
  have hall : ∀ c ∈ name.text.toList, isWordChar c = true := fun c hc =>
    List.mem_takeWhile_imp (htake ▸ hc)
  cases unsafes with
  | some t => exact absurd htake.symm (h.takeWhile_ne_of_unsafes hrole hall)
  | none =>
    have hwhite : visible name.gap.toList = [] := by
      by_contra hvisible
      have hsplit := charsOf_alias h hrole
      rw [Option.toList_none, charsOf_nil, List.nil_append] at hsplit
      rw [hsplit, takeWhile_sign (h.opensWithSign hnamemem) hvisible] at htake
      exact hne htake
    refine ⟨rfl, hwhite, List.all_eq_true.mpr hall, ?_⟩
    by_contra hvisible
    rw [h.aliasName?_of_comment hrole hwhite hall hvisible] at hfound
    cases hfound

end UsingTokens

end Backfield

import Mathlib.Data.List.Chain
import Backfield.Proofs.CSharp.Gaps

/-!
# Tokens written without white space

Written one right after the other, two tokens may be read as one: two words, unless the second
begins with an at sign, and two symbols that make a longer one.

* `Joins` says which these are, for the tokens of types.
* `cuts_compact_iff` says that a token ends where the next one begins unless it joins that one.
* `tokens_compact_iff` is the run over several tokens: they are read as they were exactly when no
  two that touch join.
-/

namespace Backfield.CSharp

open Lexeme (Cuts IsPlainKind IsWhole IsWord IsClosed isGap isNameChar isSymbolChar longSymbols
  nameLength separates signs symbolLength tokens wordLength escapeLength)
open Text (isAsciiDigit visible)

namespace Lexeme

/-! ## The words of a text -/

theorem le_nameLength {skip : Nat} {text : List Char} (h : skip ≤ text.length) :
    skip ≤ nameLength skip text := by
  induction text generalizing skip with
  | nil => exact h.trans (Nat.zero_le _)
  | cons c rest ih =>
    cases skip with
    | zero => exact Nat.zero_le _
    | succ skip =>
      rw [nameLength]
      exact Nat.succ_le_succ (ih (Nat.le_of_succ_le_succ h))

/-- An escape does not depend on what follows it. -/
theorem escapeLength_take {c : Char} {rest : List Char} {n m : Nat}
    (h : escapeLength (c :: rest) = n + 1) (hm : n ≤ m) :
    escapeLength (c :: rest.take m) = n + 1 := by
  unfold escapeLength at h
  split at h
  · rename_i digits heq
    obtain ⟨rfl, rfl⟩ := List.cons.inj heq
    split_ifs at h with hdigits
    cases h
    obtain ⟨m, rfl⟩ := Nat.exists_eq_add_of_le' hm
    rw [List.take_succ_cons, escapeLength, List.take_take, Nat.min_eq_left (by omega),
      if_pos hdigits]
  · rename_i digits heq
    obtain ⟨rfl, rfl⟩ := List.cons.inj heq
    split_ifs at h with hdigits
    cases h
    obtain ⟨m, rfl⟩ := Nat.exists_eq_add_of_le' hm
    rw [List.take_succ_cons, escapeLength, List.take_take, Nat.min_eq_left (by omega),
      if_pos hdigits]
  · cases h

theorem nameLength_take (skip : Nat) (text : List Char) :
    nameLength skip (text.take (nameLength skip text)) = nameLength skip text := by
  induction text generalizing skip with
  | nil => rw [List.take_nil]
  | cons c rest ih =>
    cases skip with
    | succ skip => rw [nameLength, List.take_succ_cons, nameLength, ih]
    | zero =>
      rw [nameLength]
      split
      · rename_i hcontinue
        rw [List.take_succ_cons, nameLength, if_pos hcontinue, ih]
      · rename_i hcontinue
        split
        · rfl
        · rename_i n hescape
          have hlength := (escapeLength_append [] hescape).1
          have hn : n ≤ nameLength n rest := le_nameLength (Nat.le_of_succ_le_succ hlength)
          rw [List.take_succ_cons, nameLength, if_neg hcontinue, escapeLength_take hescape hn]
          dsimp only
          rw [ih]

/-- What is read as a name is a name by itself. -/
theorem isWhole_take {text : List Char} (h : 0 < wordLength text) :
    IsWhole (text.take (wordLength text)) := by
  have hlength : wordLength (text.take (wordLength text)) = wordLength text := by
    cases text with
    | nil => rfl
    | cons c rest =>
      rw [wordLength]
      split
      · rename_i hstart
        rw [List.take_succ_cons, wordLength, if_pos hstart, nameLength_take]
      · rename_i hstart
        split
        · rfl
        · rename_i n hescape
          have hle := (escapeLength_append [] hescape).1
          have hn : n ≤ nameLength n rest := le_nameLength (Nat.le_of_succ_le_succ hle)
          rw [List.take_succ_cons, wordLength, if_neg hstart, escapeLength_take hescape hn]
          dsimp only
          rw [nameLength_take]
  have hmin : (text.take (wordLength text)).length = wordLength text := by
    rw [List.length_take, Nat.min_eq_left (wordLength_le text)]
  refine ⟨List.ne_nil_of_length_pos (hmin.symm ▸ h), ?_⟩
  rw [hlength, hmin]

/-- The words among the pieces of a text are words by themselves. -/
theorem isWord_of_mem_cut {fuel : Nat} {text : List Char} {l : Lexeme} (h : l ∈ cut fuel text)
    (hkind : l.kind = .word) : IsWord l.text := by
  obtain ⟨c, rest, n, hmeasure, htext⟩ := exists_measure_of_mem_cut h
  rw [htext]
  rcases measure_plainKind hmeasure (Or.inl hkind) with ⟨-, hword⟩ | ⟨hsymbol, -⟩
  · rcases hword with ⟨rfl, hpos⟩ | ⟨rfl, rfl, hpos⟩
    · rw [cons_take_pred hpos]
      exact Or.inl (isWhole_take hpos)
    · rw [Nat.add_sub_cancel]
      exact Or.inr ⟨_, rfl, isWhole_take hpos⟩
  · rw [hkind] at hsymbol
    cases hsymbol

/-- A name goes on into another one. -/
theorem nameLength_of_isWhole {text : List Char} (rest : List Char) (h : IsWhole text) :
    nameLength 0 (text ++ rest) ≠ 0 := by
  obtain ⟨c, more, rfl⟩ := List.exists_cons_of_ne_nil h.1
  have hword := wordLength_append rest h
  have hpos : 0 < wordLength (c :: more ++ rest) := by
    rw [hword, List.length_cons]
    omega
  rw [List.cons_append] at hpos ⊢
  rw [← wordLength_eq_nameLength hpos]
  exact hpos.ne'

theorem nameLength_at (rest : List Char) : nameLength 0 ('@' :: rest) = 0 := by
  rw [nameLength, if_neg (by decide), escapeLength_eq_zero rest (by decide)]

/-! ## The symbols of types -/

/-- The symbols of types that are one character. -/
def shortTypeSymbols : List Char := ['.', '<', '>', ',', '(', ')', '[', ']', '?', '*']

/-- Those of them of which two make a longer symbol. -/
def doubledSymbols : List Char := ['.', '<', '?']

/-- A longer symbol that begins with one of a type has another such character or an equals sign
next. -/
theorem second_of_longSymbols : ∀ symbol ∈ longSymbols, ∀ c ∈ shortTypeSymbols,
    symbol.head? = some c → 2 ≤ symbol.length ∧
      (symbol.tail.head? = some '=' ∨ symbol.tail.head? = some c ∧ c ∈ doubledSymbols ∨
        symbol = ['>', '>', '=']) := by
  have hall : (longSymbols.all fun symbol => shortTypeSymbols.all fun c =>
      decide (symbol.head? = some c → 2 ≤ symbol.length ∧
        (symbol.tail.head? = some '=' ∨ symbol.tail.head? = some c ∧ c ∈ doubledSymbols ∨
          symbol = ['>', '>', '=']))) = true := by decide
  intro symbol hsymbol c hc
  exact of_decide_eq_true (List.all_eq_true.mp (List.all_eq_true.mp hall symbol hsymbol) c hc)

/-- Two of these signs are read as one symbol. -/
theorem symbolLength_doubled {c : Char} (rest : List Char) (hc : c ∈ shortTypeSymbols)
    (hdoubled : c ∈ doubledSymbols) : symbolLength (c :: c :: rest) ≠ 1 := by
  have hmem : ∀ d ∈ doubledSymbols, [d, d] ∈ longSymbols := List.all_iff_forall_prop.mp (by decide)
  have hsome : (longSymbols.find? (·.isPrefixOf (c :: c :: rest))).isSome := by
    rw [List.find?_isSome]
    exact ⟨[c, c], hmem c hdoubled, by simp [List.isPrefixOf]⟩
  obtain ⟨symbol, hfind⟩ := Option.isSome_iff_exists.mp hsome
  have hprefix : symbol.isPrefixOf (c :: c :: rest) = true := by simpa using List.find?_some hfind
  rw [symbolLength, hfind]
  intro hlength
  have hlength : symbol.length = 1 := hlength
  obtain ⟨d, rfl⟩ := List.length_eq_one_iff.mp hlength
  obtain ⟨after, hafter⟩ := List.isPrefixOf_iff_prefix.mp hprefix
  obtain ⟨rfl, -⟩ := List.cons.inj hafter
  have hlong := (second_of_longSymbols _ (List.mem_of_find?_eq_some hfind) d hc rfl).1
  simp at hlong

/-- In front of anything but an equals sign no longer symbol begins with a sign of a type unless it
is doubled. -/
theorem find?_longSymbols {c : Char} {rest : List Char} (hc : c ∈ shortTypeSymbols)
    (hrest : rest.head? ≠ some '=') (hclose : rest.head? = some '>' → rest.tail.head? ≠ some '=')
    (hdoubled : ¬(rest.head? = some c ∧ c ∈ doubledSymbols)) :
    longSymbols.find? (·.isPrefixOf (c :: rest)) = none := by
  refine List.find?_eq_none.mpr fun symbol hsymbol hprefix => ?_
  obtain ⟨after, hafter⟩ := List.isPrefixOf_iff_prefix.mp hprefix
  cases symbol with
  | nil => exact absurd hsymbol (by decide)
  | cons d tail =>
    obtain ⟨rfl, rfl⟩ := List.cons.inj hafter
    have hhead : ∀ e, tail.head? = some e → (tail ++ after).head? = some e := by
      intro e he
      rw [List.head?_append, he, Option.some_or]
    obtain ⟨-, hequals | ⟨hsame, hmem⟩ | hlong⟩ := second_of_longSymbols _ hsymbol d hc rfl
    · exact hrest (hhead _ hequals)
    · exact hdoubled ⟨hhead _ hsame, hmem⟩
    · obtain ⟨-, rfl⟩ := List.cons.inj hlong
      exact hclose rfl rfl

/-- In front of anything but an equals sign a symbol of a type is read by itself unless it is
doubled. -/
theorem symbolLength_eq_one_iff {c : Char} {rest : List Char} (hc : c ∈ shortTypeSymbols)
    (hrest : rest.head? ≠ some '=') (hclose : rest.head? = some '>' → rest.tail.head? ≠ some '=') :
    symbolLength (c :: rest) = 1 ↔ ¬(rest.head? = some c ∧ c ∈ doubledSymbols) := by
  constructor
  · rintro hlength ⟨hhead, hdoubled⟩
    obtain ⟨more, rfl⟩ := List.head?_eq_some_iff.mp hhead
    exact symbolLength_doubled more hc hdoubled hlength
  · intro hdoubled
    have hall : ∀ d ∈ shortTypeSymbols, isSymbolChar d = true :=
      List.all_iff_forall_prop.mp (by decide)
    rw [symbolLength, find?_longSymbols hc hrest hclose hdoubled]
    exact if_pos (hall c hc)

theorem cuts_typeSymbol_iff {c : Char} {rest : List Char} (hc : c ∈ shortTypeSymbols)
    (hdigit : ∀ d ∈ rest.head?, isAsciiDigit d = false) :
    Cuts .symbol [c] rest ↔ symbolLength (c :: rest) = 1 := by
  have hfacts : ∀ d ∈ shortTypeSymbols, d ∉ signs ∧ d ≠ '@' ∧ isNameChar d = false ∧
      isAsciiDigit d = false := List.all_iff_forall_prop.mp (by decide +kernel)
  obtain ⟨hsigns, hat, hname, hnumber⟩ := hfacts c hc
  have hzero : numberLength (c :: rest) = 0 := by
    refine numberLength_eq_zero_iff.mpr ⟨hnumber, ?_⟩
    rintro ⟨-, hany⟩
    obtain ⟨d, hd, hdec⟩ := (Option.any_eq_true _ _).mp hany
    rw [hdigit d hd] at hdec
    cases hdec
  have hmeasure := measure_of_symbol hsigns hat hname hzero
  constructor
  · rintro ⟨d, more, heq, hcuts⟩
    obtain ⟨rfl, rfl⟩ := List.cons.inj heq
    rw [List.nil_append, hmeasure] at hcuts
    split_ifs at hcuts
    · exact (Prod.mk.inj hcuts).2
    · cases hcuts
  · intro hone
    exact ⟨c, [], rfl, by rw [List.nil_append, hmeasure, hone, if_pos Nat.one_pos]; rfl⟩

theorem cuts_colons (rest : List Char) : Cuts .symbol [':', ':'] rest := ⟨':', [':'], rfl, rfl⟩

/-- What is read first ends there. -/
theorem cuts_of_tokens {kind : LexemeKind} {c : Char} {more rest : List Char} {others : List Lexeme}
    (hkind : IsPlainKind kind) (hgap : isGap c = false) (hslash : c ≠ '/') (hsharp : c ≠ '#')
    (h : tokens (ofText (c :: more ++ rest)) = ⟨kind, c :: more⟩ :: others) :
    Cuts kind (c :: more) rest := by
  rw [List.cons_append] at h
  obtain ⟨lexemes, hfirst⟩ := ofText_cons c (more ++ rest)
  cases hmeasure : measure c (more ++ rest) with
  | mk kind' n =>
  rw [hmeasure] at hfirst
  obtain ⟨hblank, hcomment, hhashed⟩ := measure_separates hmeasure
  have hseparates : separates ⟨kind', c :: (more ++ rest).take (n - 1)⟩ = false := by
    refine Bool.eq_false_iff.mpr fun hsep => ?_
    rcases separates_iff.mp hsep with hkind | hkind | hkind
    · rw [hblank hkind] at hgap
      cases hgap
    · exact hslash (plain?_comment (hcomment hkind)).1
    · exact hsharp (hhashed hkind).1
  rw [hfirst, tokens, List.filter_cons_of_pos (by rw [hseparates]; rfl)] at h
  obtain ⟨hl, -⟩ := List.cons.inj h
  obtain ⟨rfl, -⟩ := Lexeme.mk.inj hl
  obtain ⟨piece, after, hsplit, hcuts⟩ := exists_cuts hmeasure hkind
  have hpiece := ofText_of_cuts hcuts
  rw [← hsplit, hfirst] at hpiece
  obtain ⟨hl', -⟩ := List.cons.inj hpiece
  obtain rfl : c :: more = piece := (Lexeme.mk.inj (hl.symm.trans hl')).2
  rw [List.cons_append] at hsplit
  obtain rfl := List.append_cancel_left (List.cons.inj hsplit).2
  exact hcuts

end Lexeme

namespace Token

/-! ## Tokens of types -/

/-- The symbols of types. -/
def typeSymbols : List (List Char) := [':', ':'] :: Lexeme.shortTypeSymbols.map fun c => [c]

/-- The token may stand in a type. -/
def IsOfType (t : Token) : Prop :=
  t.kind = .word ∨ t.kind = .symbol ∧ t.text.toList ∈ typeSymbols

instance : DecidablePred IsOfType := fun t =>
  inferInstanceAs (Decidable (t.kind = .word ∨ t.kind = .symbol ∧ t.text.toList ∈ typeSymbols))

/-- The tokens are read as one, or as others, if nothing stands between them. -/
def Joins (a b : Token) : Prop :=
  a.kind = .word ∧ b.kind = .word ∧ b.text.toList.head? ≠ some '@' ∨
    a.kind = .symbol ∧ b.kind = .symbol ∧ a.text = b.text ∧
      a.text.toList ∈ Lexeme.doubledSymbols.map fun c => [c]

instance : DecidableRel Joins := fun a b =>
  inferInstanceAs (Decidable (a.kind = .word ∧ b.kind = .word ∧ b.text.toList.head? ≠ some '@' ∨
    a.kind = .symbol ∧ b.kind = .symbol ∧ a.text = b.text ∧
      a.text.toList ∈ Lexeme.doubledSymbols.map fun c => [c]))

/-- The token stands in the text as a part of a type, and all that stands before it but white space
are comments between `/*` and `*/`, which are closed without their blanks as well. -/
structure IsClear (code : String) (t : Token) : Prop where
  mem : t ∈ (ofText code).tokens
  ofType : t.IsOfType
  closed : IsClosed (visible t.gap.toList)

/-- The token without its place. -/
def lexeme (t : Token) : Lexeme := ⟨t.kind, t.text.toList⟩

/-- The tokens and the comments between them, without any blanks. -/
def compact (ts : List Token) : List Char :=
  ts.flatMap fun t => visible t.gap.toList ++ t.text.toList

theorem compact_cons (t : Token) (ts : List Token) :
    compact (t :: ts) = visible t.gap.toList ++ (t.text.toList ++ compact ts) := by
  simp [compact]

variable {code : String} {t : Token} {ts : List Token} {gap : List Char}

theorem isWord_of_mem_ofText (h : t ∈ (ofText code).tokens) (hkind : t.kind = .word) :
    IsWord t.text.toList :=
  Lexeme.isWord_of_mem_cut (mem_of_mem_ofLexemes h) hkind

theorem IsOfType.isPlainKind (h : t.IsOfType) : IsPlainKind t.kind := h.imp id And.left

theorem ne_nil_of_typeSymbols : ∀ symbol ∈ typeSymbols, symbol ≠ [] :=
  List.all_iff_forall_prop.mp (by decide)

theorem head_of_typeSymbols {p : Char → Prop} [DecidablePred p] {symbol : List Char} {c : Char}
    (h : symbol ∈ typeSymbols) (hc : c ∈ symbol.head?)
    (hall : ((':' :: Lexeme.shortTypeSymbols).all fun c => p c) = true) : p c := by
  have hall := List.all_iff_forall_prop.mp hall
  rcases List.mem_cons.mp h with rfl | hshort
  · cases hc
    exact hall ':' List.mem_cons_self
  · obtain ⟨d, hd, rfl⟩ := List.mem_map.mp hshort
    cases hc
    exact hall _ (List.mem_cons_of_mem _ hd)

theorem eq_singleton_of_head? {symbol : List Char} {c : Char} (h : symbol ∈ typeSymbols)
    (hc : c ∈ Lexeme.shortTypeSymbols) (hhead : symbol.head? = some c) : symbol = [c] := by
  rcases List.mem_cons.mp h with rfl | hshort
  · cases hhead
    exact absurd hc (by decide)
  · obtain ⟨d, -, rfl⟩ := List.mem_map.mp hshort
    cases hhead
    rfl

theorem eq_colons_of_head? {symbol : List Char} (h : symbol ∈ typeSymbols)
    (hhead : symbol.head? = some ':') : symbol = "::".toList := by
  rcases List.mem_cons.mp h with rfl | hshort
  · rfl
  · obtain ⟨d, hd, rfl⟩ := List.mem_map.mp hshort
    cases hhead
    exact absurd hd (by decide)

theorem IsClear.text_ne_nil (h : IsClear code t) : t.text.toList ≠ [] := by
  rcases h.ofType with hword | ⟨-, hsymbol⟩
  · exact (isWord_of_mem_ofText h.mem hword).ne_nil
  · exact ne_nil_of_typeSymbols _ hsymbol

/-! ## What comes next -/

/-- How tokens begin: with a sign, or with the first of them. -/
theorem head_compact_cases (h : ∀ t ∈ ts, IsClear code t) (hend : OpensWithSign gap) :
    (∀ b ∈ ts.head?, visible b.gap.toList ≠ []) ∧
        (∀ c ∈ (compact ts ++ visible gap).head?, c ∈ gapSigns) ∨
      ∃ b rest, ts = b :: rest ∧ visible b.gap.toList = [] ∧
        compact ts ++ visible gap = b.text.toList ++ (compact rest ++ visible gap) := by
  cases ts with
  | nil => exact Or.inl ⟨by simp, hend⟩
  | cons b rest =>
    rw [compact_cons]
    cases hgap : visible b.gap.toList with
    | nil => exact Or.inr ⟨b, rest, rfl, hgap, by simp⟩
    | cons d more =>
      refine Or.inl ⟨by simp [hgap], ?_⟩
      rintro c ⟨⟩
      exact opensWithSign_gap (h b List.mem_cons_self).mem d (by rw [hgap]; rfl)

/-- No token of a type begins with an equals sign or a digit. -/
theorem head_compact (h : ∀ t ∈ ts, IsClear code t) (hend : OpensWithSign gap) :
    ∀ c ∈ (compact ts ++ visible gap).head?, c ≠ '=' ∧ isAsciiDigit c = false := by
  have hsigns : ∀ c ∈ gapSigns, c ≠ '=' ∧ isAsciiDigit c = false :=
    List.all_iff_forall_prop.mp (by decide)
  rcases head_compact_cases h hend with ⟨-, hsign⟩ | ⟨b, rest, rfl, -, heq⟩
  · exact fun c hc => hsigns c (hsign c hc)
  · have hb := h b List.mem_cons_self
    intro c hc
    rw [heq] at hc
    rcases hb.ofType with hword | ⟨-, hsymbol⟩
    · have hends := (isWord_of_mem_ofText hb.mem hword).endsSymbol _ c hc
      refine ⟨?_, hends.2⟩
      rintro rfl
      exact absurd hends.1 (by decide)
    · rw [List.head?_append_of_ne_nil _ hb.text_ne_nil] at hc
      exact head_of_typeSymbols (p := fun d => d ≠ '=' ∧ isAsciiDigit d = false) hsymbol hc
        (by decide)

/-- A name goes on into a word right after it that has no at sign. -/
theorem nameLength_compact_iff (h : ∀ t ∈ ts, IsClear code t) (hend : OpensWithSign gap) :
    Lexeme.nameLength 0 (compact ts ++ visible gap) = 0 ↔
      ∀ b ∈ ts.head?, visible b.gap.toList = [] →
        ¬(b.kind = .word ∧ b.text.toList.head? ≠ some '@') := by
  rcases head_compact_cases h hend with ⟨hgap, hsign⟩ | ⟨b, rest, rfl, hgap, heq⟩
  · refine iff_of_true (Lexeme.nameLength_eq_zero fun c hc => isNameChar_sign c (hsign c hc)) ?_
    exact fun b hb hnone => absurd hnone (hgap b hb)
  · have hb := h b List.mem_cons_self
    have hiff : (∀ b' ∈ (b :: rest).head?, visible b'.gap.toList = [] →
        ¬(b'.kind = .word ∧ b'.text.toList.head? ≠ some '@')) ↔
          ¬(b.kind = .word ∧ b.text.toList.head? ≠ some '@') := by simp [hgap]
    rw [heq, hiff]
    rcases hb.ofType with hword | ⟨hkind, hsymbol⟩
    · rcases isWord_of_mem_ofText hb.mem hword with hwhole | ⟨name, htext, -⟩
      · have hat : b.text.toList.head? ≠ some '@' := by
          obtain ⟨c, more, htext⟩ := List.exists_cons_of_ne_nil hwhole.1
          rw [htext] at hwhole ⊢
          exact fun hhead => Lexeme.ne_at_of_isWhole hwhole (Option.some.inj hhead)
        exact iff_of_false (Lexeme.nameLength_of_isWhole _ hwhole) fun hnot => hnot ⟨hword, hat⟩
      · rw [htext, List.cons_append]
        exact iff_of_true (Lexeme.nameLength_at _) fun hnot => hnot.2 rfl
    · refine iff_of_true (Lexeme.nameLength_eq_zero fun c hc => ?_) ?_
      · rw [List.head?_append_of_ne_nil _ hb.text_ne_nil] at hc
        exact head_of_typeSymbols (p := fun d => isNameChar d = false) hsymbol hc (by decide)
      · rw [hkind]
        simp

/-- Which symbol comes right after something else. -/
theorem head_compact_eq_iff (h : ∀ t ∈ ts, IsClear code t) (hend : OpensWithSign gap) {c : Char}
    (hc : c ∈ Lexeme.shortTypeSymbols) :
    (compact ts ++ visible gap).head? = some c ↔
      ∃ b ∈ ts.head?, visible b.gap.toList = [] ∧ b.kind = .symbol ∧ b.text.toList = [c] := by
  rcases head_compact_cases h hend with ⟨hgap, hsign⟩ | ⟨b, rest, rfl, hgap, heq⟩
  · have hsigns : ∀ d ∈ Lexeme.shortTypeSymbols, d ∉ gapSigns :=
      List.all_iff_forall_prop.mp (by decide)
    refine iff_of_false (fun hhead => hsigns c hc (hsign c hhead)) ?_
    rintro ⟨b, hb, hnone, -⟩
    exact hgap b hb hnone
  · have hb := h b List.mem_cons_self
    have hiff : (∃ b' ∈ (b :: rest).head?, visible b'.gap.toList = [] ∧ b'.kind = .symbol ∧
        b'.text.toList = [c]) ↔ b.kind = .symbol ∧ b.text.toList = [c] := by simp [hgap]
    rw [heq, hiff, List.head?_append_of_ne_nil _ hb.text_ne_nil]
    rcases hb.ofType with hword | ⟨hkind, hsymbol⟩
    · refine iff_of_false (fun hhead => ?_) fun hsymbol => ?_
      · have hall : ∀ d ∈ Lexeme.shortTypeSymbols, isNameChar d = false :=
          List.all_iff_forall_prop.mp (by decide)
        have hname := (isWord_of_mem_ofText hb.mem hword).isNameChar c (List.mem_of_mem_head? hhead)
        rw [hall c hc] at hname
        cases hname
      · rw [hword] at hsymbol
        cases hsymbol.1
    · exact ⟨fun hhead => ⟨hkind, eq_singleton_of_head? hsymbol hc hhead⟩,
        fun htext => by rw [htext.2]; rfl⟩

/-- After a closing angle bracket no equals sign comes right away. -/
theorem tail_compact (h : ∀ t ∈ ts, IsClear code t) (hend : OpensWithSign gap)
    (hclose : (compact ts ++ visible gap).head? = some '>') :
    (compact ts ++ visible gap).tail.head? ≠ some '=' := by
  have hmem : '>' ∈ Lexeme.shortTypeSymbols := by decide
  obtain ⟨b, hb, hgap, -, hbtext⟩ := (head_compact_eq_iff h hend hmem).mp hclose
  obtain ⟨rest, rfl⟩ := List.head?_eq_some_iff.mp hb
  have hnext := head_compact (fun t ht => h t (List.mem_cons_of_mem b ht)) hend
  rw [compact_cons, hgap, hbtext]
  exact fun heq => (hnext _ heq).1 rfl

theorem joins_word_iff {a b : Token} (hkind : a.kind = .word) :
    Joins a b ↔ b.kind = .word ∧ b.text.toList.head? ≠ some '@' := by
  simp [Joins, hkind]

theorem not_joins_colons {a b : Token} (hkind : a.kind = .symbol)
    (htext : a.text.toList = [':', ':']) : ¬Joins a b := by
  rintro (⟨hword, -⟩ | ⟨-, -, -, hdoubled⟩)
  · rw [hkind] at hword
    cases hword
  · rw [htext] at hdoubled
    exact absurd hdoubled (by decide)

theorem joins_symbol_iff {a b : Token} {c : Char} (hkind : a.kind = .symbol)
    (htext : a.text.toList = [c]) :
    Joins a b ↔ (b.kind = .symbol ∧ b.text.toList = [c]) ∧ c ∈ Lexeme.doubledSymbols := by
  have hsame : a.text = b.text ↔ b.text.toList = [c] := by
    rw [← String.toList_inj, htext, eq_comm]
  simp [Joins, hkind, hsame, htext, and_assoc]

/-- A token ends where the next one begins unless it joins that one. -/
theorem cuts_compact_iff (ht : IsClear code t) (h : ∀ t ∈ ts, IsClear code t)
    (hend : OpensWithSign gap) :
    Cuts t.kind t.text.toList (compact ts ++ visible gap) ↔
      ∀ b ∈ ts.head?, visible b.gap.toList = [] → ¬Joins t b := by
  rcases ht.ofType with hword | ⟨hkind, hsymbol⟩
  · rw [hword, Lexeme.cuts_word_iff (isWord_of_mem_ofText ht.mem hword),
      nameLength_compact_iff h hend]
    simp only [joins_word_iff hword]
  · rw [hkind]
    rcases List.mem_cons.mp hsymbol with hcolons | hshort
    · rw [hcolons]
      exact iff_of_true (Lexeme.cuts_colons _) fun b _ _ => not_joins_colons hkind hcolons
    · obtain ⟨c, hc, htext⟩ := List.mem_map.mp hshort
      have htext : t.text.toList = [c] := htext.symm
      have hhead := head_compact h hend
      have hequals : (compact ts ++ visible gap).head? ≠ some '=' := fun heq => (hhead _ heq).1 rfl
      rw [htext, Lexeme.cuts_typeSymbol_iff hc fun d hd => (hhead d hd).2,
        Lexeme.symbolLength_eq_one_iff hc hequals (tail_compact h hend),
        head_compact_eq_iff h hend hc]
      simp only [joins_symbol_iff hkind htext]
      constructor
      · exact fun hnot b hb hgap hjoins => hnot ⟨⟨b, hb, hgap, hjoins.1⟩, hjoins.2⟩
      · rintro hnot ⟨⟨b, hb, hgap, hsame⟩, hdoubled⟩
        exact hnot b hb hgap ⟨hsame, hdoubled⟩

/-! ## Several tokens -/

/-- Nothing that only separates tokens begins like a token of a type. -/
theorem IsClear.exists_first (h : IsClear code t) :
    ∃ c more, t.text.toList = c :: more ∧ isGap c = false ∧ c ≠ '/' ∧ c ≠ '#' := by
  obtain ⟨c, more, htext⟩ := List.exists_cons_of_ne_nil h.text_ne_nil
  have hsigns : c ∉ signs := by
    rcases h.ofType with hword | ⟨-, hsymbol⟩
    · exact Lexeme.not_mem_signs ((isWord_of_mem_ofText h.mem hword).isNameChar c
        (htext ▸ List.mem_cons_self))
    · exact head_of_typeSymbols (p := fun d => d ∉ signs) hsymbol (by rw [htext]; rfl) (by decide)
  refine ⟨c, more, htext, Lexeme.isGap_eq_false hsigns, ?_, ?_⟩
  · rintro rfl
    exact hsigns (by decide)
  · rintro rfl
    exact hsigns (by decide)

/-- Tokens of a type are read as they were without the blanks between them exactly when no two
that touch then join. -/
theorem tokens_compact_iff (h : ∀ t ∈ ts, IsClear code t) (hend : OpensWithSign gap)
    (hclosed : IsClosed (visible gap)) :
    tokens (Lexeme.ofText (compact ts ++ visible gap)) = ts.map lexeme ↔
      ts.IsChain fun a b => visible b.gap.toList = [] → ¬Joins a b := by
  induction ts with
  | nil =>
    have hnone := Lexeme.tokens_ofText_closed [] hclosed
    rw [List.append_nil] at hnone
    exact iff_of_true hnone List.isChain_nil
  | cons t rest ih =>
    have ht := h t List.mem_cons_self
    have hrest : ∀ t ∈ rest, IsClear code t := fun t ht => h t (List.mem_cons_of_mem _ ht)
    have hcuts := cuts_compact_iff ht hrest hend
    rw [compact_cons, List.append_assoc, Lexeme.tokens_ofText_closed _ ht.closed, List.append_assoc,
      List.isChain_cons, ← hcuts, ← ih hrest, List.map_cons]
    constructor
    · intro htokens
      have hfirst : Cuts t.kind t.text.toList (compact rest ++ visible gap) := by
        obtain ⟨c, more, htext, hgap, hslash, hsharp⟩ := ht.exists_first
        rw [lexeme, htext] at htokens
        rw [htext]
        exact Lexeme.cuts_of_tokens ht.ofType.isPlainKind hgap hslash hsharp htokens
      refine ⟨hfirst, ?_⟩
      rw [Lexeme.ofText_of_cuts hfirst, tokens,
        List.filter_cons_of_pos (by rw [Lexeme.separates_eq_false ht.ofType.isPlainKind]; rfl)]
        at htokens
      exact (List.cons.inj htokens).2
    · rintro ⟨hfirst, htokens⟩
      rw [Lexeme.ofText_of_cuts hfirst, tokens,
        List.filter_cons_of_pos (by rw [Lexeme.separates_eq_false ht.ofType.isPlainKind]; rfl)]
      exact congrArg (List.cons _) htokens

end Token

end Backfield.CSharp

import Mathlib.Data.Bool.AllAny
import Mathlib.Data.List.TakeWhile
import Backfield.Proofs.CSharp.Spelling

/-!
# Where a text is cut

The first piece of a text depends on what follows it: a word goes on as long as names do, and two
symbols may be read as one.  `Cuts` says that a piece is cut off in front of a given rest.

* `cuts_word`, `cuts_lone`, `cuts_joining`, `cuts_arrow` and `cuts_comment` say when it is.
* `ofText_of_cuts` is the step from a text to its rest.
-/

namespace Backfield.CSharp.Lexeme

open Text (isIdentifierStart isIdentifierContinue isAsciiDigit)

/-! ## Names with something after them -/

/-- The text is a name from its first character to its last. -/
def IsWhole (text : List Char) : Prop := text ≠ [] ∧ wordLength text = text.length

instance : DecidablePred IsWhole := fun text =>
  inferInstanceAs (Decidable (text ≠ [] ∧ wordLength text = text.length))

/-- No name goes on into the text. -/
def EndsName (rest : List Char) : Prop := ∀ c ∈ rest.head?, isNameChar c = false

theorem endsName_cons {c : Char} (rest : List Char) (hc : isNameChar c = false) :
    EndsName (c :: rest) := by
  rintro d ⟨⟩
  exact hc

theorem length_of_hexDigits {n : Nat} {text : List Char}
    (h : n ≤ ((text.take n).filter isHexDigit).length) : n ≤ text.length := by
  have hfilter := List.length_filter_le isHexDigit (text.take n)
  have htake := List.length_take_le' n text
  omega

/-- An escape is read from its own characters only. -/
theorem escapeLength_append {text : List Char} {n : Nat} (rest : List Char)
    (h : escapeLength text = n + 1) :
    n + 1 ≤ text.length ∧ escapeLength (text ++ rest) = n + 1 := by
  unfold escapeLength at h
  split at h
  · rename_i digits
    split_ifs at h with hdigits
    have hlength := length_of_hexDigits hdigits
    refine ⟨by simp only [List.length_cons]; omega, ?_⟩
    rw [List.cons_append, List.cons_append, escapeLength, List.take_append_of_le_length hlength,
      if_pos hdigits, h]
  · rename_i digits
    split_ifs at h with hdigits
    have hlength := length_of_hexDigits hdigits
    refine ⟨by simp only [List.length_cons]; omega, ?_⟩
    rw [List.cons_append, List.cons_append, escapeLength, List.take_append_of_le_length hlength,
      if_pos hdigits, h]
  · cases h

theorem escapeLength_eq_zero {c : Char} (rest : List Char) (hc : c ≠ '\\') :
    escapeLength (c :: rest) = 0 := by
  unfold escapeLength
  split
  · exact absurd (List.cons.inj ‹_›).1 hc
  · exact absurd (List.cons.inj ‹_›).1 hc
  · rfl

theorem nameLength_eq_zero {rest : List Char} (h : EndsName rest) : nameLength 0 rest = 0 := by
  cases rest with
  | nil => rfl
  | cons c rest =>
    have hc : isNameChar c = false := h c rfl
    simp only [isNameChar, Bool.or_eq_false_iff, beq_eq_false_iff_ne] at hc
    rw [nameLength, if_neg (by simp [hc.1.1.2]), escapeLength_eq_zero rest hc.1.2]

/-- What begins a word is as long as it is inside a word. -/
theorem wordLength_eq_nameLength {c : Char} {rest : List Char} (h : 0 < wordLength (c :: rest)) :
    wordLength (c :: rest) = nameLength 0 (c :: rest) := by
  by_cases hstart : isIdentifierStart c = true
  · rw [wordLength, if_pos hstart, nameLength, if_pos (isIdentifierContinue_of_start hstart)]
  · rw [wordLength, if_neg hstart] at h ⊢
    have hcontinue : ¬isIdentifierContinue c = true := by
      intro hc
      have hback : c ≠ '\\' := by
        rintro rfl
        exact absurd hc (by decide)
      rw [escapeLength_eq_zero rest hback] at h
      exact Nat.lt_irrefl 0 h
    rw [nameLength, if_neg hcontinue]

/-- A name that fills a text goes on as far as names do in what follows. -/
theorem nameLength_append {skip : Nat} {text : List Char} (rest : List Char)
    (hskip : skip ≤ text.length) (h : nameLength skip text = text.length) :
    nameLength skip (text ++ rest) = text.length + nameLength 0 rest := by
  induction text generalizing skip with
  | nil =>
    obtain rfl : skip = 0 := Nat.le_zero.mp hskip
    rw [List.nil_append, List.length_nil, Nat.zero_add]
  | cons c text ih =>
    rw [List.cons_append, List.length_cons, Nat.succ_add]
    cases skip with
    | succ skip =>
      rw [nameLength, List.length_cons] at h
      rw [nameLength, ih (Nat.le_of_succ_le_succ hskip) (Nat.succ.inj h)]
    | zero =>
      rw [nameLength, List.length_cons] at h
      rw [nameLength]
      split
      · rename_i hcontinue
        rw [if_pos hcontinue] at h
        rw [ih (Nat.zero_le _) (Nat.succ.inj h)]
      · rename_i hcontinue
        rw [if_neg hcontinue] at h
        split at h
        · cases h
        · rename_i n hescape
          obtain ⟨hle, happend⟩ := escapeLength_append rest hescape
          rw [← List.cons_append, happend]
          dsimp only
          rw [ih (Nat.le_of_succ_le_succ hle) (Nat.succ.inj h)]

theorem wordLength_append {text : List Char} (rest : List Char) (h : IsWhole text) :
    wordLength (text ++ rest) = text.length + nameLength 0 rest := by
  obtain ⟨hne, hlength⟩ := h
  cases text with
  | nil => exact absurd rfl hne
  | cons c text =>
    rw [wordLength, List.length_cons] at hlength
    rw [List.cons_append, wordLength, List.length_cons, Nat.succ_add]
    split
    · rename_i hstart
      rw [if_pos hstart] at hlength
      rw [nameLength_append rest (Nat.zero_le _) (Nat.succ.inj hlength)]
    · rename_i hstart
      rw [if_neg hstart] at hlength
      split at hlength
      · cases hlength
      · rename_i n hescape
        obtain ⟨hle, happend⟩ := escapeLength_append rest hescape
        rw [← List.cons_append, happend]
        dsimp only
        rw [nameLength_append rest (Nat.le_of_succ_le_succ hle) (Nat.succ.inj hlength)]

/-! ## The first character -/

/-- All gaps. -/
def gaps : List Char :=
  ([0x09, 0x0a, 0x0b, 0x0c, 0x0d, 0x20, 0xa0, 0x3000, 0xfeff] : List Nat).map Char.ofNat

theorem mem_gaps {c : Char} (h : isGap c = true) : c ∈ gaps := by
  rw [← List.contains_iff_mem]
  simp only [isGap, Bool.or_eq_true, Bool.and_eq_true, decide_eq_true_eq, beq_iff_eq] at h
  rcases h with (((rfl | h) | h) | h) | h
  · decide
  · exact Text.of_code_between gaps.contains 0x09 0x0d (by decide) h.1 h.2
  · exact Text.of_code_between gaps.contains 0xa0 0xa0 (by decide) h.ge h.le
  · exact Text.of_code_between gaps.contains 0x3000 0x3000 (by decide) h.ge h.le
  · exact Text.of_code_between gaps.contains 0xfeff 0xfeff (by decide) h.ge h.le

/-- With these characters something else than a name begins. -/
def signs : List Char := gaps ++ ['"', '\'', '/', '$', '#']

theorem not_mem_signs {c : Char} (h : isNameChar c = true) : c ∉ signs := by
  have hall : (signs.all fun d => !isNameChar d) = true := by decide +kernel
  intro hc
  have hnot := List.all_eq_true.mp hall c hc
  simp [h] at hnot

theorem isGap_eq_false {c : Char} (h : c ∉ signs) : isGap c = false := by
  cases hgap : isGap c with
  | false => rfl
  | true => exact absurd (List.mem_append_left _ (mem_gaps hgap)) h

/-- No string, character or comment begins here. -/
structure NoLiteral (text : List Char) : Prop where
  plain : plain? text = none
  interpolated : interpolated? text = none

/-- The characters with which a literal can begin. -/
def literalSigns : List Char := ['"', '\'', '/', '$']

theorem noLiteral_of_ne {c : Char} (rest : List Char) (hc : c ∉ literalSigns)
    (hat : c = '@' → rest.head? ≠ some '"' ∧ rest.head? ≠ some '$') : NoLiteral (c :: rest) := by
  have hplain : Literal.afterPlain? (c :: rest) = none := by
    unfold Literal.afterPlain?
    split
    · rename_i heq
      obtain ⟨rfl, rfl⟩ := List.cons.inj heq
      exact absurd rfl (hat rfl).1
    · rename_i heq
      obtain ⟨rfl, -⟩ := List.cons.inj heq
      exact absurd (by decide) hc
    · rename_i heq
      obtain ⟨rfl, -⟩ := List.cons.inj heq
      exact absurd (by decide) hc
    · rename_i heq
      obtain ⟨rfl, -⟩ := List.cons.inj heq
      exact absurd (by decide) hc
    · rename_i heq
      obtain ⟨rfl, -⟩ := List.cons.inj heq
      exact absurd (by decide) hc
    · rfl
  have hinterpolated : Literal.interpolated? (c :: rest) = none := by
    unfold Literal.interpolated?
    split
    · rename_i heq
      obtain ⟨rfl, rfl⟩ := List.cons.inj heq
      exact absurd rfl (hat rfl).2
    · rename_i heq
      obtain ⟨rfl, -⟩ := List.cons.inj heq
      exact absurd (by decide) hc
    · rfl
  exact ⟨by rw [plain?, hplain], by rw [interpolated?, hinterpolated]⟩

/-- Where neither white space nor a literal nor a directive begins, there is a word, a number
or a symbol. -/
theorem measure_of_opens {c : Char} {rest : List Char} (hgap : isGap c = false) (hsharp : c ≠ '#')
    (hliteral : NoLiteral (c :: rest)) :
    measure c rest =
      if 0 < wordLength (c :: rest) then (.word, wordLength (c :: rest))
      else if c == '@' && 0 < wordLength rest then (.word, wordLength rest + 1)
      else if 0 < numberLength (c :: rest) then (.number, numberLength (c :: rest))
      else if 0 < symbolLength (c :: rest) then (.symbol, symbolLength (c :: rest))
      else (.stray, 1) := by
  rw [measure, hgap, if_neg Bool.false_ne_true]
  rw [hliteral.plain, hliteral.interpolated, Option.or_none]
  exact if_neg (by simpa using hsharp)

/-- No other character but a sign begins anything else than a word, a number or a symbol. -/
theorem measure_of_noLiteral {c : Char} {rest : List Char} (hc : c ∉ signs)
    (hliteral : NoLiteral (c :: rest)) :
    measure c rest =
      if 0 < wordLength (c :: rest) then (.word, wordLength (c :: rest))
      else if c == '@' && 0 < wordLength rest then (.word, wordLength rest + 1)
      else if 0 < numberLength (c :: rest) then (.number, numberLength (c :: rest))
      else if 0 < symbolLength (c :: rest) then (.symbol, symbolLength (c :: rest))
      else (.stray, 1) := by
  refine measure_of_opens (isGap_eq_false hc) ?_ hliteral
  rintro rfl
  exact hc (by decide)

/-! ## Pieces in front of a rest -/

/-- The piece is cut off in front of the rest. -/
def Cuts (kind : LexemeKind) (text rest : List Char) : Prop :=
  ∃ c more, text = c :: more ∧ measure c (more ++ rest) = (kind, text.length)

theorem isNameChar_of_isWhole {c : Char} {text : List Char} (h : IsWhole (c :: text)) :
    isNameChar c = true := by
  refine isNameChar_wordLength (c :: text) c ?_
  rw [h.2, List.take_length]
  exact List.mem_cons_self

theorem ne_at_of_isWhole {c : Char} {text : List Char} (h : IsWhole (c :: text)) : c ≠ '@' := by
  rintro rfl
  have hzero : wordLength ('@' :: text) = 0 := by
    rw [wordLength, if_neg (by decide), escapeLength_eq_zero text (by decide)]
  rw [h.2] at hzero
  cases hzero

theorem not_mem_literalSigns {c : Char} (h : c ∉ signs) : c ∉ literalSigns := by
  have hall : (literalSigns.all fun d => signs.contains d) = true := by decide
  exact fun hc => h (List.contains_iff_mem.mp (List.all_eq_true.mp hall c hc))

/-- A name, or one that an at sign makes a name whatever word it is. -/
def IsWord (text : List Char) : Prop := IsWhole text ∨ ∃ name, text = '@' :: name ∧ IsWhole name

instance : DecidablePred IsWord := fun text =>
  decidable_of_iff (IsWhole text ∨ (text.head? = some '@' ∧ IsWhole text.tail)) <| by
    refine or_congr_right ⟨?_, ?_⟩
    · rintro ⟨hhead, hwhole⟩
      exact ⟨text.tail, (List.cons_head?_tail hhead).symm, hwhole⟩
    · rintro ⟨name, rfl, hwhole⟩
      exact ⟨rfl, hwhole⟩

theorem IsWord.ne_nil {text : List Char} (h : IsWord text) : text ≠ [] := by
  rcases h with h | ⟨name, rfl, -⟩
  · exact h.1
  · exact List.cons_ne_nil _ _

theorem measure_whole {c : Char} {more : List Char} (rest : List Char) (h : IsWhole (c :: more)) :
    measure c (more ++ rest) = (.word, (c :: more).length + nameLength 0 rest) := by
  have hsigns := not_mem_signs (isNameChar_of_isWhole h)
  have hliteral : NoLiteral (c :: (more ++ rest)) :=
    noLiteral_of_ne _ (not_mem_literalSigns hsigns) fun hat => absurd hat (ne_at_of_isWhole h)
  have hlength : wordLength (c :: (more ++ rest)) = (c :: more).length + nameLength 0 rest :=
    wordLength_append rest h
  rw [measure_of_noLiteral hsigns hliteral, hlength,
    if_pos (Nat.add_pos_left (List.length_pos_of_ne_nil h.1) _)]

/-- After an at sign a name is one word with it. -/
theorem measure_at {name : List Char} (rest : List Char) (h : IsWhole name) :
    measure '@' (name ++ rest) = (.word, ('@' :: name).length + nameLength 0 rest) := by
  have hhead : ∀ d ∈ name.head?, d ∉ signs := by
    cases name with
    | nil => exact absurd rfl h.1
    | cons c more =>
      rintro d ⟨⟩
      exact not_mem_signs (isNameChar_of_isWhole h)
  have happend : (name ++ rest).head? = name.head? := by
    rw [List.head?_append_of_ne_nil _ h.1]
  have hliteral : NoLiteral ('@' :: (name ++ rest)) := by
    refine noLiteral_of_ne _ (by decide) fun _ => ?_
    rw [happend]
    exact ⟨fun hquote => hhead _ hquote (by decide), fun hdollar => hhead _ hdollar (by decide)⟩
  have hzero : wordLength ('@' :: (name ++ rest)) = 0 := by
    rw [wordLength, if_neg (by decide), escapeLength_eq_zero _ (by decide)]
  have hpos : 0 < name.length + nameLength 0 rest :=
    Nat.add_pos_left (List.length_pos_of_ne_nil h.1) _
  rw [measure_of_noLiteral (by decide) hliteral, hzero, wordLength_append rest h,
    if_neg (Nat.lt_irrefl 0), if_pos (by simpa using hpos), List.length_cons, Nat.succ_add]

/-- A word is cut off wherever no name goes on. -/
theorem cuts_word_iff {text rest : List Char} (h : IsWord text) :
    Cuts .word text rest ↔ nameLength 0 rest = 0 := by
  have hmeasure : ∃ c more, text = c :: more ∧
      measure c (more ++ rest) = (.word, text.length + nameLength 0 rest) := by
    rcases h with h | ⟨name, rfl, h⟩
    · obtain ⟨c, more, rfl⟩ := List.exists_cons_of_ne_nil h.1
      exact ⟨c, more, rfl, measure_whole rest h⟩
    · exact ⟨'@', name, rfl, measure_at rest h⟩
  obtain ⟨c, more, rfl, hmeasure⟩ := hmeasure
  constructor
  · rintro ⟨d, other, heq, hcuts⟩
    obtain ⟨rfl, rfl⟩ := List.cons.inj heq
    rw [hmeasure, Prod.mk.injEq] at hcuts
    omega
  · intro hzero
    exact ⟨c, more, rfl, by rw [hmeasure, hzero, Nat.add_zero]⟩

theorem cuts_word {text rest : List Char} (h : IsWord text) (hrest : EndsName rest) :
    Cuts .word text rest := (cuts_word_iff h).mpr (nameLength_eq_zero hrest)

theorem IsWord.isNameChar {text : List Char} (h : IsWord text) :
    ∀ c ∈ text, isNameChar c = true := by
  have hwhole : ∀ {name : List Char}, IsWhole name → ∀ c ∈ name, Lexeme.isNameChar c = true := by
    intro name hname c hc
    refine isNameChar_wordLength name c ?_
    rwa [hname.2, List.take_length]
  rcases h with h | ⟨name, rfl, h⟩
  · exact hwhole h
  · intro c hc
    rcases List.mem_cons.mp hc with rfl | hc
    · decide
    · exact hwhole h c hc

/-! ## Symbols -/

/-- Symbols that no other character is joined to. -/
def loneSymbols : List Char := ['\x7b', '\x7d', '(', ')', ';', ',']

theorem cuts_lone {c : Char} (rest : List Char) (hc : c ∈ loneSymbols) : Cuts .symbol [c] rest := by
  refine ⟨c, [], rfl, ?_⟩
  simp only [loneSymbols, List.mem_cons, List.not_mem_nil, or_false] at hc
  rcases hc with rfl | rfl | rfl | rfl | rfl | rfl <;> rfl

/-- Symbols that may be the beginning of a longer one. -/
def joiningSymbols : List Char := ['.', '<', '>', '=']

/-- No symbol and no number goes on into the text. -/
def EndsSymbol (rest : List Char) : Prop :=
  ∀ c ∈ rest.head?, isSymbolChar c = false ∧ isAsciiDigit c = false

theorem endsSymbol_cons {c : Char} (rest : List Char)
    (hc : isSymbolChar c = false ∧ Text.isAsciiDigit c = false) : EndsSymbol (c :: rest) := by
  rintro d ⟨⟩
  exact hc

theorem longSymbols_tail : ∀ symbol ∈ longSymbols, ∃ c d more,
    symbol = c :: d :: more ∧ isSymbolChar d = true := by
  have hall : (longSymbols.all fun symbol => (symbol.drop 1).head?.any isSymbolChar) = true := by
    decide
  intro symbol hsymbol
  have hsecond := List.all_eq_true.mp hall symbol hsymbol
  match symbol, hsecond with
  | c :: d :: more, hsecond => exact ⟨c, d, more, rfl, hsecond⟩

theorem symbolLength_of_endsSymbol {c : Char} {rest : List Char} (hc : isSymbolChar c = true)
    (hrest : EndsSymbol rest) : symbolLength (c :: rest) = 1 := by
  have hnone : longSymbols.find? (·.isPrefixOf (c :: rest)) = none := by
    refine List.find?_eq_none.mpr fun symbol hsymbol hprefix => ?_
    obtain ⟨a, d, more, rfl, hd⟩ := longSymbols_tail symbol hsymbol
    obtain ⟨after, hafter⟩ := List.isPrefixOf_iff_prefix.mp hprefix
    obtain ⟨-, rfl⟩ := List.cons.inj hafter
    have hno := (hrest d rfl).1
    rw [hd] at hno
    cases hno
  rw [symbolLength, hnone]
  exact if_pos hc

theorem numberLength_of_endsSymbol {c : Char} {rest : List Char} (hc : isAsciiDigit c = false)
    (hrest : EndsSymbol rest) : numberLength (c :: rest) = 0 := by
  unfold numberLength
  split
  · rename_i heq
    obtain ⟨rfl, -⟩ := List.cons.inj heq
    cases hc
  · rename_i heq
    obtain ⟨rfl, rfl⟩ := List.cons.inj heq
    cases rest with
    | nil => rfl
    | cons d rest => simp [fractionLength, (hrest d rfl).2]
  · rename_i heq
    obtain ⟨rfl, rfl⟩ := List.cons.inj heq
    rw [if_neg (by simp [hc])]
  · rfl

/-- A character that begins neither a name nor a number nor anything with a sign begins a symbol. -/
theorem measure_of_symbol {c : Char} {rest : List Char} (hsigns : c ∉ signs) (hat : c ≠ '@')
    (hname : isNameChar c = false) (hnumber : numberLength (c :: rest) = 0) :
    measure c rest = if 0 < symbolLength (c :: rest)
      then (.symbol, symbolLength (c :: rest)) else (.stray, 1) := by
  have hliteral : NoLiteral (c :: rest) :=
    noLiteral_of_ne rest (not_mem_literalSigns hsigns) fun h => absurd h hat
  simp only [isNameChar, Bool.or_eq_false_iff, beq_eq_false_iff_ne] at hname
  have hword : wordLength (c :: rest) = 0 := by
    rw [wordLength, if_neg (by simp [hname.1.1.1]), escapeLength_eq_zero rest hname.1.2]
  rw [measure_of_noLiteral hsigns hliteral, hword, hnumber]
  simp [hat]

theorem cuts_joining {c : Char} {rest : List Char} (hc : c ∈ joiningSymbols)
    (hrest : EndsSymbol rest) : Cuts .symbol [c] rest := by
  have hfacts : ∀ d ∈ joiningSymbols, d ∉ signs ∧ d ≠ '@' ∧ isNameChar d = false ∧
      isSymbolChar d = true ∧ isAsciiDigit d = false :=
    List.all_iff_forall_prop.mp (by decide +kernel)
  obtain ⟨hsigns, hat, hname, hsymbol, hdigit⟩ := hfacts c hc
  refine ⟨c, [], rfl, ?_⟩
  rw [List.nil_append,
    measure_of_symbol hsigns hat hname (numberLength_of_endsSymbol hdigit hrest),
    symbolLength_of_endsSymbol hsymbol hrest]
  rfl

/-- No character of a symbol is in a name. -/
theorem isNameChar_of_isSymbolChar {c : Char} (h : isSymbolChar c = true) :
    isNameChar c = false := by
  have hall : ("{}()[];,.:?=+-*/%&|^!~<>".toList.all fun d => !isNameChar d) = true := by
    decide +kernel
  simpa using List.all_eq_true.mp hall c (List.contains_iff_mem.mp h)

/-- A word begins with an at sign, a letter or an escape. -/
theorem IsWord.opens {text : List Char} (h : IsWord text) :
    ∀ c ∈ text.head?, c = '@' ∨ isIdentifierStart c = true ∨ c = '\\' := by
  rcases h with h | ⟨name, rfl, -⟩
  · cases text with
    | nil => exact absurd rfl h.1
    | cons c more =>
      rintro d ⟨⟩
      by_cases hstart : isIdentifierStart c = true
      · exact Or.inr (Or.inl hstart)
      · refine Or.inr (Or.inr (Decidable.by_contra fun hc => ?_))
        have hlength := h.2
        rw [wordLength, if_neg hstart, escapeLength_eq_zero more hc] at hlength
        cases hlength
  · rintro d ⟨⟩
    exact Or.inl rfl

theorem not_opens_of_isAsciiDigit {c : Char} (hdigit : isAsciiDigit c = true) :
    ¬(c = '@' ∨ isIdentifierStart c = true ∨ c = '\\') := by
  simp only [isAsciiDigit, Bool.and_eq_true, decide_eq_true_eq] at hdigit
  have hmem := Text.of_code_between "0123456789".toList.contains 0x30 0x39 (by decide)
    (Char.le_def.mp hdigit.1) (Char.le_def.mp hdigit.2)
  have hall : ("0123456789".toList.all fun d =>
      !(d == '@' || isIdentifierStart d || d == '\\')) = true := by decide
  simpa [not_or, and_assoc] using List.all_eq_true.mp hall c (List.contains_iff_mem.mp hmem)

/-- No symbol and no number goes on into a word. -/
theorem IsWord.endsSymbol {text : List Char} (h : IsWord text) (rest : List Char) :
    EndsSymbol (text ++ rest) := by
  intro c hc
  rw [List.head?_append_of_ne_nil _ h.ne_nil] at hc
  have hname : Lexeme.isNameChar c = true := h.isNameChar c (List.mem_of_mem_head? hc)
  refine ⟨?_, ?_⟩
  · cases hsymbol : isSymbolChar c with
    | false => rfl
    | true =>
      rw [isNameChar_of_isSymbolChar hsymbol] at hname
      cases hname
  · exact Bool.eq_false_iff.mpr fun hdigit => not_opens_of_isAsciiDigit hdigit (h.opens c hc)

theorem cuts_arrow (rest : List Char) : Cuts .symbol ['=', '>'] rest := ⟨'=', ['>'], rfl, rfl⟩

/-! ## Comments and white space -/

theorem cuts_comment {line : List Char} (rest : List Char)
    (hline : ∀ c ∈ line, Literal.isLineEnd c = false) :
    Cuts .comment ('/' :: '/' :: line) ('\n' :: rest) := by
  have hafter : Literal.afterLine (line ++ '\n' :: rest) = '\n' :: rest := by
    rw [Literal.afterLine, List.dropWhile_append_of_pos fun c hc => by simp [hline c hc]]
    rfl
  refine ⟨'/', '/' :: line, rfl, ?_⟩
  rw [measure, if_neg (by decide)]
  simp [plain?, Literal.afterPlain?, hafter, lengthBefore]
  omega

/-- Some characters of white space in front. -/
theorem measure_of_isGap {c : Char} (rest : List Char) (hc : isGap c = true) :
    measure c rest = (.blank, (rest.takeWhile isGap).length + 1) := by
  rw [measure, if_pos hc, prefixLength, List.takeWhile_cons_of_pos hc, List.length_cons]

/-! ## From a text to its rest -/

/-- More fuel than characters changes nothing. -/
theorem cut_fuel {fuel more : Nat} {text : List Char} (h : text.length ≤ fuel)
    (hmore : text.length ≤ more) : cut fuel text = cut more text := by
  induction fuel generalizing text more with
  | zero =>
    obtain rfl := List.length_eq_zero_iff.mp (Nat.le_zero.mp h)
    cases more <;> rfl
  | succ fuel ih =>
    cases text with
    | nil => cases more <;> rfl
    | cons c rest =>
      cases more with
      | zero => cases hmore
      | succ more =>
        have hrest : (rest.drop ((measure c rest).2 - 1)).length ≤ rest.length := by
          rw [List.length_drop]
          exact Nat.sub_le _ _
        exact congrArg (List.cons _) (ih (hrest.trans (Nat.le_of_succ_le_succ h))
          (hrest.trans (Nat.le_of_succ_le_succ hmore)))

/-- A piece that is cut off is the first one, and the others are those of the rest. -/
theorem ofText_of_cuts {kind : LexemeKind} {text rest : List Char} (h : Cuts kind text rest) :
    ofText (text ++ rest) = ⟨kind, text⟩ :: ofText rest := by
  obtain ⟨c, more, rfl, hmeasure⟩ := h
  have hlength : rest.length ≤ (more ++ rest).length := by
    rw [List.length_append]
    exact Nat.le_add_left _ _
  rw [ofText, List.cons_append, List.length_cons, cut, hmeasure]
  dsimp only
  rw [List.length_cons, Nat.add_sub_cancel, List.take_left, List.drop_left, ofText,
    cut_fuel hlength (Nat.le_refl _)]

theorem ofText_of_isGap {c : Char} (rest : List Char) (hc : isGap c = true) :
    ofText (c :: rest) =
      ⟨.blank, c :: rest.takeWhile isGap⟩ :: ofText (rest.dropWhile isGap) := by
  have hcuts : Cuts .blank (c :: rest.takeWhile isGap) (rest.dropWhile isGap) := by
    refine ⟨c, _, rfl, ?_⟩
    rw [List.takeWhile_append_dropWhile, measure_of_isGap rest hc, List.length_cons]
  have hsplit := ofText_of_cuts hcuts
  rwa [List.cons_append, List.takeWhile_append_dropWhile] at hsplit

end Backfield.CSharp.Lexeme

import Mathlib.Data.List.Find
import Backfield.Proofs.CSharp.Cutting
import Backfield.Proofs.Text.Collapsing

/-!
# How far a token looks ahead

Where a word or a symbol ends is decided by what stands before the first blank after it.  So it
does not matter for a token what the blanks are, or what comes after them.

* `escapeLength_inkRun`, `wordLength_inkRun`, `symbolLength_inkRun` and `numberLength_eq_zero_iff`
  say so of the pieces.
* `measure_inkRun` is the result for the first piece of a text, `Cuts.congr` for a piece in front
  of a rest.
-/

namespace Backfield.CSharp.Lexeme

open Text (inkRun isBlank isAsciiDigit inkRun_cons_ink inkRun_cons_blank)

/-! ## Words -/

theorem isNameChar_eq_false {c : Char} (hc : isBlank c = true) : isNameChar c = false := by
  cases hname : isNameChar c with
  | false => rfl
  | true => rw [Text.isBlank_of_isNameChar hname] at hc; cases hc

/-- Whether the next characters all pass a test that no blank passes is decided before the first
blank. -/
theorem le_length_filter_inkRun {test : Char → Bool}
    (htest : ∀ c, isBlank c = true → test c = false) (n : Nat) (text : List Char) :
    n ≤ (((inkRun text).take n).filter test).length ↔ n ≤ ((text.take n).filter test).length := by
  induction text generalizing n with
  | nil => rfl
  | cons c rest ih =>
    cases n with
    | zero => simp
    | succ n =>
      have hshort : ∀ text : List Char, ((text.take n).filter test).length ≤ n := fun text =>
        (List.length_filter_le _ _).trans (List.length_take_le _ _)
      by_cases hc : isBlank c = true
      · have hrest := hshort rest
        rw [inkRun_cons_blank rest hc, List.take_succ_cons,
          List.filter_cons_of_neg (by simp [htest c hc])]
        simp only [List.take_nil, List.filter_nil, List.length_nil]
        omega
      · rw [inkRun_cons_ink rest (Bool.eq_false_iff.mpr hc), List.take_succ_cons,
          List.take_succ_cons]
        cases hpass : test c with
        | true =>
          rw [List.filter_cons_of_pos hpass, List.filter_cons_of_pos hpass, List.length_cons,
            List.length_cons, Nat.add_le_add_iff_right, Nat.add_le_add_iff_right, ih n]
        | false =>
          have hrun := hshort (inkRun rest)
          have hrest := hshort rest
          rw [List.filter_cons_of_neg (by simp [hpass]), List.filter_cons_of_neg (by simp [hpass])]
          omega

theorem isHexDigit_eq_false {c : Char} (hc : isBlank c = true) : isHexDigit c = false := by
  cases hhex : isHexDigit c with
  | false => rfl
  | true => rw [Text.isBlank_of_isNameChar (isNameChar_of_hexDigit hhex)] at hc; cases hc

theorem escapeLength_inkRun (text : List Char) :
    escapeLength (inkRun text) = escapeLength text := by
  have hhex := le_length_filter_inkRun (fun _ => isHexDigit_eq_false)
  have hback : isBlank '\\' = false := by decide
  have hu : isBlank 'u' = false := by decide
  have hU : isBlank 'U' = false := by decide
  match text with
  | [] => rfl
  | c :: rest =>
    by_cases hc : c = '\\'
    · subst hc
      rw [inkRun_cons_ink rest hback]
      match rest with
      | [] => rfl
      | d :: more =>
        by_cases hd : d = 'u'
        · subst hd
          rw [inkRun_cons_ink more hu, escapeLength, escapeLength]
          simp only [hhex]
        · by_cases hd' : d = 'U'
          · subst hd'
            rw [inkRun_cons_ink more hU, escapeLength, escapeLength]
            simp only [hhex]
          · by_cases hblank : isBlank d = true
            · rw [inkRun_cons_blank more hblank]
              simp [escapeLength, hd, hd']
            · rw [inkRun_cons_ink more (Bool.eq_false_iff.mpr hblank)]
              simp [escapeLength, hd, hd']
    · rw [escapeLength_eq_zero rest hc]
      by_cases hblank : isBlank c = true
      · rw [inkRun_cons_blank rest hblank]
        rfl
      · rw [inkRun_cons_ink rest (Bool.eq_false_iff.mpr hblank), escapeLength_eq_zero _ hc]

theorem nameLength_inkRun {skip : Nat} {text : List Char} (hskip : skip ≤ (inkRun text).length) :
    nameLength skip (inkRun text) = nameLength skip text := by
  induction text generalizing skip with
  | nil => rfl
  | cons c rest ih =>
    by_cases hc : isBlank c = true
    · rw [inkRun_cons_blank rest hc] at hskip ⊢
      obtain rfl := Nat.le_zero.mp hskip
      exact (nameLength_eq_zero (endsName_cons rest (isNameChar_eq_false hc))).symm
    · have hescape := escapeLength_inkRun (c :: rest)
      rw [inkRun_cons_ink rest (Bool.eq_false_iff.mpr hc)] at hskip hescape ⊢
      rw [List.length_cons] at hskip
      cases skip with
      | succ skip => rw [nameLength, nameLength, ih (Nat.le_of_succ_le_succ hskip)]
      | zero =>
        rw [nameLength, nameLength, hescape, ih (Nat.zero_le _)]
        cases hlength : escapeLength (c :: rest) with
        | zero => rfl
        | succ n =>
          have hbound := (escapeLength_append [] (hescape.trans hlength)).1
          rw [List.length_cons] at hbound
          simp only [ih (Nat.le_of_succ_le_succ hbound)]

theorem wordLength_inkRun (text : List Char) : wordLength (inkRun text) = wordLength text := by
  cases text with
  | nil => rfl
  | cons c rest =>
    by_cases hc : isBlank c = true
    · have hname := isNameChar_eq_false hc
      simp only [isNameChar, Bool.or_eq_false_iff, beq_eq_false_iff_ne] at hname
      rw [inkRun_cons_blank rest hc, wordLength, wordLength, if_neg (by simp [hname.1.1.1]),
        escapeLength_eq_zero rest hname.1.2]
    · have hescape := escapeLength_inkRun (c :: rest)
      rw [inkRun_cons_ink rest (Bool.eq_false_iff.mpr hc)] at hescape ⊢
      rw [wordLength, wordLength, hescape, nameLength_inkRun (Nat.zero_le _)]
      cases hlength : escapeLength (c :: rest) with
      | zero => rfl
      | succ n =>
        have hbound := (escapeLength_append [] (hescape.trans hlength)).1
        rw [List.length_cons] at hbound
        simp only [nameLength_inkRun (Nat.le_of_succ_le_succ hbound)]

/-! ## Symbols and numbers -/

theorem isPrefixOf_inkRun {word : List Char} (hword : ∀ c ∈ word, isBlank c = false)
    (text : List Char) : word.isPrefixOf (inkRun text) = word.isPrefixOf text := by
  induction word generalizing text with
  | nil => simp
  | cons c word ih =>
    cases text with
    | nil => rfl
    | cons d rest =>
      by_cases hd : isBlank d = true
      · have hne : (c == d) = false := by
          rw [beq_eq_false_iff_ne]
          rintro rfl
          rw [hword c List.mem_cons_self] at hd
          cases hd
        rw [inkRun_cons_blank rest hd]
        simp [List.isPrefixOf, hne]
      · rw [inkRun_cons_ink rest (Bool.eq_false_iff.mpr hd), List.isPrefixOf, List.isPrefixOf,
          ih fun x hx => hword x (List.mem_cons_of_mem _ hx)]

theorem head?_inkRun {text : List Char} (test : Char → Bool)
    (htest : ∀ c, isBlank c = true → test c = false) :
    (inkRun text).head?.any test = text.head?.any test := by
  cases text with
  | nil => rfl
  | cons c rest =>
    by_cases hc : isBlank c = true
    · simp [inkRun_cons_blank rest hc, htest c hc]
    · simp [inkRun_cons_ink rest (Bool.eq_false_iff.mpr hc)]

theorem isSymbolChar_eq_false {c : Char} (hc : isBlank c = true) : isSymbolChar c = false := by
  cases hsymbol : isSymbolChar c with
  | false => rfl
  | true => rw [(isSymbolChar_ink hsymbol).1] at hc; cases hc

theorem symbolLength_inkRun (text : List Char) :
    symbolLength (inkRun text) = symbolLength text := by
  have hfind : longSymbols.find? (·.isPrefixOf (inkRun text)) =
      longSymbols.find? (·.isPrefixOf text) := by
    refine List.find?_congr fun symbol hsymbol => ?_
    exact isPrefixOf_inkRun
      (fun c hc => (isSymbolChar_ink (longSymbols_chars symbol hsymbol c hc)).1) text
  rw [symbolLength, symbolLength, hfind, head?_inkRun isSymbolChar fun _ => isSymbolChar_eq_false]

theorem isAsciiDigit_eq_false {c : Char} (hc : isBlank c = true) : isAsciiDigit c = false := by
  cases hdigit : isAsciiDigit c with
  | false => rfl
  | true =>
    have hhex : isHexDigit c = true := by simp [isHexDigit, hdigit]
    rw [isHexDigit_eq_false hc] at hhex
    cases hhex

theorem decimalLength_pos {c : Char} {rest : List Char} (hc : isAsciiDigit c = true) :
    0 < decimalLength (c :: rest) := by
  have hpart : isDigitPart c = true := by simp [isDigitPart, hc]
  simp only [decimalLength, lengthWithExponent, prefixLength, List.takeWhile_cons_of_pos hpart,
    List.length_cons]
  omega

/-- A number begins with a digit, or with a point in front of one. -/
theorem numberLength_eq_zero_iff {c : Char} {rest : List Char} :
    numberLength (c :: rest) = 0 ↔
      isAsciiDigit c = false ∧ ¬(c = '.' ∧ rest.head?.any isAsciiDigit = true) := by
  unfold numberLength
  split
  · rename_i x more heq
    obtain ⟨rfl, rfl⟩ := List.cons.inj heq
    have hzero : isAsciiDigit '0' = true := by decide
    have hpos : 0 < decimalLength ('0' :: x :: more) := decimalLength_pos hzero
    split_ifs
    · simp [markedLength, hzero]
    · simp [markedLength, hzero]
    · simp [hzero]
      omega
  · rename_i more heq
    obtain ⟨rfl, rfl⟩ := List.cons.inj heq
    have hpoint : isAsciiDigit '.' = false := by decide
    cases rest with
    | nil => simp [fractionLength, hpoint]
    | cons d more =>
      by_cases hd : isAsciiDigit d = true
      · have hfraction : fractionLength ('.' :: d :: more) = prefixLength isDigitPart more + 2 := by
          rw [fractionLength, if_pos hd]
        simp only [hfraction, lengthWithExponent]
        simp [hd]
      · have hfraction : fractionLength ('.' :: d :: more) = 0 := by
          rw [fractionLength, if_neg hd]
        simp [hfraction, hd, hpoint]
  · rename_i hpoint heq
    obtain ⟨rfl, rfl⟩ := List.cons.inj heq
    have hne : c ≠ '.' := hpoint
    split_ifs with hc
    · have hpos : 0 < decimalLength (c :: rest) := decimalLength_pos hc
      simp [hc]
      omega
    · simp [hc, hne]
  · rename_i heq
    cases heq

theorem numberLength_inkRun {c : Char} (rest : List Char) :
    numberLength (c :: inkRun rest) = 0 ↔ numberLength (c :: rest) = 0 := by
  rw [numberLength_eq_zero_iff, numberLength_eq_zero_iff,
    head?_inkRun isAsciiDigit fun _ => isAsciiDigit_eq_false]

/-! ## Literals -/

/-- A text begins a literal without holes or a comment with its first two characters. -/
theorem plain?_eq_none_iff {c : Char} {rest : List Char} :
    plain? (c :: rest) = none ↔
      ¬(c = '"' ∨ c = '\'' ∨ (c = '@' ∧ rest.head? = some '"') ∨
        (c = '/' ∧ (rest.head? = some '*' ∨ rest.head? = some '/'))) := by
  have hnone : plain? (c :: rest) = none ↔ Literal.afterPlain? (c :: rest) = none := by
    unfold plain?
    split
    · simp [*]
    · simp [*]
    · simp [*]
  rw [hnone]
  unfold Literal.afterPlain?
  split
  · rename_i heq
    obtain ⟨rfl, rfl⟩ := List.cons.inj heq
    simp
  · rename_i heq
    obtain ⟨rfl, -⟩ := List.cons.inj heq
    dsimp only
    split <;> simp
  · rename_i heq
    obtain ⟨rfl, -⟩ := List.cons.inj heq
    simp
  · rename_i heq
    obtain ⟨rfl, rfl⟩ := List.cons.inj heq
    simp
  · rename_i heq
    obtain ⟨rfl, rfl⟩ := List.cons.inj heq
    simp
  · rename_i hverbatim hstring hchar hblock hline
    have hcons : ∀ d, rest.head? = some d → rest = d :: rest.tail := fun d hd =>
      (List.cons_head?_tail hd).symm
    refine iff_of_true rfl ?_
    rintro (rfl | rfl | ⟨rfl, hquote⟩ | ⟨rfl, hstar | hslash⟩)
    · exact hstring rest rfl
    · exact hchar rest rfl
    · exact hverbatim _ (congrArg _ (hcons _ hquote))
    · exact hblock _ (congrArg _ (hcons _ hstar))
    · exact hline _ (congrArg _ (hcons _ hslash))

theorem head?_inkRun_eq_some {text : List Char} {c : Char} (hc : isBlank c = false) :
    (inkRun text).head? = some c ↔ text.head? = some c := by
  cases text with
  | nil => rfl
  | cons d rest =>
    by_cases hd : isBlank d = true
    · have hne : d ≠ c := by
        rintro rfl
        rw [hc] at hd
        cases hd
      simp [inkRun_cons_blank rest hd, hne]
    · rw [inkRun_cons_ink rest (Bool.eq_false_iff.mpr hd), List.head?_cons, List.head?_cons]

theorem plain?_inkRun {c : Char} (rest : List Char) :
    plain? (c :: inkRun rest) = none ↔ plain? (c :: rest) = none := by
  rw [plain?_eq_none_iff, plain?_eq_none_iff, head?_inkRun_eq_some (by decide),
    head?_inkRun_eq_some (by decide), head?_inkRun_eq_some (by decide)]

/-- A text that does not begin with a dollar sign begins an interpolated string with an at sign, a
dollar sign and a quote. -/
theorem interpolated?_eq_none_iff {c : Char} {rest : List Char} (hc : c ≠ '$') :
    interpolated? (c :: rest) = none ↔ ¬(c = '@' ∧ ['$', '"'].isPrefixOf rest = true) := by
  have hnone : interpolated? (c :: rest) = none ↔ Literal.interpolated? (c :: rest) = none := by
    unfold interpolated?
    split
    · simp [*]
    · split
      · simp [*]
      · simp [*]
  rw [hnone]
  unfold Literal.interpolated?
  split
  · rename_i heq
    obtain ⟨rfl, rfl⟩ := List.cons.inj heq
    simp
  · rename_i heq
    exact absurd (List.cons.inj heq).1 hc
  · rename_i hat _
    refine iff_of_true rfl ?_
    rintro ⟨rfl, hprefix⟩
    obtain ⟨more, rfl⟩ := List.isPrefixOf_iff_prefix.mp hprefix
    exact hat more rfl

theorem interpolated?_inkRun {c : Char} (rest : List Char) (hc : c ≠ '$') :
    interpolated? (c :: inkRun rest) = none ↔ interpolated? (c :: rest) = none := by
  have hink : ∀ d ∈ ['$', '"'], isBlank d = false :=
    List.forall_mem_cons.mpr ⟨by decide, List.forall_mem_singleton.mpr (by decide)⟩
  rw [interpolated?_eq_none_iff hc, interpolated?_eq_none_iff hc, isPrefixOf_inkRun hink]

/-! ## The first piece -/

/-- A word or a symbol begins with a visible character, of names or of symbols. -/
theorem head_of_measure {c : Char} {rest : List Char} {kind : LexemeKind} {n : Nat}
    (h : measure c rest = (kind, n)) (hkind : IsPlainKind kind) :
    0 < n ∧ (isNameChar c = true ∨ isSymbolChar c = true) := by
  rcases measure_plainKind h hkind with ⟨-, ⟨hn, hpos⟩ | ⟨rfl, hn, -⟩⟩ | ⟨-, hn, hpos⟩
  · refine ⟨hpos, Or.inl (isNameChar_wordLength (c :: rest) c ?_)⟩
    rw [← hn, ← Nat.sub_add_cancel hpos, List.take_succ_cons]
    exact List.mem_cons_self
  · exact ⟨by omega, Or.inl (by decide)⟩
  · refine ⟨hpos, Or.inr (isSymbolChar_symbolLength (c :: rest) c ?_)⟩
    rw [← hn, ← Nat.sub_add_cancel hpos, List.take_succ_cons]
    exact List.mem_cons_self

/-- Neither white space nor a literal, a comment or a line for the compiler begins with a word or a
symbol. -/
theorem opens_of_measure {c : Char} {rest : List Char} {kind : LexemeKind} {n : Nat}
    (h : measure c rest = (kind, n)) (hkind : IsPlainKind kind) :
    isGap c = false ∧ c ≠ '#' ∧ NoLiteral (c :: rest) := by
  have hsharp : c ≠ '#' := by
    rintro rfl
    rcases (head_of_measure h hkind).2 with hname | hsymbol
    · exact absurd hname (by decide)
    · exact absurd hsymbol (by decide)
  unfold measure at h
  dsimp only at h
  split at h
  · cases h
    simp [IsPlainKind] at hkind
  · rename_i hgap
    refine ⟨Bool.eq_false_iff.mpr hgap, hsharp, ?_⟩
    split at h
    · cases h
      simp [IsPlainKind] at hkind
    · rename_i kind' m _ hliteral
      cases h
      exact absurd hkind (not_isPlainKind_literal hliteral)
    · rename_i hliteral
      rw [Option.or_eq_none_iff] at hliteral
      exact ⟨hliteral.1, hliteral.2⟩

/-- What a word or a symbol at the front is, and how long, is told before the next blank. -/
theorem measure_inkRun {c : Char} {rest : List Char} {kind : LexemeKind} {n : Nat}
    (hkind : IsPlainKind kind) :
    measure c (inkRun rest) = (kind, n) ↔ measure c rest = (kind, n) := by
  by_cases hname : isNameChar c = true ∨ isSymbolChar c = true
  · have hc : isBlank c = false := hname.elim Text.isBlank_of_isNameChar
      fun hsymbol => (isSymbolChar_ink hsymbol).1
    have hdollar : c ≠ '$' := by
      rintro rfl
      exact absurd hname (by decide)
    have hliteral : NoLiteral (c :: inkRun rest) ↔ NoLiteral (c :: rest) :=
      ⟨fun h => ⟨(plain?_inkRun rest).mp h.plain,
        (interpolated?_inkRun rest hdollar).mp h.interpolated⟩,
      fun h => ⟨(plain?_inkRun rest).mpr h.plain,
        (interpolated?_inkRun rest hdollar).mpr h.interpolated⟩⟩
    by_cases hopens : isGap c = false ∧ c ≠ '#' ∧ NoLiteral (c :: rest)
    · have hword := wordLength_inkRun (c :: rest)
      have hsymbol := symbolLength_inkRun (c :: rest)
      rw [inkRun_cons_ink rest hc] at hword hsymbol
      have hnumber : 0 < numberLength (c :: inkRun rest) ↔ 0 < numberLength (c :: rest) := by
        rw [Nat.pos_iff_ne_zero, Nat.pos_iff_ne_zero, Ne, Ne, numberLength_inkRun]
      rw [measure_of_opens hopens.1 hopens.2.1 hopens.2.2,
        measure_of_opens hopens.1 hopens.2.1 (hliteral.mpr hopens.2.2), hword, hsymbol,
        wordLength_inkRun rest]
      by_cases hpos : 0 < numberLength (c :: rest)
      · rw [if_pos hpos, if_pos (hnumber.mpr hpos)]
        have hno : ∀ m, (LexemeKind.number, m) ≠ (kind, n) := by
          rintro m heq
          rw [← (Prod.mk.inj heq).1] at hkind
          simp [IsPlainKind] at hkind
        split_ifs <;> simp [hno]
      · rw [if_neg hpos, if_neg (mt hnumber.mp hpos)]
    · refine iff_of_false (fun h => ?_) fun h => hopens (opens_of_measure h hkind)
      have hrun := opens_of_measure h hkind
      exact hopens ⟨hrun.1, hrun.2.1, hliteral.mp hrun.2.2⟩
  · exact iff_of_false (fun h => hname (head_of_measure h hkind).2)
      fun h => hname (head_of_measure h hkind).2

theorem inkRun_append_ink {piece rest rest' : List Char} (h : inkRun rest = inkRun rest')
    (hpiece : ∀ c ∈ piece, isBlank c = false) :
    inkRun (piece ++ rest) = inkRun (piece ++ rest') := by
  rw [Text.inkRun_append rest hpiece, Text.inkRun_append rest' hpiece, h]

/-- A word or a symbol is cut off in front of any rest that begins with the same visible
characters. -/
theorem Cuts.congr {kind : LexemeKind} {piece rest rest' : List Char} (h : Cuts kind piece rest)
    (hkind : IsPlainKind kind) (hpiece : ∀ c ∈ piece, isBlank c = false)
    (hrest : inkRun rest = inkRun rest') : Cuts kind piece rest' := by
  obtain ⟨c, more, rfl, hmeasure⟩ := h
  have hrun := inkRun_append_ink hrest fun x hx => hpiece x (List.mem_cons_of_mem _ hx)
  refine ⟨c, more, rfl, ?_⟩
  rw [← measure_inkRun hkind, ← hrun, measure_inkRun hkind, hmeasure]

end Backfield.CSharp.Lexeme

import Mathlib.Data.List.TakeWhile
import Backfield.CSharp.Token

/-!
# Words

What a word can be made of.  `isNameChar` holds of the characters of a name, of the at sign that
may stand before it and of the backslash of a Unicode escape; a dot, a bracket, a comma and a
blank are none of them.

* `measure_plainKind` says where a word or a symbol is cut off.
* `isWordText_of_mem_ofText` is the result: whatever the text, its words are not empty and consist
  of such characters.
-/

namespace Backfield.CSharp

namespace Lexeme

open Text (isIdentifierStart isIdentifierContinue isAsciiDigit isAsciiLetter isAscii)

/-- A character that a word can have. -/
def isNameChar (c : Char) : Bool :=
  isIdentifierStart c || isIdentifierContinue c || c == '\\' || c == '@'

theorem isNameChar_of_start {c : Char} (h : isIdentifierStart c = true) : isNameChar c = true := by
  simp [isNameChar, h]

theorem isNameChar_of_continue {c : Char} (h : isIdentifierContinue c = true) :
    isNameChar c = true := by
  simp [isNameChar, h]

/-- A character that may begin a name may stand in it. -/
theorem isIdentifierContinue_of_start {c : Char} (h : Text.isIdentifierStart c = true) :
    Text.isIdentifierContinue c = true := by
  unfold Text.isIdentifierStart at h
  unfold Text.isIdentifierContinue
  split_ifs at h ⊢ with hascii
  · simp only [Bool.or_eq_true] at h ⊢
    exact h.elim (fun h => Or.inl (Or.inl h)) Or.inr
  · simp only [Bool.or_eq_true] at h ⊢
    rcases h with (h | h) | h
    · exact Or.inl (Or.inl (Or.inl (Or.inl (Or.inl (Bool.and_eq_true_iff.mp h).1))))
    · exact Or.inl (Or.inr h)
    · -- Two of the characters are marks, the others are listed as such that a name goes on with.
      have hall : (Text.extraStarts.all fun code =>
          Text.inRanges Text.markRanges code || Text.extraContinues.contains code) = true := by
        decide +kernel
      have hcode := List.all_eq_true.mp hall _ (List.contains_iff_mem.mp h)
      rcases Bool.or_eq_true_iff.mp hcode with hmark | hextra
      · exact Or.inl (Or.inl (Or.inl (Or.inl (Or.inr (by simp [Text.isMark, hascii, hmark])))))
      · exact Or.inr hextra

/-! ## Escapes -/

theorem isNameChar_of_hexDigit {c : Char} (h : isHexDigit c = true) : isNameChar c = true := by
  have hascii : c.toNat < 128 ∧ (isAsciiLetter c = true ∨ isAsciiDigit c = true) := by
    simp only [isHexDigit, isAsciiDigit, isAsciiLetter, Bool.or_eq_true, Bool.and_eq_true,
      decide_eq_true_eq, Char.le_def, UInt32.le_iff_toNat_le] at h ⊢
    simp only [Char.toNat, Char.reduceVal, UInt32.reduceToNat] at h ⊢
    omega
  apply isNameChar_of_continue
  rcases hascii.2 with hletter | hdigit
  · simp [isIdentifierContinue, isAscii, hascii.1, hletter]
  · simp [isIdentifierContinue, isAscii, hascii.1, hdigit]

/-- All of the next characters are hexadecimal digits if so many of them are. -/
theorem isHexDigit_of_le {n : Nat} {text : List Char}
    (h : n ≤ ((text.take n).filter isHexDigit).length) :
    ∀ c ∈ text.take n, isHexDigit c = true := by
  have hshort : (text.take n).length ≤ n := List.length_take_le n text
  have hall : ((text.take n).filter isHexDigit).length = (text.take n).length :=
    Nat.le_antisymm (List.length_filter_le _ _) (by omega)
  exact List.length_filter_eq_length_iff.mp hall

/-- An escape is a backslash, a letter and hexadecimal digits. -/
theorem isNameChar_escape {c : Char} {rest : List Char} {n : Nat}
    (h : escapeLength (c :: rest) = n + 1) :
    isNameChar c = true ∧ ∀ x ∈ rest.take n, isNameChar x = true := by
  have hback : isNameChar '\\' = true := by decide
  unfold escapeLength at h
  split at h
  · rename_i digits heq
    obtain ⟨rfl, rfl⟩ := List.cons.inj heq
    split_ifs at h with hdigits
    · obtain rfl : n = 5 := by omega
      refine ⟨hback, fun x hx => ?_⟩
      rcases List.mem_cons.mp hx with rfl | hx
      · decide
      · exact isNameChar_of_hexDigit (isHexDigit_of_le hdigits x hx)
  · rename_i digits heq
    obtain ⟨rfl, rfl⟩ := List.cons.inj heq
    split_ifs at h with hdigits
    · obtain rfl : n = 9 := by omega
      refine ⟨hback, fun x hx => ?_⟩
      rcases List.mem_cons.mp hx with rfl | hx
      · decide
      · exact isNameChar_of_hexDigit (isHexDigit_of_le hdigits x hx)
  · omega

/-! ## Words in a text -/

/-- The rest of a name consists of the characters of names if what is left of an escape does. -/
theorem isNameChar_nameLength (skip : Nat) (text : List Char)
    (hskip : ∀ x ∈ text.take skip, isNameChar x = true) :
    ∀ x ∈ text.take (nameLength skip text), isNameChar x = true := by
  induction text generalizing skip with
  | nil => simp
  | cons c rest ih =>
    cases skip with
    | succ skip =>
      rw [List.take_succ_cons] at hskip
      rw [nameLength, List.take_succ_cons]
      intro x hx
      rcases List.mem_cons.mp hx with rfl | hx
      · exact hskip _ List.mem_cons_self
      · exact ih skip (fun y hy => hskip y (List.mem_cons_of_mem _ hy)) x hx
    | zero =>
      rw [nameLength]
      split
      · rename_i hcontinue
        rw [List.take_succ_cons]
        intro x hx
        rcases List.mem_cons.mp hx with rfl | hx
        · exact isNameChar_of_continue hcontinue
        · exact ih 0 (by simp) x hx
      · split
        · simp
        · rename_i n hescape
          obtain ⟨hc, hdigits⟩ := isNameChar_escape hescape
          rw [List.take_succ_cons]
          intro x hx
          rcases List.mem_cons.mp hx with rfl | hx
          · exact hc
          · exact ih n hdigits x hx

theorem isNameChar_wordLength (text : List Char) :
    ∀ x ∈ text.take (wordLength text), isNameChar x = true := by
  cases text with
  | nil => simp
  | cons c rest =>
    rw [wordLength]
    split
    · rename_i hstart
      rw [List.take_succ_cons]
      intro x hx
      rcases List.mem_cons.mp hx with rfl | hx
      · exact isNameChar_of_start hstart
      · exact isNameChar_nameLength 0 rest (by simp) x hx
    · split
      · simp
      · rename_i n hescape
        obtain ⟨hc, hdigits⟩ := isNameChar_escape hescape
        rw [List.take_succ_cons]
        intro x hx
        rcases List.mem_cons.mp hx with rfl | hx
        · exact hc
        · exact isNameChar_nameLength n rest hdigits x hx

/-! ## Words among lexemes -/

/-- A word or a symbol: what the parser looks at. -/
def IsPlainKind (kind : LexemeKind) : Prop := kind = .word ∨ kind = .symbol

instance : DecidablePred IsPlainKind := fun kind =>
  inferInstanceAs (Decidable (kind = .word ∨ kind = .symbol))

theorem not_isPlainKind_plain? {text : List Char} {kind : LexemeKind} {n : Nat}
    (h : plain? text = some (kind, n)) : ¬IsPlainKind kind := by
  unfold plain? at h
  split at h
  · cases h
  · cases h
    split <;> simp [IsPlainKind]
  · cases h
    simp [IsPlainKind]

theorem not_isPlainKind_interpolated? {text : List Char} {kind : LexemeKind} {n : Nat}
    (h : interpolated? text = some (kind, n)) : ¬IsPlainKind kind := by
  unfold interpolated? at h
  split at h
  · cases h
  · split at h
    · cases h
      simp [IsPlainKind]
    · cases h
      simp [IsPlainKind]

/-- No literal and no comment is a word or a symbol. -/
theorem not_isPlainKind_literal {text : List Char} {kind : LexemeKind} {n : Nat}
    (h : (plain? text).or (interpolated? text) = some (kind, n)) : ¬IsPlainKind kind := by
  rcases Option.or_eq_some_iff.mp h with hplain | ⟨-, hinterpolated⟩
  · exact not_isPlainKind_plain? hplain
  · exact not_isPlainKind_interpolated? hinterpolated

theorem not_isPlainKind_directiveKind (rest : List Char) : ¬IsPlainKind (directiveKind rest) := by
  unfold directiveKind
  split
  all_goals first | (split <;> simp [IsPlainKind]) | simp [IsPlainKind]

/-- Where a word or a symbol is cut off: a word where a name begins, or after an at sign before
a name, and a symbol where one begins. -/
theorem measure_plainKind {c : Char} {rest : List Char} {kind : LexemeKind} {n : Nat}
    (h : measure c rest = (kind, n)) (hkind : IsPlainKind kind) :
    (kind = .word ∧ (n = wordLength (c :: rest) ∧ 0 < n ∨
      c = '@' ∧ n = wordLength rest + 1 ∧ 0 < wordLength rest)) ∨
    (kind = .symbol ∧ n = symbolLength (c :: rest) ∧ 0 < n) := by
  unfold measure at h
  dsimp only at h
  split at h
  · cases h
    simp [IsPlainKind] at hkind
  · split at h
    · cases h
      simp [IsPlainKind] at hkind
    · rename_i kind' m _ hliteral
      cases h
      exact absurd hkind (not_isPlainKind_literal hliteral)
    · split at h
      · split at h
        · cases h
          simp [IsPlainKind] at hkind
        · rw [← (Prod.mk.inj h).1] at hkind
          exact absurd hkind (not_isPlainKind_directiveKind rest)
      · split_ifs at h with hword hat hnumber hsymbol
        · cases h
          exact Or.inl ⟨rfl, Or.inl ⟨rfl, hword⟩⟩
        · cases h
          simp only [Bool.and_eq_true, beq_iff_eq, decide_eq_true_eq] at hat
          exact Or.inl ⟨rfl, Or.inr ⟨hat.1, rfl, hat.2⟩⟩
        · cases h
          simp [IsPlainKind] at hkind
        · cases h
          exact Or.inr ⟨rfl, rfl, hsymbol⟩
        · cases h
          simp [IsPlainKind] at hkind

/-- A piece of a text is what `measure` finds at a rest of the text. -/
theorem exists_measure_of_mem_cut {fuel : Nat} {text : List Char} {lexeme : Lexeme}
    (h : lexeme ∈ cut fuel text) :
    ∃ c rest n, measure c rest = (lexeme.kind, n) ∧ lexeme.text = c :: rest.take (n - 1) := by
  induction fuel generalizing text with
  | zero => simp [cut] at h
  | succ fuel ih =>
    cases text with
    | nil => simp [cut] at h
    | cons c rest =>
      rw [cut] at h
      cases hmeasure : measure c rest with
      | mk kind n =>
        simp only [hmeasure] at h
        rcases List.mem_cons.mp h with rfl | h
        · exact ⟨c, rest, n, hmeasure, rfl⟩
        · exact ih h

theorem cons_take_pred {c : Char} {rest : List Char} {n : Nat} (hpos : 0 < n) :
    c :: rest.take (n - 1) = (c :: rest).take n := by
  rw [← List.take_succ_cons, Nat.sub_add_cancel hpos]

/-- The words among the pieces of a text consist of the characters of names. -/
theorem isNameChar_of_mem_cut {fuel : Nat} {text : List Char} {lexeme : Lexeme}
    (h : lexeme ∈ cut fuel text) (hkind : lexeme.kind = .word) :
    ∀ x ∈ lexeme.text, isNameChar x = true := by
  obtain ⟨c, rest, n, hmeasure, htext⟩ := exists_measure_of_mem_cut h
  rw [htext]
  intro x hx
  rcases measure_plainKind hmeasure (Or.inl hkind) with ⟨-, hword⟩ | ⟨hsymbol, -⟩
  · rcases hword with ⟨hn, hpos⟩ | ⟨hat, hn, -⟩
    · rw [cons_take_pred hpos, hn] at hx
      exact isNameChar_wordLength (c :: rest) x hx
    · rcases List.mem_cons.mp hx with hx | hx
      · rw [hx, hat]
        decide
      · rw [hn, Nat.add_sub_cancel] at hx
        exact isNameChar_wordLength rest x hx
  · rw [hkind] at hsymbol
    cases hsymbol

end Lexeme

namespace Token

open Lexeme (isNameChar)

/-- Every token is a lexeme. -/
theorem mem_of_mem_ofLexemes {place : Place} {lexemes : List Lexeme} {t : Token}
    (h : t ∈ (ofLexemes place lexemes).tokens) :
    (⟨t.kind, t.text.toList⟩ : Lexeme) ∈ lexemes := by
  induction lexemes generalizing place with
  | nil => simp [ofLexemes] at h
  | cons lexeme rest ih =>
    rw [ofLexemes] at h
    split at h
    · exact List.mem_cons_of_mem _ (ih h)
    · rcases List.mem_cons.mp h with rfl | h
      · rw [ofLexeme, String.toList_ofList]
        exact List.mem_cons_self
      · exact List.mem_cons_of_mem _ (ih h)

theorem text_ne_empty {text : String} {t : Token} (h : t ∈ (ofText text).tokens) : t.text ≠ "" := by
  obtain ⟨c, rest, n, -, hchars⟩ := Lexeme.exists_measure_of_mem_cut (mem_of_mem_ofLexemes h)
  intro hempty
  rw [hempty] at hchars
  cases hchars

/-- The text of a word: not empty, and of the characters of names only. -/
def IsWordText (text : String) : Prop := text ≠ "" ∧ ∀ c ∈ text.toList, isNameChar c = true

/-- Every word of a text is made of the characters of names. -/
theorem isWordText_of_mem_ofText {text : String} {t : Token} (h : t ∈ (ofText text).tokens)
    (hkind : t.kind = .word) : IsWordText t.text :=
  ⟨text_ne_empty h, Lexeme.isNameChar_of_mem_cut (mem_of_mem_ofLexemes h) hkind⟩

end Token

end Backfield.CSharp

import Backfield.Proofs.Renaming.Literals

/-!
# Lengths and renaming

The lengths of words, numbers and symbols are told before the next space, and no name comes before
it.

* `IsLocal` says so of a length, and `IsLocal.cons` and `IsLocal.add` put lengths together.
* `isLocal_wordLength`, `isLocal_numberLength` and `isLocal_symbolLength` are the results.
-/

namespace Backfield.CSharp.Lexeme

open Text (isAsciiDigit)

variable {text other : List Char}

/-! ## Lengths -/

/-- How far it is to the first space. -/
def inkLength : List Char → Nat
  | [] => 0
  | c :: rest => if c = ' ' then 0 else inkLength rest + 1

theorem inkLength_eq (text : List Char) :
    inkLength text = (text.takeWhile fun c => !(c == ' ')).length := by
  induction text with
  | nil => rfl
  | cons c rest ih =>
    rw [inkLength, List.takeWhile_cons, ih]
    by_cases hc : c = ' '
    · simp [hc]
    · simp [hc]

theorem renames_drop {n : Nat} (h : Renames text other) (hn : n ≤ inkLength text) :
    Renames (text.drop n) (other.drop n) := h.drop (by decide) (inkLength_eq text ▸ hn)

theorem take_eq {n : Nat} (h : Renames text other) (hn : n ≤ inkLength text) :
    text.take n = other.take n := by
  induction h generalizing n with
  | nil => rfl
  | @keep c text other _ ih =>
    cases n with
    | zero => rfl
    | succ n =>
      rw [inkLength] at hn
      split at hn
      · cases hn
      · rw [List.take_succ_cons, List.take_succ_cons, ih (Nat.le_of_succ_le_succ hn)]
  | name =>
    rw [inkLength, if_pos rfl] at hn
    rw [Nat.le_zero.mp hn, List.take_zero, List.take_zero]

/-- The length, of which `read` characters are in front of the text, does not reach beyond a space
and does not depend on names. -/
structure IsLocal (read : Nat) (length : List Char → Nat) : Prop where
  le : ∀ text, length text ≤ inkLength text + read
  eq : ∀ {text other}, Renames text other → length text = length other

theorem le_inkLength {n : Nat} (hlength : n ≤ text.length) (h : ' ' ∉ text.take n) :
    n ≤ inkLength text := by
  induction text generalizing n with
  | nil => exact hlength
  | cons c rest ih =>
    cases n with
    | zero => exact Nat.zero_le _
    | succ n =>
      rw [List.take_succ_cons, List.mem_cons, not_or] at h
      rw [inkLength, if_neg (Ne.symm h.1)]
      exact Nat.succ_le_succ (ih (Nat.le_of_succ_le_succ hlength) h.2)

theorem inkLength_drop {n : Nat} (hn : n ≤ inkLength text) :
    inkLength text = n + inkLength (text.drop n) := by
  induction text generalizing n with
  | nil =>
    obtain rfl : n = 0 := Nat.le_zero.mp hn
    rfl
  | cons c rest ih =>
    cases n with
    | zero => simp
    | succ n =>
      rw [inkLength] at hn ⊢
      split at hn
      · cases hn
      · rename_i hc
        rw [if_neg hc, List.drop_succ_cons, ih (Nat.le_of_succ_le_succ hn)]
        omega

namespace IsLocal

variable {read : Nat} {length : List Char → Nat}

theorem zero (read : Nat) : IsLocal read fun _ => 0 where
  le := fun _ => Nat.zero_le _
  eq := fun _ => rfl

theorem after (read : Nat) (h : IsLocal 0 length) :
    IsLocal read fun text => length text + read where
  le := fun text => Nat.add_le_add_right (h.le text) read
  eq := fun hrenames => by rw [h.eq hrenames]

/-- One length and then another one. -/
theorem add {next : List Char → Nat} (h : IsLocal 0 length) (hnext : IsLocal 0 next) :
    IsLocal 0 fun text => length text + next (text.drop (length text)) where
  le := fun text => by
    have hrest := inkLength_drop (h.le text)
    have hle := hnext.le (text.drop (length text))
    omega
  eq := fun {text other} hrenames => by
    rw [← h.eq hrenames, hnext.eq (renames_drop hrenames (h.le text))]

/-- It is told by the first character, which is no space, and the rest. -/
theorem cons (hnil : length [] = 0) (hspace : ∀ rest, length (' ' :: rest) = 0)
    (h : ∀ c, c ≠ ' ' → IsLocal (read + 1) fun rest => length (c :: rest)) :
    IsLocal read length where
  le := fun text => by
    cases text with
    | nil =>
      rw [hnil]
      exact Nat.zero_le _
    | cons c rest =>
      by_cases hc : c = ' '
      · rw [hc, hspace]
        exact Nat.zero_le _
      · have hle := (h c hc).le rest
        rw [inkLength, if_neg hc]
        omega
  eq := fun hrenames => by
    cases hrenames with
    | nil => rfl
    | keep c hrenames =>
      by_cases hc : c = ' '
      · rw [hc, hspace, hspace]
      · exact (h c hc).eq hrenames
    | name hname hname' hend hrenames => rw [hspace, hspace]

/-- It is told by the first character, if it is this one. -/
theorem ite {p : Prop} [Decidable p] {first second : List Char → Nat}
    (hfirst : p → IsLocal read first) (hsecond : ¬p → IsLocal read second) :
    IsLocal read fun text => if p then first text else second text := by
  split
  · exact hfirst ‹_›
  · exact hsecond ‹_›

end IsLocal

theorem isLocal_prefixLength {test : Char → Bool} (htest : test ' ' = false) :
    IsLocal 0 (prefixLength test) where
  le := fun text => le_inkLength (List.takeWhile_prefix _).length_le fun hspace => by
    rw [prefixLength, ← List.prefix_iff_eq_take.mp (List.takeWhile_prefix test)] at hspace
    rw [List.mem_takeWhile_imp hspace] at htest
    cases htest
  eq := fun h => by rw [prefixLength, prefixLength, h.takeWhile_eq htest]

theorem isLocal_digitParts : IsLocal 0 (prefixLength isDigitPart) :=
  isLocal_prefixLength (by decide)

theorem isLocal_suffixLetters : IsLocal 0 (prefixLength isSuffixLetter) :=
  isLocal_prefixLength (by decide)

theorem isLocal_fractionLength : IsLocal 0 fractionLength := by
  refine .cons rfl (fun rest => rfl) fun c _ => ?_
  by_cases hc : c = '.'
  · subst hc
    exact .cons rfl (fun rest => rfl) fun d _ =>
      .ite (fun _ => isLocal_digitParts.after 2) fun _ => .zero 2
  · have hzero : (fun rest => fractionLength (c :: rest)) = fun _ => 0 := by
      funext rest
      rw [fractionLength]
      rintro d more heq
      exact hc (List.cons.inj heq).1
    rw [hzero]
    exact .zero 1

/-- The length of an exponent with a sign, which is left out of `rest` like the mark before it. -/
def signedLength (rest : List Char) : Nat :=
  match prefixLength isDigitPart rest with
  | 0 => 0
  | n => n + 2

theorem isLocal_signedLength : IsLocal 2 signedLength := by
  refine ⟨fun text => ?_, fun h => by rw [signedLength, signedLength, isLocal_digitParts.eq h]⟩
  have hle := isLocal_digitParts.le text
  rw [signedLength]
  split
  · exact Nat.zero_le _
  · exact Nat.add_le_add_right hle 2

theorem isLocal_exponentLength : IsLocal 0 exponentLength := by
  refine .cons rfl (fun rest => ?_) fun e _ => .cons rfl (fun rest => ?_) fun c _ => ?_
  · cases rest <;> rfl
  · by_cases he : (e == 'e' || e == 'E') = true
    · rw [exponentLength, if_pos he]
      rfl
    · rw [exponentLength, if_neg he]
  · exact .ite (fun _ => .ite (fun _ => isLocal_digitParts.after 2) fun _ =>
      .ite (fun _ => isLocal_signedLength) fun _ => .zero 2) fun _ => .zero 2

/-- What may follow the digits of a number. -/
theorem IsLocal.withExponent {length : List Char → Nat} (h : IsLocal 0 length) :
    IsLocal 0 fun text => lengthWithExponent text (length text) :=
  (h.add isLocal_exponentLength).add isLocal_suffixLetters

theorem isLocal_decimalLength : IsLocal 0 decimalLength :=
  (isLocal_digitParts.add isLocal_fractionLength).withExponent

theorem isLocal_markedLength {digit : Char → Bool} (hdigit : digit ' ' = false) :
    IsLocal 2 (markedLength digit) := by
  have hlength := ((isLocal_prefixLength hdigit).add isLocal_suffixLetters).after 2
  refine ⟨fun text => ?_, fun {text other} h => ?_⟩
  · have hle := hlength.le text
    rw [markedLength]
    omega
  · have heq := hlength.eq h
    rw [markedLength, markedLength]
    omega

/-- The character after a zero that begins a number in another base. -/
def basePrefix? (rest : List Char) : Option (Char → Bool) :=
  match rest with
  | x :: _ =>
    if x == 'x' || x == 'X' then some fun c => isHexDigit c || c == '_'
    else if x == 'b' || x == 'B' then some isDigitPart
    else none
  | [] => none

theorem numberLength_zero (rest : List Char) :
    numberLength ('0' :: rest) =
      match basePrefix? rest with
      | some digit => markedLength digit rest.tail
      | none => decimalLength ('0' :: rest) := by
  cases rest with
  | nil => rfl
  | cons x rest =>
    rw [numberLength, basePrefix?]
    split
    · rfl
    · split <;> rfl

theorem exists_of_basePrefix? {rest : List Char} {digit : Char → Bool}
    (h : basePrefix? rest = some digit) :
    digit ' ' = false ∧ ∃ x more, rest = x :: more ∧ x ≠ ' ' := by
  cases rest with
  | nil => cases h
  | cons x more =>
    rw [basePrefix?] at h
    have hx : x ≠ ' ' := by
      rintro rfl
      cases h
    split_ifs at h
    · exact ⟨Option.some.inj h ▸ by decide, x, more, rfl, hx⟩
    · exact ⟨Option.some.inj h ▸ by decide, x, more, rfl, hx⟩

theorem basePrefix?_eq (h : text.head? = other.head?) : basePrefix? text = basePrefix? other := by
  cases text with
  | nil =>
    obtain rfl := List.head?_eq_none_iff.mp h.symm
    rfl
  | cons x text =>
    obtain ⟨more, rfl⟩ := List.head?_eq_some_iff.mp h.symm
    rfl

theorem isLocal_numberLength_zero : IsLocal 1 fun rest => numberLength ('0' :: rest) := by
  refine ⟨fun text => ?_, fun {text other} h => ?_⟩
  · rw [numberLength_zero]
    cases hfound : basePrefix? text with
    | none => exact isLocal_decimalLength.le ('0' :: text)
    | some digit =>
      obtain ⟨hdigit, x, more, rfl, hx⟩ := exists_of_basePrefix? hfound
      have hle := (isLocal_markedLength hdigit).le more
      rw [inkLength, if_neg hx]
      exact hle
  · rw [numberLength_zero, numberLength_zero, ← basePrefix?_eq h.head?_eq]
    cases hfound : basePrefix? text with
    | none => exact isLocal_decimalLength.eq (.keep '0' h)
    | some digit =>
      obtain ⟨hdigit, x, more, rfl, hx⟩ := exists_of_basePrefix? hfound
      exact (isLocal_markedLength hdigit).eq (h.tail hx rfl)

/-- Characters of the text may be read before. -/
theorem IsLocal.of_cons {length : List Char → Nat} (h : IsLocal 0 length) {c : Char}
    (hc : c ≠ ' ') : IsLocal 1 fun rest => length (c :: rest) where
  le := fun rest => by
    have hle := h.le (c :: rest)
    rwa [inkLength, if_neg hc] at hle
  eq := fun hrenames => h.eq (.keep c hrenames)

/-- The length of a number that starts with its decimal point. -/
def pointLength (text : List Char) : Nat :=
  match fractionLength text with
  | 0 => 0
  | n => lengthWithExponent text n

theorem isLocal_pointLength : IsLocal 0 pointLength := by
  refine ⟨fun text => ?_, fun {text other} h => ?_⟩
  · rw [pointLength]
    split
    · exact Nat.zero_le _
    · exact isLocal_fractionLength.withExponent.le text
  · have heq := isLocal_fractionLength.withExponent.eq h
    rw [← isLocal_fractionLength.eq h] at heq
    rw [pointLength, pointLength, ← isLocal_fractionLength.eq h]
    split
    · rfl
    · exact heq

theorem isLocal_numberLength : IsLocal 0 numberLength := by
  refine .cons rfl (fun rest => rfl) fun c hspace => ?_
  by_cases hzero : c = '0'
  · subst hzero
    exact isLocal_numberLength_zero
  · by_cases hpoint : c = '.'
    · subst hpoint
      exact isLocal_pointLength.of_cons (by decide)
    · have hother : (fun rest => numberLength (c :: rest)) =
          fun rest => if isAsciiDigit c then decimalLength (c :: rest) else 0 := by
        funext rest
        rw [numberLength]
        · exact fun _ _ heq => absurd heq hzero
        · exact fun heq => absurd heq hpoint
      rw [hother]
      exact .ite (fun _ => isLocal_decimalLength.of_cons hspace) fun _ => .zero 1

theorem inkRun_eq (h : Renames text other) : Text.inkRun text = Text.inkRun other :=
  h.takeWhile_eq (by decide)

theorem isLocal_wordLength : IsLocal 0 wordLength where
  le := fun text => le_inkLength (wordLength_le text) fun hspace =>
    absurd (isNameChar_wordLength text ' ' hspace) (by decide)
  eq := fun h => by rw [← wordLength_inkRun, inkRun_eq h, wordLength_inkRun]

theorem isLocal_symbolLength : IsLocal 0 symbolLength where
  le := fun text => le_inkLength (symbolLength_le text) fun hspace =>
    absurd (isSymbolChar_symbolLength text ' ' hspace) (by decide)
  eq := fun h => by rw [← symbolLength_inkRun, inkRun_eq h, symbolLength_inkRun]

theorem isLocal_stringSuffixLength : IsLocal 0 stringSuffixLength := by
  refine .cons rfl (fun rest => ?_) fun u _ => .cons rfl (fun rest => rfl) fun d _ => ?_
  · cases rest with
    | nil => rfl
    | cons d rest =>
      rw [stringSuffixLength.eq_def]
      split
      · rename_i heq
        obtain ⟨rfl, -⟩ := List.cons.inj heq
        rfl
      · rfl
  · by_cases hd : d = '8'
    · subst hd
      refine ⟨fun text => ?_, fun h => ?_⟩
      · rw [stringSuffixLength]
        split
        · exact Nat.le_add_left _ _
        · exact Nat.zero_le _
      · rw [stringSuffixLength, stringSuffixLength, isLocal_wordLength.eq h]
    · have hzero : (fun rest => stringSuffixLength (u :: d :: rest)) = fun _ => 0 := by
        funext rest
        rw [stringSuffixLength]
        rintro v more heq
        exact hd (List.cons.inj (List.cons.inj heq).2).1
      rw [hzero]
      exact .zero 2

end Backfield.CSharp.Lexeme

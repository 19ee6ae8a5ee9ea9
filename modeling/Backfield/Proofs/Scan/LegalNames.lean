import Backfield.Proofs.CSharp.Names
import Backfield.Proofs.Scan.Members

/-!
# Legal names

When the property of a field with a legal name has a legal name.  The derivation drops an
underscore, and what comes after it need not begin a name.

* `IsLegalName` is a name of C#, `LosesStart` says what goes wrong.
* `isLegalName_propertyName_iff` is the result.
* `isIdentifier_propertyName` says the same of the words that the reader takes for names.
-/

namespace Backfield

open CSharp (IsIdentifier Keyword.isReserved Keyword.leading)
open CSharp.Lexeme (IsWhole IsWord wordLength wordLength_eq_nameLength)

/-! ## Names -/

/-- A number that is written as a letter. -/
def isLetterNumber (c : Char) : Bool := Text.inRanges Text.letterNumberRanges c.toNat

/-- A character that a name may begin with: a letter, one that stands for a number included, or the
underscore. -/
def beginsName (c : Char) : Bool := Text.isLetter c || isLetterNumber c || c == '_'

/-- A character that a name may go on with: also a digit, a combining mark or a connector. -/
def continuesName (c : Char) : Bool :=
  beginsName c || Text.isDigit c || Text.isMark c || Text.isConnector c

/-- A name of C# that needs no at sign. -/
structure IsLegalName (name : String) : Prop where
  spelled : ∃ first rest, name.toList = first :: rest ∧ beginsName first = true ∧
    ∀ c ∈ rest, continuesName c = true
  notReserved : Keyword.isReserved name = false

/-- The field is an underscore before a character that may not begin a name. -/
def LosesStart (field : String) : Prop :=
  ∃ c rest, field.toList = fieldMark :: c :: rest ∧ beginsName c = false

/-! ## Characters -/

/-- The code of a capital ASCII letter. -/
theorem toNat_upperAscii {c : Char} (h : 'a' ≤ c ∧ c ≤ 'z') :
    65 ≤ (upperAscii c).toNat ∧ (upperAscii c).toNat ≤ 90 := by
  have hcapital := (upperAscii_of_small h).2.2
  have hlow : 97 ≤ c.toNat := h.1
  have hhigh : c.toNat ≤ 122 := h.2
  omega

theorem isAsciiLetter_of_small {c : Char} (h : 'a' ≤ c ∧ c ≤ 'z') :
    Text.isAscii c = true ∧ Text.isAsciiLetter c = true := by
  have hhigh : c.toNat ≤ 122 := h.2
  refine ⟨?_, by simp [Text.isAsciiLetter, h]⟩
  rw [Text.isAscii, decide_eq_true_eq]
  omega

theorem isAsciiLetter_upperAscii {c : Char} (h : 'a' ≤ c ∧ c ≤ 'z') :
    Text.isAscii (upperAscii c) = true ∧ Text.isAsciiLetter (upperAscii c) = true := by
  obtain ⟨hlow, hhigh⟩ := toNat_upperAscii h
  have hlow' : 'A' ≤ upperAscii c := hlow
  have hhigh' : upperAscii c ≤ 'Z' := hhigh
  refine ⟨?_, by simp [Text.isAsciiLetter, hlow', hhigh']⟩
  rw [Text.isAscii, decide_eq_true_eq]
  omega

/-- What holds of all ASCII letters does not change with the case of one. -/
theorem eq_upperAscii {test : Char → Bool} (c : Char)
    (htest : ∀ d, Text.isAscii d = true → Text.isAsciiLetter d = true → test d = true) :
    test (upperAscii c) = test c := by
  by_cases hc : 'a' ≤ c ∧ c ≤ 'z'
  · obtain ⟨hascii, hletter⟩ := isAsciiLetter_of_small hc
    obtain ⟨hascii', hletter'⟩ := isAsciiLetter_upperAscii hc
    rw [htest c hascii hletter, htest _ hascii' hletter']
  · rw [upperAscii_of_not_small hc]

theorem beginsName_upperAscii (c : Char) : beginsName (upperAscii c) = beginsName c :=
  eq_upperAscii c fun d hascii hletter => by simp [beginsName, Text.isLetter, hascii, hletter]

/-- No keyword begins with a capital. -/
theorem beginsSmall_of_isReserved {word : String} (h : Keyword.isReserved word = true) :
    BeginsSmall word.toList := by
  have hall : ((CSharp.Keyword.types ++ CSharp.Keyword.reservedModifiers ++
      CSharp.Keyword.otherReserved).all fun word =>
        word.toList.head?.any fun c => 'a' ≤ c && c ≤ 'z') = true := by decide
  have hmem : word ∈ CSharp.Keyword.types ++ CSharp.Keyword.reservedModifiers ++
      CSharp.Keyword.otherReserved := by
    simpa [Keyword.isReserved, CSharp.Keyword.isType, CSharp.Keyword.isReservedModifier,
      or_assoc] using h
  obtain ⟨c, hc, hsmall⟩ := (Option.any_eq_true _ _).mp (List.all_eq_true.mp hall word hmem)
  exact ⟨c, hc, by simpa using hsmall⟩

theorem notReserved_propertyName (field : String) :
    Keyword.isReserved (propertyName field) = false := by
  refine Bool.eq_false_iff.mpr fun h => ?_
  have hsmall := beginsSmall_of_isReserved h
  rw [propertyName, String.toList_ofList] at hsmall
  exact (sameButFirstCase_upperFirst _).2 hsmall

/-! ## Property names -/

/-- What a property is named after: the name of its field, or what follows the underscore. -/
theorem stem_eq (field : String) :
    stem field = field.toList ∨ ∃ c rest, field.toList = fieldMark :: c :: rest ∧
      stem field = c :: rest := by
  rcases hfield : field.toList with _ | ⟨first, _ | ⟨c, rest⟩⟩
  · exact Or.inl (by rw [stem, hfield]; rfl)
  · exact Or.inl (by rw [stem, hfield]; rfl)
  · rw [stem, hfield, dropFieldMark]
    split
    · rename_i hmark
      exact Or.inr ⟨c, rest, by rw [beq_iff_eq.mp hmark], rfl⟩
    · exact Or.inl rfl

theorem toList_propertyName (field : String) :
    (propertyName field).toList = upperFirst (stem field) := String.toList_ofList

/-- The property of a field with a legal name has a legal name exactly when the field is no
underscore before a character that may not begin a name. -/
theorem isLegalName_propertyName_iff {field : String} (h : IsLegalName field) :
    IsLegalName (propertyName field) ↔ ¬LosesStart field := by
  obtain ⟨first, rest, hfield, hfirst, hrest⟩ := h.spelled
  constructor
  · rintro ⟨⟨d, more, hname, hd, -⟩, -⟩ ⟨c, rest', hmark, hc⟩
    have hstem : stem field = c :: rest' := by
      rw [stem, hmark]
      rfl
    rw [toList_propertyName, hstem, upperFirst] at hname
    obtain ⟨rfl, -⟩ := List.cons.inj hname
    rw [beginsName_upperAscii, hc] at hd
    cases hd
  · intro hlegal
    refine ⟨?_, notReserved_propertyName field⟩
    rcases stem_eq field with hstem | ⟨c, more, hmark, hstem⟩
    · refine ⟨upperAscii first, rest, ?_, ?_, hrest⟩
      · rw [toList_propertyName, hstem, hfield, upperFirst]
      · rw [beginsName_upperAscii, hfirst]
    · refine ⟨upperAscii c, more, ?_, ?_, fun d hd => ?_⟩
      · rw [toList_propertyName, hstem, upperFirst]
      · rw [beginsName_upperAscii]
        exact eq_true_of_ne_false fun hc => hlegal ⟨c, more, hmark, hc⟩
      · obtain ⟨-, rfl⟩ := List.cons.inj (hfield.symm.trans hmark)
        exact hrest d (List.mem_cons_of_mem _ hd)

/-! ## Words of the reader -/

theorem isIdentifierStart_of_asciiLetter {c : Char} (hascii : Text.isAscii c = true)
    (hletter : Text.isAsciiLetter c = true) : Text.isIdentifierStart c = true := by
  simp [Text.isIdentifierStart, hascii, hletter]

theorem wordLength_upperAscii (c : Char) (rest : List Char) :
    wordLength (upperAscii c :: rest) = wordLength (c :: rest) := by
  by_cases hc : 'a' ≤ c ∧ c ≤ 'z'
  · obtain ⟨hascii, hletter⟩ := isAsciiLetter_of_small hc
    obtain ⟨hascii', hletter'⟩ := isAsciiLetter_upperAscii hc
    rw [wordLength, if_pos (isIdentifierStart_of_asciiLetter hascii' hletter'), wordLength,
      if_pos (isIdentifierStart_of_asciiLetter hascii hletter)]
  · rw [upperAscii_of_not_small hc]

/-- The word without its first character, which an underscore is, is a word if it begins one. -/
theorem isWhole_of_mark {c : Char} {rest : List Char} (h : IsWhole (fieldMark :: c :: rest))
    (hc : 0 < wordLength (c :: rest)) : IsWhole (c :: rest) := by
  refine ⟨List.cons_ne_nil _ _, ?_⟩
  have hlength := h.2
  rw [wordLength, if_pos (by decide), List.length_cons] at hlength
  rw [wordLength_eq_nameLength hc]
  exact Nat.succ.inj hlength

theorem isWord_upperFirst {name : List Char} (h : IsWord name) : IsWord (upperFirst name) := by
  rcases h with h | ⟨name, rfl, h⟩
  · cases name with
    | nil => exact absurd rfl h.1
    | cons c rest =>
      refine Or.inl ⟨List.cons_ne_nil _ _, ?_⟩
      rw [upperFirst, wordLength_upperAscii, h.2]
      rfl
  · exact Or.inr ⟨name, rfl, h⟩

/-- The field is an underscore before something that begins no word. -/
def LosesWord (field : String) : Prop :=
  ∃ c rest, field.toList = fieldMark :: c :: rest ∧ wordLength (c :: rest) = 0

/-- No word with a meaning of its own begins with a capital. -/
theorem not_mem_leading_propertyName (field : String) : propertyName field ∉ Keyword.leading := by
  have hall : (Keyword.leading.all fun word =>
      word.toList.head?.any fun c => 'a' ≤ c && c ≤ 'z') = true := by decide
  intro hmem
  obtain ⟨c, hc, hsmall⟩ := (Option.any_eq_true _ _).mp (List.all_eq_true.mp hall _ hmem)
  rw [toList_propertyName] at hc
  exact (sameButFirstCase_upperFirst _).2 ⟨c, hc, by simpa using hsmall⟩

/-- The reader takes the property name for a name if it takes the field's for one and what follows
the underscore begins a word. -/
theorem isIdentifier_propertyName {field : String} (h : IsIdentifier field)
    (hlegal : ¬LosesWord field) : IsIdentifier (propertyName field) where
  isWord := by
    rw [toList_propertyName]
    refine isWord_upperFirst ?_
    rcases stem_eq field with hstem | ⟨c, rest, hmark, hstem⟩
    · exact hstem ▸ h.isWord
    · have hword := h.isWord
      rw [hmark] at hword
      rw [hstem]
      rcases hword with hwhole | ⟨name, hat, -⟩
      · refine Or.inl (isWhole_of_mark hwhole (Nat.pos_of_ne_zero fun hzero => ?_))
        exact hlegal ⟨c, rest, hmark, hzero⟩
      · exact absurd (List.cons.inj hat).1 (by decide)
  notReserved := notReserved_propertyName field
  notLeading := not_mem_leading_propertyName field

end Backfield

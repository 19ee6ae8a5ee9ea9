import Mathlib.Data.List.Chain
import Backfield.Proofs.CSharp.Word
import Backfield.Text.Blank

/-!
# How tokens are spelled

A slice of a text has the white space that stands between its tokens, and collapsing it leaves
one space wherever there is some.  So the collapsed text tells where white space stood, but not
how much of it.

* `collapse_slice` is that statement; `tidy` is a token with such a gap.
* `slice_tidy_inj` says that two spellings of the same tokens collapse to one text exactly when
  white space stands at the same places (`SpacedAlike`).
* `words_slice_tidy` says that the words of the text do not depend on the spelling.
-/

namespace Backfield.Text

/-! ## Collapsing -/

theorem squeezeFrom_ink (pending : Bool) {word : List Char} (rest : List Char) (hne : word ≠ [])
    (hink : ∀ c ∈ word, isBlank c = false) :
    squeezeFrom pending (word ++ rest) = word ++ squeezeFrom false rest := by
  induction word generalizing pending with
  | nil => exact absurd rfl hne
  | cons c word ih =>
    have hc : ¬isBlank c = true := by simp [hink c List.mem_cons_self]
    rw [List.cons_append, squeezeFrom, if_neg hc]
    cases word with
    | nil => rfl
    | cons d word =>
      rw [ih false (List.cons_ne_nil _ _) fun x hx => hink x (List.mem_cons_of_mem _ hx)]
      rfl

theorem squeezeFrom_pending {gap : List Char} (rest : List Char)
    (hgap : ∀ c ∈ gap, isBlank c = true) :
    squeezeFrom true (gap ++ rest) = squeezeFrom true rest := by
  induction gap with
  | nil => rfl
  | cons c gap ih =>
    rw [List.cons_append, squeezeFrom, if_pos (hgap c List.mem_cons_self), if_pos rfl]
    exact ih fun x hx => hgap x (List.mem_cons_of_mem _ hx)

/-- White space becomes one space. -/
theorem squeezeFrom_gap {gap : List Char} (rest : List Char) (hne : gap ≠ [])
    (hgap : ∀ c ∈ gap, isBlank c = true) :
    squeezeFrom false (gap ++ rest) = ' ' :: squeezeFrom true rest := by
  cases gap with
  | nil => exact absurd rfl hne
  | cons c gap =>
    rw [List.cons_append, squeezeFrom, if_pos (hgap c List.mem_cons_self), if_neg (by simp),
      squeezeFrom_pending rest fun x hx => hgap x (List.mem_cons_of_mem _ hx)]

theorem dropBlanksEnd_concat (text : List Char) {c : Char} (hc : isBlank c = false) :
    dropBlanksEnd (text ++ [c]) = text ++ [c] := by
  simp [dropBlanksEnd, hc]

/-- A property of the characters between two code points can be checked one by one. -/
theorem of_code_between (test : Char → Bool) {c : Char} (low high : Nat)
    (hall : ∀ n < high + 1 - low, test (Char.ofNat (low + n)) = true) (hlow : low ≤ c.toNat)
    (hhigh : c.toNat ≤ high) : test c = true := by
  have hc := hall (c.toNat - low) (by omega)
  rwa [Nat.add_sub_cancel' hlow, Char.ofNat_toNat] at hc

/-- All blanks. -/
def blanks : List Char :=
  ([0x09, 0x0a, 0x0b, 0x0c, 0x0d, 0x1c, 0x1d, 0x1e, 0x1f, 0x20, 0x85, 0xa0, 0x1680, 0x2000, 0x2001,
    0x2002, 0x2003, 0x2004, 0x2005, 0x2006, 0x2007, 0x2008, 0x2009, 0x200a, 0x2028, 0x2029, 0x202f,
    0x205f, 0x3000] : List Nat).map Char.ofNat

theorem mem_blanks {c : Char} (h : isBlank c = true) : c ∈ blanks := by
  rw [← List.contains_iff_mem]
  simp only [isBlank, Bool.or_eq_true, Bool.and_eq_true, decide_eq_true_eq, beq_iff_eq] at h
  rcases h with (((((((((h | h) | h) | h) | h) | h) | h) | h) | h) | h) | h
  · exact of_code_between blanks.contains 0x09 0x0d (by decide) h.1 h.2
  · exact of_code_between blanks.contains 0x1c 0x20 (by decide) h.1 h.2
  · exact of_code_between blanks.contains 0x85 0x85 (by decide) h.ge h.le
  · exact of_code_between blanks.contains 0xa0 0xa0 (by decide) h.ge h.le
  · exact of_code_between blanks.contains 0x1680 0x1680 (by decide) h.ge h.le
  · exact of_code_between blanks.contains 0x2000 0x200a (by decide) h.1 h.2
  · exact of_code_between blanks.contains 0x2028 0x2028 (by decide) h.ge h.le
  · exact of_code_between blanks.contains 0x2029 0x2029 (by decide) h.ge h.le
  · exact of_code_between blanks.contains 0x202f 0x202f (by decide) h.ge h.le
  · exact of_code_between blanks.contains 0x205f 0x205f (by decide) h.ge h.le
  · exact of_code_between blanks.contains 0x3000 0x3000 (by decide) h.ge h.le

/-- No blank is a character of a name. -/
theorem isBlank_of_isNameChar {c : Char} (h : CSharp.Lexeme.isNameChar c = true) :
    isBlank c = false := by
  have hall : (blanks.all fun d => !CSharp.Lexeme.isNameChar d) = true := by decide +kernel
  cases hblank : isBlank c with
  | false => rfl
  | true =>
    have hc := List.all_eq_true.mp hall c (mem_blanks hblank)
    simp [h] at hc

end Backfield.Text

namespace Backfield.CSharp

open Text (isBlank)

/-! ## Ink -/

namespace Lexeme

theorem isSymbolChar_ink {c : Char} (h : isSymbolChar c = true) :
    isBlank c = false ∧ Text.isWordChar c = false := by
  have hall : ("{}()[];,.:?=+-*/%&|^!~<>".toList.all fun d =>
      !isBlank d && !Text.isWordChar d) = true := by decide
  have hc := List.all_eq_true.mp hall c (List.contains_iff_mem.mp h)
  simpa using hc

theorem longSymbols_chars : ∀ symbol ∈ longSymbols, ∀ c ∈ symbol, isSymbolChar c = true := by
  have hall : (longSymbols.all fun symbol => symbol.all isSymbolChar) = true := by decide
  exact fun symbol hsymbol => List.all_eq_true.mp (List.all_eq_true.mp hall symbol hsymbol)

theorem isSymbolChar_symbolLength (text : List Char) :
    ∀ c ∈ text.take (symbolLength text), isSymbolChar c = true := by
  unfold symbolLength
  split
  · rename_i symbol hfind
    have hprefix : symbol.isPrefixOf text = true := by simpa using List.find?_some hfind
    obtain ⟨more, rfl⟩ := List.isPrefixOf_iff_prefix.mp hprefix
    rw [List.take_left]
    exact longSymbols_chars symbol (List.mem_of_find?_eq_some hfind)
  · split
    · rename_i hhead
      cases text with
      | nil => simp
      | cons c rest => simpa using hhead
    · simp

theorem isSymbolChar_of_mem_cut {fuel : Nat} {text : List Char} {lexeme : Lexeme}
    (h : lexeme ∈ cut fuel text) (hkind : lexeme.kind = .symbol) :
    ∀ c ∈ lexeme.text, isSymbolChar c = true := by
  obtain ⟨c, rest, n, hmeasure, htext⟩ := exists_measure_of_mem_cut h
  rcases measure_plainKind hmeasure (Or.inr hkind) with ⟨hword, -⟩ | ⟨-, hn, hpos⟩
  · rw [hkind] at hword
    cases hword
  · rw [htext, cons_take_pred hpos, hn]
    exact isSymbolChar_symbolLength (c :: rest)

end Lexeme

namespace Token

open Lexeme (isSymbolChar IsPlainKind)

/-- The text of the token has a character, and none of them is blank. -/
def HasInk (t : Token) : Prop := t.text ≠ "" ∧ ∀ c ∈ t.text.toList, isBlank c = false

theorem isSymbolChar_of_mem_ofText {text : String} {t : Token} (h : t ∈ (ofText text).tokens)
    (hkind : t.kind = .symbol) : t.text ≠ "" ∧ ∀ c ∈ t.text.toList, isSymbolChar c = true :=
  ⟨text_ne_empty h, Lexeme.isSymbolChar_of_mem_cut (mem_of_mem_ofLexemes h) hkind⟩

/-- Words and symbols have ink. -/
theorem hasInk_of_mem_ofText {text : String} {t : Token} (h : t ∈ (ofText text).tokens)
    (hkind : IsPlainKind t.kind) : t.HasInk := by
  rcases hkind with hword | hsymbol
  · obtain ⟨hne, hchars⟩ := isWordText_of_mem_ofText h hword
    exact ⟨hne, fun c hc => Text.isBlank_of_isNameChar (hchars c hc)⟩
  · obtain ⟨hne, hchars⟩ := isSymbolChar_of_mem_ofText h hsymbol
    exact ⟨hne, fun c hc => (Lexeme.isSymbolChar_ink (hchars c hc)).1⟩

/-! ## Collapsed slices -/

/-- The token with one space before it if there is any. -/
def tidy (t : Token) : Token := { t with gap := if t.gap = "" then "" else " " }

/-- The characters of successive tokens with the gap before each. -/
def charsOf (tokens : List Token) : List Char :=
  tokens.flatMap fun t => t.gap.toList ++ t.text.toList

theorem toList_slice_cons (first : Token) (rest : List Token) :
    (slice (first :: rest)).toList = first.text.toList ++ charsOf rest := by
  simp [slice, charsOf, String.toList_join, List.flatMap_map]

theorem charsOf_tidy_cons (t : Token) (rest : List Token) :
    charsOf ((t :: rest).map tidy) =
      (if t.gap = "" then [] else [' ']) ++ (t.text.toList ++ charsOf (rest.map tidy)) := by
  by_cases hgap : t.gap = ""
  · simp [charsOf, tidy, hgap]
  · have hspace : " ".toList = [' '] := rfl
    simp [charsOf, tidy, hgap, hspace]

theorem squeezeFrom_charsOf (tokens : List Token) (hink : ∀ t ∈ tokens, t.HasInk)
    (hgaps : ∀ t ∈ tokens, ∀ c ∈ t.gap.toList, isBlank c = true) :
    Text.squeezeFrom false (charsOf tokens) = charsOf (tokens.map tidy) := by
  induction tokens with
  | nil => rfl
  | cons t rest ih =>
    have hrest := ih (fun u hu => hink u (List.mem_cons_of_mem _ hu))
      fun u hu => hgaps u (List.mem_cons_of_mem _ hu)
    obtain ⟨hne, hchars⟩ := hink t List.mem_cons_self
    have hne : t.text.toList ≠ [] := by simpa using hne
    have hgap := hgaps t List.mem_cons_self
    rw [charsOf_tidy_cons, ← hrest]
    by_cases hempty : t.gap = ""
    · simp only [charsOf, List.flatMap_cons, hempty, String.toList_empty, List.nil_append,
        ↓reduceIte]
      exact Text.squeezeFrom_ink false _ hne hchars
    · have hne' : t.gap.toList ≠ [] := by simpa using hempty
      simp only [charsOf, List.flatMap_cons, hempty, List.append_assoc, ↓reduceIte]
      rw [Text.squeezeFrom_gap _ hne' hgap, Text.squeezeFrom_ink true _ hne hchars]
      rfl

theorem exists_last_text {t : Token} (hink : t.HasInk) :
    ∃ front c, t.text.toList = front ++ [c] ∧ isBlank c = false := by
  obtain ⟨hne, hchars⟩ := hink
  rcases List.eq_nil_or_concat t.text.toList with hempty | ⟨front, c, hconcat⟩
  · exact absurd (String.toList_eq_nil_iff.mp hempty) hne
  · refine ⟨front, c, by simpa using hconcat, hchars c ?_⟩
    rw [hconcat]
    simp

/-- A slice ends with a character that is not blank. -/
theorem exists_last_slice (first : Token) (rest : List Token)
    (hink : ∀ t ∈ first :: rest, t.HasInk) :
    ∃ front c, (slice (first :: rest)).toList = front ++ [c] ∧ isBlank c = false := by
  rcases List.eq_nil_or_concat rest with rfl | ⟨init, last, rfl⟩
  · obtain ⟨front, c, htext, hc⟩ := exists_last_text (hink first List.mem_cons_self)
    exact ⟨front, c, by simp [slice, htext], hc⟩
  · obtain ⟨front, c, htext, hc⟩ := exists_last_text (hink last (by simp))
    refine ⟨first.text.toList ++ charsOf init ++ last.gap.toList ++ front, c, ?_, hc⟩
    simp [toList_slice_cons, charsOf, htext]

/-- A slice whose gaps are white space collapses to the slice with a space for each gap. -/
theorem collapse_slice (tokens : List Token) (hink : ∀ t ∈ tokens, t.HasInk)
    (hgaps : ∀ t ∈ tokens.tail, ∀ c ∈ t.gap.toList, isBlank c = true) :
    Text.collapse (slice tokens) = slice (tokens.map tidy) := by
  cases tokens with
  | nil => rfl
  | cons first rest =>
    obtain ⟨hne, hchars⟩ := hink first List.mem_cons_self
    have hne : first.text.toList ≠ [] := by simpa using hne
    have hrest := squeezeFrom_charsOf rest (fun t ht => hink t (List.mem_cons_of_mem _ ht)) hgaps
    have hsqueezed : Text.squeezeFrom false (slice (first :: rest)).toList =
        (slice ((first :: rest).map tidy)).toList := by
      rw [toList_slice_cons, Text.squeezeFrom_ink false _ hne hchars, hrest, List.map_cons,
        toList_slice_cons]
      rfl
    have hink' : ∀ t ∈ (first :: rest).map tidy, t.HasInk := by
      intro t ht
      obtain ⟨u, hu, rfl⟩ := List.mem_map.mp ht
      exact hink u hu
    obtain ⟨front, c, hend, hc⟩ := exists_last_slice (tidy first) (rest.map tidy) hink'
    have hstart : ((slice ((first :: rest).map tidy)).toList).dropWhile isBlank =
        (slice ((first :: rest).map tidy)).toList := by
      rw [List.map_cons, toList_slice_cons]
      cases htext : first.text.toList with
      | nil => exact absurd htext hne
      | cons d more =>
        have hd := hchars d (htext ▸ List.mem_cons_self)
        simp [tidy, htext, hd]
    rw [Text.collapse, hsqueezed, hstart, List.map_cons, hend, Text.dropBlanksEnd_concat front hc,
      ← hend, String.ofList_toList]

/-! ## Spacing -/

/-- White space stands at the same places between the tokens. -/
def SpacedAlike (tokens others : List Token) : Prop :=
  tokens.tail.map (·.gap == "") = others.tail.map (·.gap == "")

instance : DecidableRel SpacedAlike := fun tokens others =>
  inferInstanceAs (Decidable (tokens.tail.map _ = others.tail.map _))

theorem charsOf_tidy_inj {tokens others : List Token} (hink : ∀ t ∈ tokens, t.HasInk)
    (hink' : ∀ t ∈ others, t.HasInk) (htexts : tokens.map text = others.map text) :
    charsOf (tokens.map tidy) = charsOf (others.map tidy) ↔
      tokens.map (·.gap == "") = others.map (·.gap == "") := by
  induction tokens generalizing others with
  | nil =>
    obtain rfl : others = [] := by simpa using htexts.symm
    simp
  | cons t rest ih =>
    cases others with
    | nil => simp at htexts
    | cons u more =>
      obtain ⟨htext, htexts⟩ := List.cons.inj htexts
      have hrest := ih (fun v hv => hink v (List.mem_cons_of_mem _ hv))
        (fun v hv => hink' v (List.mem_cons_of_mem _ hv)) htexts
      have hspace : ∀ v : Token, v.HasInk → ∀ chars more : List Char,
          ' ' :: chars ≠ v.text.toList ++ more := by
        intro v hv chars more heq
        obtain ⟨hne, hchars⟩ := hv
        cases hcase : v.text.toList with
        | nil => exact hne (String.toList_eq_nil_iff.mp hcase)
        | cons c cs =>
          rw [hcase] at heq
          have hc : isBlank c = false := hchars c (hcase ▸ List.mem_cons_self)
          rw [← (List.cons.inj heq).1] at hc
          exact absurd hc (by decide)
      rw [charsOf_tidy_cons, charsOf_tidy_cons, List.map_cons, List.map_cons, htext]
      by_cases ht : t.gap = ""
      · by_cases hu : u.gap = ""
        · simp [ht, hu, hrest]
        · simp [ht, hu, (hspace u (hink' u List.mem_cons_self) _ _).symm]
      · by_cases hu : u.gap = ""
        · simp [ht, hu, hspace u (hink' u List.mem_cons_self) _ _]
        · simp [ht, hu, hrest]

/-- Two spellings of the same tokens collapse to one text exactly when white space stands at the
same places. -/
theorem slice_tidy_inj {tokens others : List Token} (hink : ∀ t ∈ tokens, t.HasInk)
    (hink' : ∀ t ∈ others, t.HasInk) (htexts : tokens.map text = others.map text) :
    slice (tokens.map tidy) = slice (others.map tidy) ↔ SpacedAlike tokens others := by
  cases tokens with
  | nil =>
    obtain rfl : others = [] := by simpa using htexts.symm
    simp [SpacedAlike]
  | cons t rest =>
    cases others with
    | nil => simp at htexts
    | cons u more =>
      obtain ⟨htext, htexts⟩ := List.cons.inj htexts
      have hrest := charsOf_tidy_inj (fun v hv => hink v (List.mem_cons_of_mem _ hv))
        (fun v hv => hink' v (List.mem_cons_of_mem _ hv)) htexts
      rw [SpacedAlike, List.tail_cons, List.tail_cons, ← hrest, ← String.toList_inj, List.map_cons,
        List.map_cons, toList_slice_cons, toList_slice_cons]
      simp [tidy, htext]

/-! ## Words -/

/-- The words of texts without their gaps, one after the other. -/
theorem wordsFrom_stop (pending word rest : List Char) {c : Char}
    (hc : Text.isWordChar c = false) :
    Text.wordsFrom pending (word ++ c :: rest) =
      Text.wordsFrom pending word ++ Text.wordsFrom [] (c :: rest) := by
  induction word generalizing pending with
  | nil =>
    cases pending with
    | nil => simp [Text.wordsFrom, hc]
    | cons d pending => simp [Text.wordsFrom, hc]
  | cons d word ih =>
    rw [List.cons_append, Text.wordsFrom, Text.wordsFrom]
    split
    · exact ih _
    · split
      · exact ih _
      · rw [ih, List.cons_append]

/-- The token has no character of a word, as a symbol. -/
def IsWordless (t : Token) : Prop :=
  t.text ≠ "" ∧ ∀ c ∈ t.text.toList, Text.isWordChar c = false

theorem wordsFrom_wordless {text : List Char} (rest : List Char)
    (htext : ∀ c ∈ text, Text.isWordChar c = false) :
    Text.wordsFrom [] (text ++ rest) = Text.wordsFrom [] rest := by
  induction text with
  | nil => rfl
  | cons c text ih =>
    have hc := htext c List.mem_cons_self
    simp [Text.wordsFrom, hc, ih fun d hd => htext d (List.mem_cons_of_mem _ hd)]

/-- Tokens of which no two that touch hold words have the words of each. -/
theorem wordsFrom_charsOf (t : Token) (rest : List Token)
    (hchain : (t :: rest).IsChain fun a b => a.IsWordless ∨ b.IsWordless) :
    Text.wordsFrom [] (t.text.toList ++ charsOf (rest.map tidy)) =
      (t :: rest).flatMap fun u => Text.wordsFrom [] u.text.toList := by
  induction rest generalizing t with
  | nil => simp [charsOf]
  | cons u more ih =>
    obtain ⟨htouch, hchain⟩ := List.isChain_cons_cons.mp hchain
    have hspace : Text.isWordChar ' ' = false := by decide
    rw [charsOf_tidy_cons, List.flatMap_cons, ← ih u hchain]
    by_cases hgap : u.gap = ""
    · rw [if_pos hgap, List.nil_append]
      rcases htouch with ⟨-, ht⟩ | ⟨hne, hu⟩
      · have hnone : Text.wordsFrom [] t.text.toList = [] := by
          simpa [Text.wordsFrom] using wordsFrom_wordless [] ht
        rw [wordsFrom_wordless _ ht, hnone, List.nil_append]
      · cases hcase : u.text.toList with
        | nil => exact absurd (String.toList_eq_nil_iff.mp hcase) hne
        | cons c cs =>
          have hc : Text.isWordChar c = false := hu c (hcase ▸ List.mem_cons_self)
          rw [List.cons_append, wordsFrom_stop [] t.text.toList _ hc]
    · rw [if_neg hgap, List.singleton_append, wordsFrom_stop [] t.text.toList _ hspace]
      simp [Text.wordsFrom, hspace]

/-- The words of tokens do not depend on the white space between them. -/
theorem words_slice_tidy {tokens others : List Token} (htexts : tokens.map text = others.map text)
    (hchain : tokens.IsChain fun a b => a.IsWordless ∨ b.IsWordless)
    (hchain' : others.IsChain fun a b => a.IsWordless ∨ b.IsWordless) :
    Text.words (slice (tokens.map tidy)) = Text.words (slice (others.map tidy)) := by
  have hwords : ∀ tokens : List Token,
      (tokens.IsChain fun a b => a.IsWordless ∨ b.IsWordless) →
      Text.wordsFrom [] (slice (tokens.map tidy)).toList =
        (tokens.map text).flatMap fun s => Text.wordsFrom [] s.toList := by
    intro tokens hchain
    cases tokens with
    | nil => rfl
    | cons t rest =>
      rw [List.map_cons, toList_slice_cons, List.flatMap_map]
      exact wordsFrom_charsOf t rest hchain
  rw [Text.words, Text.words, hwords tokens hchain, hwords others hchain', htexts]

end Token

end Backfield.CSharp

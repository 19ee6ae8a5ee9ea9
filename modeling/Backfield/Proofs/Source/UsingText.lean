import Mathlib.Data.Bool.AllAny
import Backfield.Proofs.CSharp.Gaps
import Backfield.Proofs.Source.Directives

/-!
# How a using directive is read

The reader takes a directive apart from the front, with its white space squeezed but with the
comments in it.  Each step here has whatever may stand between two tokens before and after what it
takes off.

* `afterWord?_squeezeFrom` is the step over a keyword.  There has to be nothing but white space
  before it, and white space after it.
* `aliasName?_squeezeFrom` is the step over an alias, and `aliasName?_eq_none_of_visible` says when
  there is none.
* `beforeEnd?_squeezeFrom` says that what is left is the target without its blanks, unless a
  semicolon is in it.
-/

namespace Backfield.UsingDirective

open CSharp (OpensWithSign gapSigns)
open CSharp.Lexeme (EndsName isNameChar)
open Text (BeginsBlank dropBlanksEnd isBlank isWordChar squeezeFrom visible visible_eq_nil_iff
  visible_squeezeFrom)

variable {gap rest text : List Char}

/-! ## Signs and words -/

theorem isWordChar_sign : ∀ c ∈ gapSigns, isWordChar c = false :=
  List.all_iff_forall_prop.mp (by decide +kernel)

theorem isWordChar_eq_false {c : Char} (hc : isBlank c = true) : isWordChar c = false := by
  have hall : (Text.blanks.all fun d => !isWordChar d) = true := by decide +kernel
  simpa using List.all_eq_true.mp hall c (Text.mem_blanks hc)

theorem ink_of_isNameChar (h : ∀ c ∈ text, isNameChar c = true) : ∀ c ∈ text, isBlank c = false :=
  fun c hc => Text.isBlank_of_isNameChar (h c hc)

theorem ink_of_isWordChar (h : ∀ c ∈ text, isWordChar c = true) :
    ∀ c ∈ text, isBlank c = false := fun c hc => Bool.eq_false_iff.mpr fun hblank => by
  have hnot := isWordChar_eq_false hblank
  rw [h c hc] at hnot
  cases hnot

/-- A text that ends with something visible is collapsed by squeezing it. -/
theorem toList_collapse_of_concat {text : String} {front : List Char} {c : Char}
    (heq : text.toList = front ++ [c]) (hc : isBlank c = false) :
    (Text.collapse text).toList = squeezeFrom true text.toList := by
  rw [Text.collapse_eq_tighten, String.toList_ofList, Text.tighten, heq,
    Text.squeezeFrom_concat true front hc, Text.dropBlanksEnd_concat _ hc]

/-- Where something visible stands between two tokens, a sign comes first. -/
theorem exists_sign (hgap : OpensWithSign gap) (hvisible : visible gap ≠ []) (more : List Char) :
    ∃ c ∈ gapSigns, (squeezeFrom true (gap ++ more)).head? = some c := by
  obtain ⟨c, others, hcons⟩ := List.exists_cons_of_ne_nil hvisible
  refine ⟨c, hgap c (by rw [hcons]; rfl), ?_⟩
  rw [Text.head?_squeezeFrom_true, Text.visible_append, hcons]
  rfl

/-- A word with only white space before it. -/
theorem squeezeFrom_word {word : List Char} (hgap : visible gap = []) (hne : word ≠ [])
    (hword : ∀ c ∈ word, isNameChar c = true) (rest : List Char) :
    squeezeFrom true (gap ++ (word ++ rest)) = word ++ squeezeFrom false rest := by
  rw [Text.squeezeFrom_pending _ (visible_eq_nil_iff.mp hgap),
    Text.squeezeFrom_ink true rest hne (ink_of_isNameChar hword)]

theorem endsName_squeezeFrom (h : EndsName rest) : EndsName (squeezeFrom false rest) := by
  intro c hc
  by_cases hblank : BeginsBlank rest
  · rw [Text.squeezeFrom_of_beginsBlank hblank] at hc
    cases hc
    decide
  · exact h c (Text.head?_squeezeFrom_false hblank c hc).1

/-- No name goes on into what stands between two tokens. -/
theorem endsName_gap (hgap : OpensWithSign gap) (h : EndsName rest) : EndsName (gap ++ rest) := by
  cases gap with
  | nil => exact h
  | cons c more =>
    rintro d ⟨⟩
    cases hblank : isBlank c with
    | true => exact CSharp.Lexeme.isNameChar_eq_false hblank
    | false =>
      refine CSharp.isNameChar_sign c (hgap c ?_)
      rw [Text.visible_cons_ink more hblank]
      rfl

/-! ## Keywords -/

theorem afterWord?_eq_none_of_head {word : String} (hne : word ≠ "")
    (h : text.head? ≠ word.toList.head?) : afterWord? word text = none := by
  rw [afterWord?, if_neg]
  intro hprefix
  obtain ⟨more, rfl⟩ := List.isPrefixOf_iff_prefix.mp hprefix
  have hne : word.toList ≠ [] := by simpa using hne
  rw [List.append_assoc, List.head?_append_of_ne_nil _ hne] at h
  exact h rfl

theorem afterWord?_sign {word : String} (hne : word ≠ "")
    (hword : ∀ c ∈ word.toList, isNameChar c = true) (hgap : OpensWithSign gap)
    (hvisible : visible gap ≠ []) (more : List Char) :
    afterWord? word (squeezeFrom true (gap ++ more)) = none := by
  obtain ⟨c, hc, hhead⟩ := exists_sign hgap hvisible more
  refine afterWord?_eq_none_of_head hne fun heq => ?_
  have hname := hword c (List.mem_of_mem_head? (heq.symm.trans hhead))
  rw [CSharp.isNameChar_sign c hc] at hname
  cases hname

/-- A keyword is taken off if there is only white space before it and white space after it. -/
theorem afterWord?_squeezeFrom {word : String} (hne : word ≠ "")
    (hword : ∀ c ∈ word.toList, isNameChar c = true) (hgap : OpensWithSign gap)
    (rest : List Char) :
    afterWord? word (squeezeFrom true (gap ++ (word.toList ++ rest))) =
      if visible gap = [] ∧ BeginsBlank rest then some (squeezeFrom true rest) else none := by
  have hne' : word.toList ≠ [] := by simpa using hne
  by_cases hwhite : visible gap = []
  · rw [squeezeFrom_word hwhite hne' hword]
    by_cases hblank : BeginsBlank rest
    · rw [Text.squeezeFrom_of_beginsBlank hblank, afterWord?_self, if_pos ⟨hwhite, hblank⟩]
    · rw [if_neg fun h => hblank h.2, afterWord?, if_neg]
      intro hprefix
      obtain ⟨more, hmore⟩ := List.isPrefixOf_iff_prefix.mp hprefix
      rw [List.append_assoc] at hmore
      have hspace : (squeezeFrom false rest).head? = some ' ' := by
        rw [← List.append_cancel_left hmore]
        rfl
      exact absurd (Text.head?_squeezeFrom_false hblank ' ' hspace).2 (by decide)
  · rw [afterWord?_sign hne hword hgap hwhite, if_neg fun h => hwhite h.1]

/-- With nothing before it a keyword only needs white space after it. -/
theorem afterWord?_squeezeFrom_self {word : String} (hne : word ≠ "")
    (hword : ∀ c ∈ word.toList, isNameChar c = true) (rest : List Char) :
    afterWord? word (squeezeFrom true (word.toList ++ rest)) =
      if BeginsBlank rest then some (squeezeFrom true rest) else none := by
  have hnone : OpensWithSign [] := by rintro c ⟨⟩
  simpa using afterWord?_squeezeFrom hne hword hnone rest

/-- A word that begins in another way is not taken for a keyword, whatever comes after it. -/
theorem afterWord?_of_head_ne {word : String} {first : List Char} (hne : word ≠ "")
    (hfirst : first ≠ []) (hchars : ∀ c ∈ first, isNameChar c = true)
    (hhead : first.head? ≠ word.toList.head?) (rest : List Char) :
    afterWord? word (squeezeFrom true (first ++ rest)) = none := by
  have hsplit := squeezeFrom_word Text.visible_nil hfirst hchars rest
  rw [List.nil_append] at hsplit
  refine afterWord?_eq_none_of_head hne ?_
  rwa [hsplit, List.head?_append_of_ne_nil _ hfirst]

/-- Another word is not taken for a keyword. -/
theorem afterWord?_other {word : String} {first : List Char} (hne : word ≠ "")
    (hword : ∀ c ∈ word.toList, isNameChar c = true) (hgap : OpensWithSign gap)
    (hfirst : first ≠ []) (hchars : ∀ c ∈ first, isNameChar c = true) (hrest : EndsName rest)
    (hother : first ≠ word.toList) :
    afterWord? word (squeezeFrom true (gap ++ (first ++ rest))) = none := by
  by_cases hwhite : visible gap = []
  · rw [squeezeFrom_word hwhite hfirst hchars]
    exact afterWord?_eq_none hword hchars (endsName_squeezeFrom hrest) hother
  · exact afterWord?_sign hne hword hgap hwhite _

/-! ## Aliases -/

theorem takeWhile_of_aliasName? {name : String} (h : aliasName? text = some (name, rest)) :
    name.toList = text.takeWhile isWordChar ∧ name.toList ≠ [] := by
  unfold aliasName? at h
  split at h
  · dsimp only at h
    split at h
    · cases h
    · rename_i hne
      obtain ⟨rfl, -⟩ := Prod.mk.inj (Option.some.inj h)
      rw [String.toList_ofList]
      exact ⟨rfl, fun hnil => hne (List.isEmpty_iff.mpr hnil)⟩
  · cases h

/-- There is no alias if another sign comes before the first equals sign. -/
theorem aliasName?_eq_none_of_visible
    (h : ((visible text).dropWhile isWordChar).head? ≠ some '=') : aliasName? text = none := by
  rw [aliasName?]
  split
  · rename_i rest heq
    refine absurd ?_ h
    have htake : ∀ c ∈ text.takeWhile isWordChar, isWordChar c = true := fun c hc =>
      List.mem_takeWhile_imp hc
    have hblank : visible ((text.dropWhile isWordChar).takeWhile isBlank) = [] :=
      visible_eq_nil_iff.mpr fun c hc => List.mem_takeWhile_imp hc
    have hvisible : visible text = text.takeWhile isWordChar ++ '=' :: visible rest := by
      conv_lhs => rw [← List.takeWhile_append_dropWhile (p := isWordChar) (l := text),
        ← List.takeWhile_append_dropWhile (p := isBlank) (l := text.dropWhile isWordChar), heq]
      rw [Text.visible_append, Text.visible_append, hblank,
        Text.visible_eq_self (ink_of_isWordChar htake), Text.visible_cons_ink rest (by decide)]
      rfl
    rw [hvisible, List.dropWhile_append_of_pos htake, List.dropWhile_cons_of_neg (by decide)]
    rfl
  · rfl

/-- An alias with only white space between it and the equals sign. -/
theorem aliasName?_squeezeFrom {name : List Char} (hne : name ≠ [])
    (hname : ∀ c ∈ name, isWordChar c = true) (hgap : visible gap = []) (rest : List Char) :
    aliasName? (name ++ squeezeFrom false (gap ++ '=' :: rest)) =
      some (String.ofList name, squeezeFrom false rest) := by
  have hequals : ∀ pending, squeezeFrom pending ('=' :: rest) = '=' :: squeezeFrom false rest :=
    fun pending => Text.squeezeFrom_ink pending rest (List.cons_ne_nil '=' [])
      (List.forall_mem_singleton.mpr (by decide))
  have hafter : ∃ blanks, (∀ c ∈ blanks, isBlank c = true) ∧
      squeezeFrom false (gap ++ '=' :: rest) = blanks ++ '=' :: squeezeFrom false rest := by
    by_cases hnil : gap = []
    · exact ⟨[], by simp, by rw [hnil, List.nil_append, hequals]; rfl⟩
    · refine ⟨[' '], List.forall_mem_singleton.mpr (by decide), ?_⟩
      rw [Text.squeezeFrom_gap _ hnil (visible_eq_nil_iff.mp hgap), hequals]
      rfl
  obtain ⟨blanks, hblanks, heq⟩ := hafter
  have hstop : ∀ more : List Char, (blanks ++ '=' :: more).takeWhile isWordChar = [] ∧
      (blanks ++ '=' :: more).dropWhile isWordChar = blanks ++ '=' :: more := by
    intro more
    cases blanks with
    | nil => exact ⟨rfl, rfl⟩
    | cons c others =>
      have hc : ¬isWordChar c = true := by
        simp [isWordChar_eq_false (hblanks c List.mem_cons_self)]
      exact ⟨List.takeWhile_cons_of_neg hc, List.dropWhile_cons_of_neg hc⟩
  have hempty : name.isEmpty = false := by simpa using hne
  rw [heq, aliasName?, List.takeWhile_append_of_pos hname, List.dropWhile_append_of_pos hname,
    (hstop _).1, (hstop _).2, List.dropWhile_append_of_pos hblanks,
    List.dropWhile_cons_of_neg (by decide), List.append_nil]
  simp [hempty]

/-! ## Targets -/

theorem beforeEnd?_of_reverse {before : List Char} (h : text.reverse = ';' :: before) :
    beforeEnd? text =
      if before.isEmpty || before.contains ';' then none
      else if (before.dropWhile isBlank).isEmpty then some before.reverse
      else some (before.dropWhile isBlank).reverse := by
  rw [beforeEnd?, h]
  rfl

/-- What is left in front of the last semicolon is the target without its blanks, if it has no
other semicolon. -/
theorem beforeEnd?_squeezeFrom (pending : Bool) {body : List Char} (hink : visible body ≠ []) :
    (beforeEnd? (squeezeFrom pending (body ++ [';']))).map targetOf =
      if ';' ∈ body then none else some (targetOf (visible body)) := by
  have hne : squeezeFrom pending body ≠ [] := fun hnil => by
    rw [← visible_squeezeFrom pending body, hnil] at hink
    exact hink rfl
  have hmem : ';' ∈ squeezeFrom pending body ↔ ';' ∈ body := by
    have hiff : ∀ text : List Char, ';' ∈ visible text ↔ ';' ∈ text := fun text =>
      Text.mem_visible.trans (and_iff_left (by decide))
    rw [← hiff, visible_squeezeFrom, hiff]
  have hname : (squeezeFrom pending body).reverse.dropWhile isBlank ≠ [] := by
    rw [Ne, List.dropWhile_eq_nil_iff]
    intro hall
    rw [← visible_squeezeFrom pending body] at hink
    exact hink (visible_eq_nil_iff.mpr fun c hc => hall c (List.mem_reverse.mpr hc))
  have hreverse : (squeezeFrom pending (body ++ [';'])).reverse =
      ';' :: (squeezeFrom pending body).reverse := by
    rw [Text.squeezeFrom_concat pending body (by decide), List.reverse_concat]
  have htarget : targetOf ((squeezeFrom pending body).reverse.dropWhile isBlank).reverse =
      targetOf (visible body) := by
    have hfilter := Text.filter_dropBlanksEnd pending body
    rw [dropBlanksEnd] at hfilter
    rw [targetOf, targetOf, hfilter, Text.filter_visible]
  rw [beforeEnd?_of_reverse hreverse]
  by_cases hsemicolon : ';' ∈ body
  · simp [hmem.mpr hsemicolon, hsemicolon]
  · have hnot : ';' ∉ squeezeFrom pending body := mt hmem.mp hsemicolon
    rw [if_neg hsemicolon, if_neg (by simp [hne, hnot]), if_neg (by simpa using hname)]
    exact congrArg some htarget

/-! ## Directives -/

theorem ofTarget?_of_none (h : aliasName? text = none) :
    ofTarget? text = ((beforeEnd? text).map targetOf).map plain := by
  rw [ofTarget?, h, Option.map_map]
  rfl

theorem ofTarget?_of_some {name : String} (h : aliasName? text = some (name, rest)) :
    ofTarget? text = (((beforeEnd? rest).map targetOf).map (aliased name)).or
      (((beforeEnd? text).map targetOf).map plain) := by
  rw [ofTarget?, h]
  dsimp only
  cases beforeEnd? rest with
  | none => rw [Option.map_none, Option.map_none, Option.none_or, Option.map_map]; rfl
  | some target => rfl

/-- A directive without the keywords in front of its role. -/
def ofRest? (text : List Char) : Option UsingDirective :=
  match afterWord? "static" text with
  | some target => if (ofTarget? target).isSome then some statics else ofTarget? text
  | none => ofTarget? text

theorem ofChars?_eq (text : List Char) :
    ofChars? text = (afterWord? "using" ((afterWord? "global" text).getD text)).bind ofRest? := rfl

end Backfield.UsingDirective

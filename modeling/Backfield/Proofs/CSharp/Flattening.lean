import Backfield.Proofs.CSharp.Locality

/-!
# Texts written on one line

What becomes of the tokens of a text when its white space is collapsed.  A word or a symbol ends
where it ended, and so does a comment between `/*` and `*/`.  But a comment after two slashes and a
line after a number sign end with their line, so that on one line they swallow whatever follows.

* `measure_separates` says how that begins which separates tokens, `exists_cuts` cuts off a word or
  a symbol.  `Pieces` is a text told by its first piece.
* `tokens_tighten_gap`, `tokens_tighten_plain`, `tokens_tighten_block`, `tokens_tighten_lineComment`
  and `tokens_tighten_hashed` are the step over a first piece, by its kind.
* `Pieces.tokens_tighten` is the run, by induction on the pieces: the tokens before the first piece
  that ends with its line are left.
* `tokensIn_collapse_eq_iff` says when these are all.
-/

namespace Backfield.CSharp.Lexeme

open Text (isBlank inkRun tighten tighten_ink tighten_blank tighten_pending)

/-! ## Tokens and what separates them -/

/-- The lexeme is a line that begins with a number sign: for the compiler, or one that divides the
text into parts of which some are left out. -/
def isHashed : LexemeKind → Bool
  | .directive => true
  | .ifMark => true
  | .elseMark => true
  | .endMark => true
  | _ => false

/-- The lexeme only separates tokens. -/
def separates (l : Lexeme) : Bool := Token.isTrivia l || isHashed l.kind

/-- The tokens among some lexemes. -/
def tokens (lexemes : List Lexeme) : List Lexeme := lexemes.filter fun l => !separates l

/-- The tokens of a text. -/
def tokensIn (text : String) : List Lexeme := tokens (ofText text.toList)

/-- The lexeme ends with its line: a comment after two slashes, or a line that begins with a number
sign. -/
def isLineBound (l : Lexeme) : Bool :=
  isHashed l.kind || (l.kind == .comment && ['/', '/'].isPrefixOf l.text)

/-- A word or a symbol, or something that only separates tokens. -/
def IsOrdinary (l : Lexeme) : Prop := IsPlainKind l.kind ∨ separates l = true

instance : DecidablePred IsOrdinary := fun l =>
  inferInstanceAs (Decidable (IsPlainKind l.kind ∨ separates l = true))

theorem separates_iff {l : Lexeme} :
    separates l = true ↔ l.kind = .blank ∨ l.kind = .comment ∨ isHashed l.kind = true := by
  cases hkind : l.kind <;> simp [separates, Token.isTrivia, isHashed, hkind]

theorem separates_eq_false {l : Lexeme} (h : IsPlainKind l.kind) : separates l = false := by
  rcases h with h | h
  · simp [separates, Token.isTrivia, isHashed, h]
  · simp [separates, Token.isTrivia, isHashed, h]

theorem isLineBound_eq_false {l : Lexeme} (h : IsPlainKind l.kind) : isLineBound l = false := by
  rcases h with h | h
  · simp [isLineBound, isHashed, h]
  · simp [isLineBound, isHashed, h]

theorem separates_of_isLineBound {l : Lexeme} (h : isLineBound l = true) : separates l = true := by
  simp only [isLineBound, Bool.or_eq_true, Bool.and_eq_true, beq_iff_eq] at h
  exact separates_iff.mpr (Or.inr (h.symm.imp And.left id))

theorem plain?_kind {text : List Char} {kind : LexemeKind} {n : Nat}
    (h : plain? text = some (kind, n)) : kind ≠ .blank ∧ isHashed kind = false := by
  unfold plain? at h
  split at h
  · cases h
  · cases h
    split <;> simp [isHashed]
  · cases h
    simp [isHashed]

theorem interpolated?_kind {text : List Char} {kind : LexemeKind} {n : Nat}
    (h : interpolated? text = some (kind, n)) :
    kind ≠ .blank ∧ kind ≠ .comment ∧ isHashed kind = false := by
  unfold interpolated? at h
  split at h
  · cases h
  · split at h
    · cases h
      simp [isHashed]
    · cases h
      simp [isHashed]

theorem directiveKind_kind (rest : List Char) :
    directiveKind rest = .stray ∨ isHashed (directiveKind rest) = true := by
  unfold directiveKind
  split
  all_goals first | (split <;> simp [isHashed]) | simp [isHashed]

theorem ne_stray_of_isHashed {kind : LexemeKind} (h : isHashed kind = true) : kind ≠ .stray := by
  rintro rfl
  cases h

/-- How white space, a comment and a line after a number sign begin. -/
theorem measure_separates {c : Char} {rest : List Char} {kind : LexemeKind} {n : Nat}
    (h : measure c rest = (kind, n)) :
    (kind = .blank → isGap c = true) ∧ (kind = .comment → plain? (c :: rest) = some (.comment, n)) ∧
      (isHashed kind = true → c = '#' ∧ directiveKind rest = kind) := by
  unfold measure at h
  dsimp only at h
  split at h
  · rename_i hgap
    cases h
    simp [hgap, isHashed]
  · split at h
    · cases h
      simp [isHashed]
    · rename_i kind' m _ hliteral
      cases h
      rcases Option.or_eq_some_iff.mp hliteral with hplain | ⟨-, hinterpolated⟩
      · obtain ⟨hblank, hhashed⟩ := plain?_kind hplain
        exact ⟨fun h => absurd h hblank, fun h => h ▸ hplain, fun h => by simp [hhashed] at h⟩
      · obtain ⟨hblank, hcomment, hhashed⟩ := interpolated?_kind hinterpolated
        exact ⟨fun h => absurd h hblank, fun h => absurd h hcomment,
          fun h => by simp [hhashed] at h⟩
    · split at h
      · rename_i hsharp
        split at h
        · cases h
          simp [isHashed]
        · rename_i hstray
          obtain ⟨rfl, -⟩ := Prod.mk.inj h
          have hhashed := (directiveKind_kind rest).resolve_left hstray
          refine ⟨fun h => ?_, fun h => ?_, fun _ => ⟨beq_iff_eq.mp hsharp, rfl⟩⟩
          · rw [h] at hhashed
            cases hhashed
          · rw [h] at hhashed
            cases hhashed
      · split_ifs at h <;> cases h <;> simp [isHashed]

/-! ## The first piece of a text -/

theorem nameLength_le (skip : Nat) (text : List Char) : nameLength skip text ≤ text.length := by
  induction text generalizing skip with
  | nil => cases skip <;> exact Nat.le_refl _
  | cons c rest ih =>
    cases skip with
    | succ skip =>
      rw [nameLength, List.length_cons]
      exact Nat.succ_le_succ (ih skip)
    | zero =>
      rw [nameLength, List.length_cons]
      split
      · exact Nat.succ_le_succ (ih 0)
      · split
        · exact Nat.zero_le _
        · exact Nat.succ_le_succ (ih _)

theorem wordLength_le (text : List Char) : wordLength text ≤ text.length := by
  cases text with
  | nil => exact Nat.le_refl _
  | cons c rest =>
    rw [wordLength, List.length_cons]
    split
    · exact Nat.succ_le_succ (nameLength_le 0 rest)
    · split
      · exact Nat.zero_le _
      · exact Nat.succ_le_succ (nameLength_le _ rest)

theorem symbolLength_le (text : List Char) : symbolLength text ≤ text.length := by
  unfold symbolLength
  split
  · rename_i symbol hfind
    have hprefix : symbol.isPrefixOf text = true := by simpa using List.find?_some hfind
    exact (List.isPrefixOf_iff_prefix.mp hprefix).length_le
  · split
    · rename_i hhead
      cases text with
      | nil => simp at hhead
      | cons c rest => simp
    · exact Nat.zero_le _

theorem exists_of_afterBlockComment {inner after : List Char}
    (h : Literal.afterBlockComment inner = some after) : ∃ body, inner = body ++ after := by
  fun_induction Literal.afterBlockComment inner with
  | case1 => cases h
  | case2 rest =>
    obtain rfl := Option.some.inj h
    exact ⟨['*', '/'], rfl⟩
  | case3 c rest _ ih =>
    obtain ⟨body, rfl⟩ := ih h
    exact ⟨c :: body, rfl⟩

/-- A comment is a block or a line, and what is after it comes after two characters at least. -/
theorem plain?_comment {c : Char} {rest : List Char} {n : Nat}
    (h : plain? (c :: rest) = some (.comment, n)) :
    c = '/' ∧ ∃ d inner after, rest = d :: inner ∧ n = lengthBefore (c :: rest) after ∧
      (d = '*' ∧ Literal.afterBlockComment inner = some after ∨
        d = '/' ∧ Literal.afterLine inner = after) := by
  unfold plain? at h
  split at h
  · cases h
  · rename_i after hafter
    obtain ⟨hkind, rfl⟩ := Prod.mk.inj (Option.some.inj h)
    have hc : c = '/' := by simpa using hkind
    subst hc
    refine ⟨rfl, ?_⟩
    unfold Literal.afterPlain? at hafter
    split at hafter
    · rename_i heq
      cases heq
    · rename_i heq
      cases heq
    · rename_i heq
      cases heq
    · rename_i inner heq
      obtain ⟨-, rfl⟩ := List.cons.inj heq
      exact ⟨_, inner, after, rfl, rfl, Or.inl ⟨rfl, Option.some.inj hafter⟩⟩
    · rename_i inner heq
      obtain ⟨-, rfl⟩ := List.cons.inj heq
      exact ⟨_, inner, after, rfl, rfl, Or.inr ⟨rfl, Option.some.inj (Option.some.inj hafter)⟩⟩
    · cases hafter
  · cases h

/-- A word or a symbol at the front of a text is cut off in front of the rest. -/
theorem exists_cuts {c : Char} {rest : List Char} {kind : LexemeKind} {n : Nat}
    (h : measure c rest = (kind, n)) (hkind : IsPlainKind kind) :
    ∃ piece after, c :: rest = piece ++ after ∧ Cuts kind piece after := by
  -- It is enough that the piece is not empty and does not go on after the end of the text.
  suffices hlength : 0 < n ∧ n ≤ (c :: rest).length by
    obtain ⟨n, rfl⟩ := Nat.exists_eq_add_of_lt hlength.1
    rw [Nat.zero_add] at h hlength
    refine ⟨(c :: rest).take (n + 1), (c :: rest).drop (n + 1),
      (List.take_append_drop _ _).symm, c, rest.take n, rfl, ?_⟩
    rw [List.drop_succ_cons, List.take_append_drop, h, List.length_take,
      Nat.min_eq_left hlength.2]
  rcases measure_plainKind h hkind with ⟨-, ⟨hn, hpos⟩ | ⟨-, hn, -⟩⟩ | ⟨-, hn, hpos⟩
  · exact ⟨hpos, hn ▸ wordLength_le _⟩
  · exact ⟨by omega, hn ▸ Nat.succ_le_succ (wordLength_le rest)⟩
  · exact ⟨hpos, hn ▸ symbolLength_le _⟩

theorem Cuts.ink {kind : LexemeKind} {piece rest : List Char} (h : Cuts kind piece rest)
    (hkind : IsPlainKind kind) : ∀ c ∈ piece, isBlank c = false := by
  have hmem : (⟨kind, piece⟩ : Lexeme) ∈ ofText (piece ++ rest) := by
    rw [ofText_of_cuts h]
    exact List.mem_cons_self
  intro c hc
  rcases hkind with hword | hsymbol
  · exact Text.isBlank_of_isNameChar (isNameChar_of_mem_cut hmem hword c hc)
  · exact (isSymbolChar_ink (isSymbolChar_of_mem_cut hmem hsymbol c hc)).1

theorem Cuts.length_lt {kind : LexemeKind} {piece rest : List Char} (h : Cuts kind piece rest) :
    rest.length < (piece ++ rest).length := by
  obtain ⟨c, more, rfl, -⟩ := h
  rw [List.length_append, List.length_cons]
  omega

theorem ofText_cons (c : Char) (rest : List Char) :
    ∃ lexemes, ofText (c :: rest) =
      ⟨(measure c rest).1, c :: rest.take ((measure c rest).2 - 1)⟩ :: lexemes := ⟨_, rfl⟩

/-! ## White space -/

theorem tokens_ofText_gap {c : Char} (rest : List Char) (hc : isGap c = true) :
    tokens (ofText (c :: rest)) = tokens (ofText rest) := by
  have hdrop : ∀ {c : Char} (rest : List Char), isGap c = true →
      tokens (ofText (c :: rest)) = tokens (ofText (rest.dropWhile isGap)) := by
    intro c rest hc
    rw [ofText_of_isGap rest hc]
    rfl
  rw [hdrop rest hc]
  cases rest with
  | nil => rfl
  | cons d more =>
    by_cases hd : isGap d = true
    · rw [List.dropWhile_cons_of_pos hd, hdrop more hd]
    · rw [List.dropWhile_cons_of_neg hd]

theorem tokens_ofText_append {gap : List Char} (rest : List Char)
    (hgap : ∀ c ∈ gap, isGap c = true) : tokens (ofText (gap ++ rest)) = tokens (ofText rest) := by
  induction gap with
  | nil => rfl
  | cons c gap ih =>
    rw [List.cons_append, tokens_ofText_gap _ (hgap c List.mem_cons_self),
      ih fun x hx => hgap x (List.mem_cons_of_mem _ hx)]

/-- White space stays white space in front of a visible character. -/
theorem exists_tighten_gap {gap after : List Char} (pending : Bool)
    (hgap : ∀ c ∈ gap, isGap c = true) (hafter : ∀ c ∈ after.head?, isBlank c = false) :
    ∃ gap', (∀ c ∈ gap', isGap c = true) ∧
      tighten pending (gap ++ after) = gap' ++ tighten false after := by
  induction gap generalizing pending with
  | nil => exact ⟨[], by simp, Text.tighten_eq_of_head pending hafter⟩
  | cons c gap ih =>
    have hrest : ∀ pending, ∃ gap', (∀ c ∈ gap', isGap c = true) ∧
        tighten pending (gap ++ after) = gap' ++ tighten false after :=
      fun pending => ih pending fun x hx => hgap x (List.mem_cons_of_mem _ hx)
    rw [List.cons_append]
    by_cases hc : isBlank c = true
    · obtain ⟨gap', hgap', heq⟩ := hrest true
      cases pending with
      | true => exact ⟨gap', hgap', by rw [tighten_pending _ hc, heq]⟩
      | false =>
        rw [tighten_blank _ hc]
        split
        · rename_i hnone
          rw [hnone] at heq
          exact ⟨[], by simp, by simpa using (List.nil_eq_append_iff.mp heq).2⟩
        · exact ⟨' ' :: gap', List.forall_mem_cons.mpr ⟨by decide, hgap'⟩, by rw [heq]; rfl⟩
    · obtain ⟨gap', hgap', heq⟩ := hrest false
      refine ⟨c :: gap', List.forall_mem_cons.mpr ⟨hgap c List.mem_cons_self, hgap'⟩, ?_⟩
      rw [tighten_ink pending _ (Bool.eq_false_iff.mpr hc), heq, List.cons_append]

/-! ## Comments -/

theorem cuts_block {inner after : List Char} (h : Literal.afterBlockComment inner = some after) :
    ∃ body, inner = body ++ after ∧ Cuts .comment ('/' :: '*' :: body) after := by
  obtain ⟨body, rfl⟩ := exists_of_afterBlockComment h
  refine ⟨body, rfl, '/', '*' :: body, rfl, ?_⟩
  rw [measure, if_neg (by decide)]
  simp only [List.cons_append, plain?, Literal.afterPlain?, h, lengthBefore]
  simp
  omega

/-- A comment between `/*` and `*/` still ends there. -/
theorem afterBlockComment_tighten {inner after : List Char} (pending : Bool)
    (h : Literal.afterBlockComment inner = some after) :
    Literal.afterBlockComment (tighten pending inner) = some (tighten false after) := by
  fun_induction Literal.afterBlockComment inner generalizing pending with
  | case1 => cases h
  | case2 rest =>
    obtain rfl := Option.some.inj h
    rw [tighten_ink pending _ (by decide), tighten_ink false _ (by decide)]
    rfl
  | case3 c rest hopen ih =>
    by_cases hc : isBlank c = true
    · have hrest := ih true h
      cases pending with
      | true => rwa [tighten_pending rest hc]
      | false =>
        rw [tighten_blank rest hc]
        split
        · rename_i hnone
          rw [hnone] at hrest
          cases hrest
        · rw [Literal.afterBlockComment, hrest]
          simp
    · rw [tighten_ink pending rest (Bool.eq_false_iff.mpr hc), Literal.afterBlockComment]
      · exact ih false h
      · rintro more rfl heq
        have hhead : (tighten false rest).head? = some '/' := by rw [heq]; rfl
        rw [← head?_inkRun_eq_some (by decide), Text.inkRun_tighten,
          head?_inkRun_eq_some (by decide)] at hhead
        exact hopen _ rfl (List.cons_head?_tail hhead).symm

/-! ## Lines -/

theorem isLineEnd_of_mem_tighten {pending : Bool} {text : List Char} {c : Char}
    (hc : c ∈ tighten pending text) : Literal.isLineEnd c = false := by
  cases hend : Literal.isLineEnd c with
  | false => rfl
  | true =>
    simp only [Literal.isLineEnd, Bool.or_eq_true, beq_iff_eq] at hend
    rcases hend with rfl | rfl
    · exact absurd (Text.eq_space_of_mem_tighten _ hc (by decide)) (by decide)
    · exact absurd (Text.eq_space_of_mem_tighten _ hc (by decide)) (by decide)

theorem afterLine_eq_nil {line : List Char} (h : ∀ c ∈ line, Literal.isLineEnd c = false) :
    Literal.afterLine line = [] :=
  List.dropWhile_eq_nil_iff.mpr fun c hc => by simp [h c hc]

/-- A comment after two slashes ends with its line. -/
theorem isLineBound_lineComment (inner : List Char) :
    isLineBound ⟨.comment, '/' :: ('/' :: inner).take
      (lengthBefore ('/' :: '/' :: inner) (Literal.afterLine inner) - 1)⟩ = true := by
  have hshort : (Literal.afterLine inner).length ≤ inner.length :=
    (List.dropWhile_suffix _).length_le
  have htwo : 2 ≤ lengthBefore ('/' :: '/' :: inner) (Literal.afterLine inner) := by
    simp only [lengthBefore, List.length_cons]
    omega
  obtain ⟨k, hk⟩ := Nat.exists_eq_add_of_le htwo
  simp [isLineBound, hk, Nat.add_comm 2 k]

/-- A comment after two slashes swallows a text on one line. -/
theorem ofText_lineComment {line : List Char} (h : ∀ c ∈ line, Literal.isLineEnd c = false) :
    ofText ('/' :: '/' :: line) = [⟨.comment, '/' :: '/' :: line⟩] := by
  have hcuts : Cuts .comment ('/' :: '/' :: line) [] := by
    refine ⟨'/', '/' :: line, rfl, ?_⟩
    rw [List.append_nil, measure, if_neg (by decide)]
    simp [plain?, Literal.afterPlain?, afterLine_eq_nil h, lengthBefore]
  have hsplit := ofText_of_cuts hcuts
  rwa [List.append_nil] at hsplit

theorem measure_sharp {rest : List Char} (h : directiveKind rest ≠ .stray) :
    measure '#' rest =
      (directiveKind rest, lengthBefore ('#' :: rest) (Literal.afterLine ('#' :: rest))) := by
  have hliteral : NoLiteral ('#' :: rest) := noLiteral_of_ne rest (by decide) (by simp)
  rw [measure, if_neg (by decide)]
  simp only [hliteral.plain, hliteral.interpolated, Option.or_none, beq_self_eq_true, if_true]

/-- So does a line after a number sign. -/
theorem ofText_hashed {line : List Char} (h : ∀ c ∈ line, Literal.isLineEnd c = false)
    (hkind : isHashed (directiveKind line) = true) :
    ofText ('#' :: line) = [⟨directiveKind line, '#' :: line⟩] := by
  have hcuts : Cuts (directiveKind line) ('#' :: line) [] := by
    have hall : ∀ c ∈ '#' :: line, Literal.isLineEnd c = false :=
      List.forall_mem_cons.mpr ⟨by decide, h⟩
    refine ⟨'#', line, rfl, ?_⟩
    rw [List.append_nil, measure_sharp (ne_stray_of_isHashed hkind), afterLine_eq_nil hall]
    rfl
  have hsplit := ofText_of_cuts hcuts
  rwa [List.append_nil] at hsplit

/-- What is left after all that passes a test in front begins with something that does not. -/
theorem eq_false_of_head_dropWhile (test : Char → Bool) (text : List Char) :
    ∀ c ∈ (text.dropWhile test).head?, test c = false := by
  intro c hc
  have hnot := List.head?_dropWhile_not test text
  rwa [hc] at hnot

/-- What passes a test in front stays if no blank passes the test. -/
theorem takeWhile_tighten {test : Char → Bool} (htest : ∀ c, isBlank c = true → test c = false)
    (text : List Char) : (tighten false text).takeWhile test = text.takeWhile test := by
  have hrun : ∀ text : List Char, (inkRun text).takeWhile test = text.takeWhile test := by
    intro text
    induction text with
    | nil => rfl
    | cons c rest ih =>
      by_cases hc : isBlank c = true
      · rw [Text.inkRun_cons_blank rest hc, List.takeWhile_cons_of_neg (by simp [htest c hc])]
        rfl
      · rw [Text.inkRun_cons_ink rest (Bool.eq_false_iff.mpr hc), List.takeWhile_cons,
          List.takeWhile_cons, ih]
  rw [← hrun, Text.inkRun_tighten, hrun]

theorem isAsciiLetter_eq_false {c : Char} (hc : isBlank c = true) :
    Text.isAsciiLetter c = false := by
  have hall : (Text.blanks.all fun d => !Text.isAsciiLetter d) = true := by decide
  simpa using List.all_eq_true.mp hall c (Text.mem_blanks hc)

/-- White space in front of a visible character becomes one space. -/
theorem tighten_gap {gap after : List Char} (hne : gap ≠ [])
    (hgap : ∀ c ∈ gap, isBlank c = true) (hne' : after ≠ [])
    (hafter : ∀ c ∈ after.head?, isBlank c = false) :
    tighten false (gap ++ after) = ' ' :: tighten false after := by
  have hsome : tighten false after ≠ [] := by
    cases after with
    | nil => exact absurd rfl hne'
    | cons d more =>
      rw [tighten_ink false more (hafter d rfl)]
      exact List.cons_ne_nil _ _
  cases gap with
  | nil => exact absurd rfl hne
  | cons c gap =>
    rw [List.cons_append, tighten_blank _ (hgap c List.mem_cons_self),
      Text.tighten_append_gap after fun x hx => hgap x (List.mem_cons_of_mem _ hx),
      Text.tighten_eq_of_head true hafter, if_neg hsome]

/-- The white space that may stand after a number sign. -/
def isSpace (c : Char) : Bool := c == ' ' || c == '\t'

theorem directiveName_eq (text : List Char) :
    directiveName text =
      String.ofList ((text.dropWhile isSpace).takeWhile Text.isAsciiLetter) := rfl

theorem isBlank_of_isSpace {c : Char} (hc : isSpace c = true) : isBlank c = true := by
  simp only [isSpace, Bool.or_eq_true, beq_iff_eq] at hc
  rcases hc with rfl | rfl <;> decide

theorem directiveName_append {front after : List Char} (hfront : ∀ c ∈ front, isSpace c = true)
    (hafter : ∀ c ∈ after.head?, isSpace c = false) :
    directiveName (front ++ after) = String.ofList (after.takeWhile Text.isAsciiLetter) := by
  rw [directiveName_eq, List.dropWhile_append_of_pos hfront]
  cases after with
  | nil => rfl
  | cons c after => rw [List.dropWhile_cons_of_neg (by simp [hafter c rfl])]

/-- Another kind of white space after a number sign hides the name, and so does the end of the
line. -/
theorem directiveKind_eq_stray {gap after : List Char} (hgap : ∀ c ∈ gap, isSpace c = true)
    (hafter : ∀ c ∈ after.head?, isSpace c = false ∧ isBlank c = true) :
    directiveKind (gap ++ after) = .stray := by
  have hempty : after.takeWhile Text.isAsciiLetter = [] := by
    cases after with
    | nil => rfl
    | cons c more =>
      exact List.takeWhile_cons_of_neg (by simp [isAsciiLetter_eq_false (hafter c rfl).2])
  have hmark : (gap ++ after).head? ≠ some '!' := by
    cases gap with
    | nil => exact fun hhead => absurd (hafter '!' hhead).2 (by decide)
    | cons c gap =>
      rintro ⟨⟩
      exact absurd (hgap '!' List.mem_cons_self) (by decide)
  rw [directiveKind, directiveName_append hgap fun c hc => (hafter c hc).1, hempty]
  exact if_neg (by simpa using hmark)

/-- A name in front of which white space stands is found behind one space too. -/
theorem directiveName_tighten {gap more : List Char} {c : Char}
    (hgap : ∀ c ∈ gap, isSpace c = true) (hspace : isSpace c = false) (hc : isBlank c = false) :
    directiveName (tighten false (gap ++ c :: more)) = directiveName (gap ++ c :: more) := by
  have hhead : ∀ d ∈ (tighten false (c :: more)).head?, isSpace d = false := by
    rw [tighten_ink false more hc]
    rintro d ⟨⟩
    exact hspace
  have hname : directiveName (gap ++ c :: more) =
      String.ofList ((tighten false (c :: more)).takeWhile Text.isAsciiLetter) := by
    rw [takeWhile_tighten fun _ => isAsciiLetter_eq_false]
    refine directiveName_append hgap ?_
    rintro d ⟨⟩
    exact hspace
  rw [hname]
  by_cases hne : gap = []
  · subst hne
    exact @directiveName_append [] _ (by simp) hhead
  · rw [tighten_gap hne (fun d hd => isBlank_of_isSpace (hgap d hd)) (List.cons_ne_nil _ _) (by
      rintro d ⟨⟩
      exact hc)]
    exact @directiveName_append [' '] _ (by simp [isSpace]) hhead

/-- A line after a number sign says the same when its white space is collapsed. -/
theorem directiveKind_tighten {line : List Char} (h : directiveKind line ≠ .stray) :
    directiveKind (tighten false line) = directiveKind line := by
  have hhead : ((tighten false line).head? == some '!') = (line.head? == some '!') := by
    rw [Bool.eq_iff_iff, beq_iff_eq, beq_iff_eq, ← head?_inkRun_eq_some (by decide),
      Text.inkRun_tighten, head?_inkRun_eq_some (by decide)]
  suffices hname : directiveName (tighten false line) = directiveName line by
    rw [directiveKind, directiveKind, hname, hhead]
  obtain ⟨gap, after, rfl, hgap, hafter⟩ : ∃ gap after, line = gap ++ after ∧
      (∀ c ∈ gap, isSpace c = true) ∧ ∀ c ∈ after.head?, isSpace c = false :=
    ⟨_, _, List.takeWhile_append_dropWhile.symm, fun c => List.mem_takeWhile_imp,
      eq_false_of_head_dropWhile isSpace line⟩
  cases after with
  | nil => exact absurd (directiveKind_eq_stray hgap (by simp)) h
  | cons c more =>
    cases hc : isBlank c with
    | false => exact directiveName_tighten hgap (hafter c rfl) hc
    | true =>
      refine absurd (directiveKind_eq_stray hgap ?_) h
      rintro d ⟨⟩
      exact ⟨hafter c rfl, hc⟩

/-! ## All pieces -/

/-- A text without literals and stray characters, by its first piece.  What comes after a piece that
ends with its line is left open, since on one line nothing is left of it. -/
inductive Pieces : List Char → Prop
  | nil : Pieces []
  | gap {c : Char} {rest : List Char} (hc : isGap c = true)
      (tail : Pieces (rest.dropWhile isGap)) : Pieces (c :: rest)
  | plain {kind : LexemeKind} {piece after : List Char} (cuts : Cuts kind piece after)
      (hkind : IsPlainKind kind) (tail : Pieces after) : Pieces (piece ++ after)
  | block {inner after : List Char} (hinner : Literal.afterBlockComment inner = some after)
      (tail : Pieces after) : Pieces ('/' :: '*' :: inner)
  | lineComment (inner : List Char) : Pieces ('/' :: '/' :: inner)
  | hashed {rest : List Char} (hrest : isHashed (directiveKind rest) = true) : Pieces ('#' :: rest)

theorem pieces_of_isOrdinary {text : List Char} (h : ∀ l ∈ ofText text, IsOrdinary l) :
    Pieces text := by
  -- The rest after the first piece is shorter, and its pieces are ordinary as well.
  induction hlength : text.length using Nat.strong_induction_on generalizing text with
  | _ length ih =>
  subst hlength
  cases text with
  | nil => exact .nil
  | cons c rest =>
    obtain ⟨lexemes, hfirst⟩ := ofText_cons c rest
    have htail : ∀ {l : Lexeme} {after : List Char}, ofText (c :: rest) = l :: ofText after →
        after.length < (c :: rest).length → Pieces after := fun heq hshort =>
      ih _ hshort (fun l hl => h l (heq ▸ List.mem_cons_of_mem _ hl)) rfl
    cases hmeasure : measure c rest with
    | mk kind n =>
    rw [hmeasure] at hfirst
    have hkind : IsOrdinary ⟨kind, c :: rest.take (n - 1)⟩ := h _ (hfirst ▸ List.mem_cons_self)
    rcases hkind with hplain | hseparates
    · obtain ⟨piece, after, htext, hcuts⟩ := exists_cuts hmeasure hplain
      rw [htext] at htail ⊢
      exact .plain hcuts hplain (htail (ofText_of_cuts hcuts) hcuts.length_lt)
    · obtain ⟨hblank, hcomment, hhashed⟩ := measure_separates hmeasure
      rcases separates_iff.mp hseparates with hkind | hkind | hkind
      · exact .gap (hblank hkind) (htail (ofText_of_isGap rest (hblank hkind))
          (Nat.lt_succ_of_le (List.dropWhile_suffix _).length_le))
      · obtain ⟨rfl, d, inner, after, rfl, -, ⟨rfl, hblock⟩ | ⟨rfl, -⟩⟩ :=
          plain?_comment (hcomment hkind)
        · refine .block hblock ?_
          obtain ⟨body, rfl, hcuts⟩ := cuts_block hblock
          exact htail (ofText_of_cuts hcuts) hcuts.length_lt
        · exact .lineComment inner
      · obtain ⟨rfl, rfl⟩ := hhashed hkind
        exact .hashed hkind

/-- The comment between `/*` and `*/` is one piece. -/
theorem exists_ofText_block {inner after : List Char}
    (h : Literal.afterBlockComment inner = some after) :
    ∃ body, ofText ('/' :: '*' :: inner) = ⟨.comment, '/' :: '*' :: body⟩ :: ofText after := by
  obtain ⟨body, rfl, hcuts⟩ := cuts_block h
  exact ⟨body, ofText_of_cuts hcuts⟩

/-- The comment after two slashes is a piece that ends with its line. -/
theorem exists_ofText_lineComment (inner : List Char) :
    ∃ l lexemes, ofText ('/' :: '/' :: inner) = l :: lexemes ∧ isLineBound l = true := by
  obtain ⟨lexemes, hfirst⟩ := ofText_cons '/' ('/' :: inner)
  have hmeasure : measure '/' ('/' :: inner) =
      (.comment, lengthBefore ('/' :: '/' :: inner) (Literal.afterLine inner)) := by
    rw [measure, if_neg (by decide)]
    simp [plain?, Literal.afterPlain?]
  exact ⟨_, lexemes, hfirst, by rw [hmeasure]; exact isLineBound_lineComment inner⟩

/-- So is a line after a number sign. -/
theorem exists_ofText_hashed {rest : List Char} (h : isHashed (directiveKind rest) = true) :
    ∃ l lexemes, ofText ('#' :: rest) = l :: lexemes ∧ isLineBound l = true := by
  obtain ⟨lexemes, hfirst⟩ := ofText_cons '#' rest
  refine ⟨_, lexemes, hfirst, ?_⟩
  rw [measure_sharp (ne_stray_of_isHashed h)]
  simp [isLineBound, h]

/-- What begins a piece and is no white space between tokens is visible. -/
theorem Pieces.isBlank_head {text : List Char} (h : Pieces text) :
    ∀ c ∈ text.head?, isGap c = false → isBlank c = false := by
  cases h with
  | nil => simp
  | gap hc _ =>
    rintro d ⟨⟩ hd
    rw [hc] at hd
    cases hd
  | plain hcuts hkind _ =>
    have hink := hcuts.ink hkind
    obtain ⟨c, more, rfl, -⟩ := hcuts
    rintro d ⟨⟩ -
    exact hink c List.mem_cons_self
  | block _ _ | lineComment _ | hashed _ =>
    rintro d ⟨⟩ -
    decide

/-- The step over white space. -/
theorem tokens_tighten_gap {c : Char} {rest : List Char} (pending : Bool) (hc : isGap c = true)
    (h : Pieces (rest.dropWhile isGap)) :
    tokens (ofText (tighten pending (c :: rest))) =
      tokens (ofText (tighten false (rest.dropWhile isGap))) := by
  have hrest : ∀ d ∈ (rest.dropWhile isGap).head?, isBlank d = false := fun d hd =>
    h.isBlank_head d hd (eq_false_of_head_dropWhile isGap rest d hd)
  have hgap : ∀ d ∈ c :: rest.takeWhile isGap, isGap d = true :=
    List.forall_mem_cons.mpr ⟨hc, fun d hd => List.mem_takeWhile_imp hd⟩
  obtain ⟨gap', hgap', heq⟩ := exists_tighten_gap pending hgap hrest
  rw [List.cons_append, List.takeWhile_append_dropWhile] at heq
  rw [heq, tokens_ofText_append _ hgap']

/-- The step over a word or a symbol. -/
theorem tokens_tighten_plain {kind : LexemeKind} {piece after : List Char} (pending : Bool)
    (h : Cuts kind piece after) (hkind : IsPlainKind kind) :
    tokens (ofText (tighten pending (piece ++ after))) =
      ⟨kind, piece⟩ :: tokens (ofText (tighten false after)) := by
  have hink := h.ink hkind
  have hne : piece ≠ [] := by
    obtain ⟨c, more, rfl, -⟩ := h
    exact List.cons_ne_nil _ _
  rw [Text.tighten_append pending after hne hink,
    ofText_of_cuts (h.congr hkind hink (Text.inkRun_tighten after).symm), tokens,
    List.filter_cons_of_pos (by rw [separates_eq_false hkind]; rfl)]
  rfl

/-- The step over a comment between `/*` and `*/`. -/
theorem tokens_tighten_block {inner after : List Char} (pending : Bool)
    (h : Literal.afterBlockComment inner = some after) :
    tokens (ofText (tighten pending ('/' :: '*' :: inner))) =
      tokens (ofText (tighten false after)) := by
  obtain ⟨body, hbody, hcuts⟩ := cuts_block (afterBlockComment_tighten false h)
  rw [tighten_ink pending _ (by decide), tighten_ink false _ (by decide), hbody,
    ← List.cons_append, ← List.cons_append, ofText_of_cuts hcuts]
  rfl

/-- A comment after two slashes swallows the rest. -/
theorem tokens_tighten_lineComment (pending : Bool) (inner : List Char) :
    tokens (ofText (tighten pending ('/' :: '/' :: inner))) = [] := by
  rw [tighten_ink pending _ (by decide), tighten_ink false _ (by decide),
    ofText_lineComment fun c => isLineEnd_of_mem_tighten]
  rfl

/-- So does a line after a number sign. -/
theorem tokens_tighten_hashed {rest : List Char} (pending : Bool)
    (h : isHashed (directiveKind rest) = true) :
    tokens (ofText (tighten pending ('#' :: rest))) = [] := by
  have hkind := directiveKind_tighten (ne_stray_of_isHashed h)
  rw [tighten_ink pending _ (by decide),
    ofText_hashed (fun c => isLineEnd_of_mem_tighten) (hkind ▸ h), tokens,
    List.filter_cons_of_neg (by simp [separates, hkind, h])]
  rfl

/-- The tokens of a text on one line are those in front of its first piece that ends with its
line. -/
theorem Pieces.tokens_tighten {text : List Char} (h : Pieces text) (pending : Bool) :
    tokens (ofText (tighten pending text)) =
      tokens ((ofText text).takeWhile fun l => !isLineBound l) := by
  -- `pending` is as the first piece leaves it.
  induction h generalizing pending with
  | nil => rfl
  | gap hc tail ih =>
    rw [tokens_tighten_gap pending hc tail, ih, ofText_of_isGap _ hc,
      List.takeWhile_cons_of_pos rfl]
    rfl
  | plain hcuts hkind _ ih =>
    rw [tokens_tighten_plain pending hcuts hkind, ih, ofText_of_cuts hcuts,
      List.takeWhile_cons_of_pos (by rw [isLineBound_eq_false hkind]; rfl), tokens, tokens,
      List.filter_cons_of_pos (by rw [separates_eq_false hkind]; rfl)]
  | block hinner _ ih =>
    obtain ⟨body, hfirst⟩ := exists_ofText_block hinner
    rw [tokens_tighten_block pending hinner, ih, hfirst, List.takeWhile_cons_of_pos rfl]
    rfl
  | lineComment inner =>
    obtain ⟨l, lexemes, hfirst, hline⟩ := exists_ofText_lineComment inner
    rw [tokens_tighten_lineComment, hfirst, List.takeWhile_cons_of_neg (by simp [hline])]
    rfl
  | hashed hrest =>
    obtain ⟨l, lexemes, hfirst, hline⟩ := exists_ofText_hashed hrest
    rw [tokens_tighten_hashed pending hrest, hfirst,
      List.takeWhile_cons_of_neg (by simp [hline])]
    rfl

/-- All tokens are in front of the first such piece if none comes after one. -/
theorem tokens_takeWhile_eq_iff (lexemes : List Lexeme) :
    tokens (lexemes.takeWhile fun l => !isLineBound l) = tokens lexemes ↔
      lexemes.Pairwise fun a b => isLineBound a = true → separates b = true := by
  induction lexemes with
  | nil => simp
  | cons l rest ih =>
    rw [List.pairwise_cons]
    cases hline : isLineBound l with
    | true =>
      have hnone : tokens (l :: rest) = [] ↔ ∀ b ∈ rest, separates b = true := by
        rw [tokens, List.filter_cons_of_neg (by simp [separates_of_isLineBound hline]),
          List.filter_eq_nil_iff]
        simp
      rw [List.takeWhile_cons_of_neg (by simp [hline]), eq_comm]
      refine hnone.trans ⟨fun h => ⟨fun b hb _ => h b hb, ?_⟩, fun h b hb => h.1 b hb rfl⟩
      exact List.pairwise_of_forall_mem_list fun a _ b hb _ => h b hb
    | false =>
      have hcancel : tokens (l :: rest.takeWhile fun l => !isLineBound l) = tokens (l :: rest) ↔
          tokens (rest.takeWhile fun l => !isLineBound l) = tokens rest := by
        cases hseparates : separates l <;> simp [tokens, hseparates]
      rw [List.takeWhile_cons_of_pos (by simp [hline]), hcancel, ih]
      simp

/-- A text keeps its tokens on one line exactly when none of them comes after a comment or a line
that ends with its line. -/
theorem tokensIn_collapse_eq_iff {text : String} (h : ∀ l ∈ ofText text.toList, IsOrdinary l) :
    tokensIn (Text.collapse text) = tokensIn text ↔
      (ofText text.toList).Pairwise fun a b => isLineBound a = true → separates b = true := by
  rw [← tokens_takeWhile_eq_iff, tokensIn, Text.collapse_eq_tighten, String.toList_ofList,
    (pieces_of_isOrdinary h).tokens_tighten true]
  rfl

end Backfield.CSharp.Lexeme

import Backfield.Proofs.Source.UsingTokens

/-!
# Which using directives are understood

A directive is understood if it does to the scope what its tokens say: a static one does nothing,
an alias is mapped to what is written after it, and what a plain one names is added.  What it names
may be written differently, as long as its tokens are the same.

* `tokensIn_seen_iff` says when they are: when no two tokens join without the blanks between them.
* `isUnderstood_iff` is the result.
-/

namespace Backfield

open CSharp (OpensWithSign Token gapSigns)
open CSharp.Lexeme (EndsName IsClosed isNameChar tokensIn)
open CSharp.Token (IsClear Joins charsOf compact)
open Source (Scope)
open Text (BeginsBlank visible)
open UsingDirective (isAliasName ofText? targetOf)

namespace UsingTokens

variable {u : UsingTokens} {code : String}

/-! ## What a directive names -/

/-- The mark of the global namespace stands in front. -/
def beginsGlobal : List Token → Bool
  | first :: second :: _ => first.isWord "global" && second.isSymbol "::"
  | _ => false

/-- The tokens of what the directive names, without the mark of the global namespace in front. -/
def meant (u : UsingTokens) : List CSharp.Lexeme :=
  (if beginsGlobal u.target then u.target.drop 2 else u.target).map Token.lexeme

/-- No two tokens join that have only blanks between them. -/
def KeepsApart (u : UsingTokens) : Prop :=
  u.target.IsChain fun a b => visible b.gap.toList = [] → ¬Joins a b

/-- What stands between the tokens of the target besides white space are comments between `/*` and
`*/`, which are closed without their blanks as well.  None is at the mark of the global
namespace. -/
structure HasClosedComments (u : UsingTokens) : Prop where
  closed : ∀ t ∈ u.target ++ [u.semicolon], IsClosed (visible t.gap.toList)
  bare : beginsGlobal u.target = true → ∀ t ∈ u.target.take 2, visible t.gap.toList = []

theorem beginsGlobal_iff {ts : List Token} :
    beginsGlobal ts = true ↔ ∃ first second more, ts = first :: second :: more ∧
      first.isWord "global" = true ∧ second.isSymbol "::" = true := by
  constructor
  · intro h
    match ts, h with
    | first :: second :: more, h => exact ⟨first, second, more, rfl, Bool.and_eq_true_iff.mp h⟩
  · rintro ⟨first, second, more, rfl, hfirst, hsecond⟩
    rw [beginsGlobal, hfirst, hsecond]
    rfl

theorem visible_charsOf {ts : List Token} (h : ∀ t ∈ ts, t.HasInk) :
    visible (charsOf ts) = compact ts := by
  induction ts with
  | nil => rfl
  | cons t rest ih =>
    rw [charsOf_cons, CSharp.Token.compact_cons, Text.visible_append, Text.visible_append,
      Text.visible_eq_self (h t List.mem_cons_self).2,
      ih fun t ht => h t (List.mem_cons_of_mem _ ht)]

theorem StandsIn.visible_target (h : u.StandsIn code) :
    visible u.targetChars = compact u.target ++ visible u.semicolon.gap.toList := by
  have hink : ∀ t ∈ u.target, t.HasInk := fun t ht =>
    h.hasInk t (u.rest_subset t (u.target_subset t ht))
  rw [targetChars, Text.visible_append, visible_charsOf hink]

theorem seen_eq (u : UsingTokens) :
    u.seen = String.ofList (if "global::".toList.isPrefixOf (visible u.targetChars)
      then (visible u.targetChars).drop 8 else visible u.targetChars) := by
  rw [seen, targetOf, Text.filter_visible]
  rfl

theorem StandsIn.isClear (h : u.StandsIn code) (hclosed : u.HasClosedComments) :
    ∀ t ∈ u.target, IsClear code t := fun t ht => {
  mem := h.mem (u.rest_subset t (u.target_subset t ht))
  ofType := (h.target t ht).1
  closed := hclosed.closed t (List.mem_append_left _ ht) }

theorem ne_of_mem_gapSigns : ∀ c ∈ gapSigns, c ≠ 'g' ∧ c ≠ ':' :=
  List.all_iff_forall_prop.mp (by decide)

/-- A word in front of the target ends where the next token begins. -/
theorem StandsIn.endsName_compact (h : u.StandsIn code) (hclosed : u.HasClosedComments) {t : Token}
    {ts : List Token} (htarget : u.target = t :: ts) (hword : t.kind = .word) :
    EndsName (compact ts ++ visible u.semicolon.gap.toList) := by
  have hts : ∀ v ∈ ts, IsClear code v := fun v hv =>
    h.isClear hclosed v (by rw [htarget]; exact List.mem_cons_of_mem _ hv)
  rcases CSharp.Token.head_compact_cases hts (h.opensWithSign u.semicolon_mem_rest) with
    ⟨-, hsign⟩ | ⟨b, more, rfl, -, heq⟩
  · exact fun c hc => CSharp.isNameChar_sign c (hsign c hc)
  · have hb := hts b List.mem_cons_self
    have hkind := h.opening t b more htarget hword
    intro c hc
    rw [heq, List.head?_append_of_ne_nil _ hb.text_ne_nil] at hc
    exact CSharp.Lexeme.isNameChar_of_isSymbolChar
      ((Token.isSymbolChar_of_mem_ofText hb.mem hkind).2 c (List.mem_of_mem_head? hc))

/-- Two colons right after it are the next token. -/
theorem StandsIn.exists_colons (h : u.StandsIn code) (hclosed : u.HasClosedComments) {t : Token}
    {ts : List Token} (htarget : u.target = t :: ts) (hword : t.kind = .word)
    (hcolon : (compact ts ++ visible u.semicolon.gap.toList).head? = some ':') :
    ∃ second more, ts = second :: more ∧ second.isSymbol "::" = true := by
  have hts : ∀ v ∈ ts, IsClear code v := fun v hv =>
    h.isClear hclosed v (by rw [htarget]; exact List.mem_cons_of_mem _ hv)
  rcases CSharp.Token.head_compact_cases hts (h.opensWithSign u.semicolon_mem_rest) with
    ⟨-, hsign⟩ | ⟨b, more, rfl, -, heq⟩
  · exact absurd rfl (ne_of_mem_gapSigns ':' (hsign ':' hcolon)).2
  · have hb := hts b List.mem_cons_self
    have hkind := h.opening t b more htarget hword
    have hmem : b.text.toList ∈ Token.typeSymbols :=
      (hb.ofType.resolve_left (by rw [hkind]; decide)).2
    rw [heq, List.head?_append_of_ne_nil _ hb.text_ne_nil] at hcolon
    have htext := CSharp.Token.eq_colons_of_head? hmem hcolon
    exact ⟨b, more, rfl, isSymbol_iff.mpr ⟨hkind, String.toList_inj.mp htext⟩⟩

/-- What is written begins with the mark of the global namespace only if its first tokens are
that. -/
theorem StandsIn.beginsGlobal_of_isPrefixOf (h : u.StandsIn code) (hclosed : u.HasClosedComments)
    (hbegins : "global::".toList.isPrefixOf (visible u.targetChars) = true) :
    beginsGlobal u.target = true := by
  have hclear := h.isClear hclosed
  obtain ⟨after, hafter⟩ := List.isPrefixOf_iff_prefix.mp hbegins
  have hsplit : "global::".toList ++ after = "global".toList ++ (':' :: ':' :: after) := rfl
  rw [h.visible_target, hsplit] at hafter
  rcases CSharp.Token.head_compact_cases hclear (h.opensWithSign u.semicolon_mem_rest) with
    ⟨-, hsign⟩ | ⟨t, ts, htarget, -, heq⟩
  · exact absurd rfl (ne_of_mem_gapSigns 'g' (hsign 'g' (by rw [← hafter]; rfl))).1
  · have ht := hclear t (by rw [htarget]; exact List.mem_cons_self)
    rw [heq] at hafter
    rcases ht.ofType with hword | ⟨-, hsymbol⟩
    · -- The first token is the first word of what is written.
      have htext : t.text.toList = "global".toList := by
        rw [← UsingDirective.takeWhile_isNameChar
            (CSharp.Token.isWord_of_mem_ofText ht.mem hword).isNameChar
            (h.endsName_compact hclosed htarget hword), ← hafter]
        exact UsingDirective.takeWhile_isNameChar (List.all_eq_true.mp (by decide))
          (CSharp.Lexeme.endsName_cons _ (by decide))
      rw [htext] at hafter
      have hcolon : (compact ts ++ visible u.semicolon.gap.toList).head? = some ':' := by
        rw [← List.append_cancel_left hafter]
        rfl
      obtain ⟨second, more, rfl, hsecond⟩ := h.exists_colons hclosed htarget hword hcolon
      exact beginsGlobal_iff.mpr ⟨t, second, more, htarget,
        isWord_iff.mpr ⟨hword, String.toList_inj.mp htext⟩, hsecond⟩
    · have hg : t.text.toList.head? = some 'g' := by
        rw [← List.head?_append_of_ne_nil _ ht.text_ne_nil, ← hafter]
        rfl
      exact absurd rfl (Token.head_of_typeSymbols (p := fun c => c ≠ 'g') hsymbol hg (by decide))

theorem not_joins_colons {a colons : Token} (h : colons.isSymbol "::" = true)
    (ha : a.kind = .word) : ¬Joins a colons := by
  obtain ⟨hkind, -⟩ := isSymbol_iff.mp h
  rintro (⟨-, hword, -⟩ | ⟨hsymbol, -⟩)
  · rw [hkind] at hword
    cases hword
  · rw [ha] at hsymbol
    cases hsymbol

theorem not_joins_after_colons {colons : Token} (h : colons.isSymbol "::" = true) (b : Token) :
    ¬Joins colons b := by
  obtain ⟨hkind, htext⟩ := isSymbol_iff.mp h
  rintro (⟨hword, -⟩ | ⟨-, -, -, hdoubled⟩)
  · rw [hkind] at hword
    cases hword
  · rw [htext] at hdoubled
    exact absurd hdoubled (by decide)

/-- The mark of the global namespace joins nothing. -/
theorem isChain_mark_iff {first second : Token} {more : List Token} {p : Token → Prop}
    (hfirst : first.kind = .word) (hsecond : second.isSymbol "::" = true) :
    ((first :: second :: more).IsChain fun a b => p b → ¬Joins a b) ↔
      more.IsChain fun a b => p b → ¬Joins a b := by
  rw [List.isChain_cons, List.isChain_cons]
  refine ⟨fun hchain => hchain.2.2, fun hchain => ⟨fun b hb _ => ?_, fun b _ _ => ?_, hchain⟩⟩
  · obtain rfl : second = b := Option.some.inj hb
    exact not_joins_colons hsecond hfirst
  · exact not_joins_after_colons hsecond b

/-- What the reader has names the same exactly when no two tokens join without the blanks between
them. -/
theorem StandsIn.tokensIn_seen_iff (h : u.StandsIn code) (hclosed : u.HasClosedComments) :
    tokensIn u.seen = u.meant ↔ u.KeepsApart := by
  have hclear := h.isClear hclosed
  have hend : OpensWithSign u.semicolon.gap.toList := h.opensWithSign u.semicolon_mem_rest
  have hlast : IsClosed (visible u.semicolon.gap.toList) :=
    hclosed.closed u.semicolon (List.mem_append_right _ (List.mem_singleton_self _))
  rw [tokensIn, seen_eq, String.toList_ofList, meant, KeepsApart]
  cases hglobal : beginsGlobal u.target with
  | false =>
    have hbegins : ¬"global::".toList.isPrefixOf (visible u.targetChars) = true := fun hbegins => by
      rw [h.beginsGlobal_of_isPrefixOf hclosed hbegins] at hglobal
      cases hglobal
    rw [if_neg hbegins, if_neg Bool.false_ne_true, h.visible_target]
    exact Token.tokens_compact_iff hclear hend hlast
  | true =>
    obtain ⟨first, second, more, htarget, hfirst, hsecond⟩ := beginsGlobal_iff.mp hglobal
    have hbare := hclosed.bare hglobal
    rw [htarget] at hbare hclear
    have hmore : ∀ t ∈ more, IsClear code t := fun t ht =>
      hclear t (List.mem_cons_of_mem _ (List.mem_cons_of_mem _ ht))
    have hchars : visible u.targetChars =
        "global::".toList ++ (compact more ++ visible u.semicolon.gap.toList) := by
      rw [h.visible_target, htarget, CSharp.Token.compact_cons, CSharp.Token.compact_cons,
        hbare first (by simp), hbare second (by simp), (isWord_iff.mp hfirst).2,
        (isSymbol_iff.mp hsecond).2]
      rfl
    have hbegins : "global::".toList.isPrefixOf (visible u.targetChars) = true := by
      rw [hchars]
      exact List.isPrefixOf_iff_prefix.mpr (List.prefix_append _ _)
    have hdrop : (visible u.targetChars).drop 8 =
        compact more ++ visible u.semicolon.gap.toList := by rw [hchars]; rfl
    rw [if_pos hbegins, if_pos rfl, hdrop, htarget,
      isChain_mark_iff (isWord_iff.mp hfirst).1 hsecond]
    exact Token.tokens_compact_iff hmore hend hlast

/-! ## What a directive does -/

/-- The directive does to every scope what its tokens say, with a target of the tokens that are
written. -/
def IsUnderstood (u : UsingTokens) : Prop :=
  match u.role with
  | .plain => ∃ target, tokensIn target = u.meant ∧ ∀ scope : Scope, scope.addUsing u.text =
      if target ∈ scope.usings then scope else { scope with usings := scope.usings ++ [target] }
  | .statics .. => ∀ scope : Scope, scope.addUsing u.text = scope
  | .aliased _ name _ => ∃ target, tokensIn target = u.meant ∧ ∀ scope : Scope,
      scope.addUsing u.text = { scope with aliases := scope.aliases.put name.text target }

/-- The role of the directive is spelled as the reader expects it. -/
def IsLegible (u : UsingTokens) : Prop :=
  match u.role with
  | .plain => True
  | .statics word unsafes => visible word.gap.toList = [] ∧
      BeginsBlank (charsOf (unsafes.toList ++ u.target ++ [u.semicolon]))
  | .aliased unsafes name equals => unsafes = none ∧ visible name.gap.toList = [] ∧
      isAliasName name.text = true ∧ visible equals.gap.toList = []

/-- A directive that is not static does something to some scope. -/
theorem addUsing_eq_iff {text : String} {d : UsingDirective} (hd : d ≠ .statics) :
    (∀ scope : Scope, scope.addUsing text = scope.addDirective d) ↔ ofText? text = some d := by
  have htold : ∀ d' : UsingDirective, ({} : Scope).addDirective d' = ({} : Scope).addDirective d →
      d' = d := by
    intro d' heq
    cases d <;> cases d' <;> simp_all [Scope.addDirective, Aliases.put]
  constructor
  · intro h
    have hempty := h {}
    cases hread : ofText? text with
    | some d' =>
      rw [Scope.addUsing_of_ofText? hread] at hempty
      exact congrArg some (htold d' hempty)
    | none =>
      -- Nothing would be done to the empty scope, as by a static directive.
      rw [Scope.addUsing_of_none hread] at hempty
      exact absurd (htold .statics hempty).symm hd
  · exact fun h scope => Scope.addUsing_of_ofText? h scope

theorem addUsing_eq_self_iff {text : String} :
    (∀ scope : Scope, scope.addUsing text = scope) ↔
      ofText? text = none ∨ ofText? text = some .statics := by
  constructor
  · intro h
    have hempty := h {}
    cases hread : ofText? text with
    | none => exact Or.inl rfl
    | some d =>
      rw [Scope.addUsing_of_ofText? hread] at hempty
      cases d <;> simp_all [Scope.addDirective, Aliases.put]
  · rintro (h | h) scope
    · exact Scope.addUsing_of_none h scope
    · exact Scope.addUsing_of_ofText? h scope

/-- Of a plain directive only the keywords in front have to be found. -/
theorem StandsIn.isUnderstood_plain (h : u.StandsIn code) (hrole : u.role = .plain) :
    u.IsUnderstood ↔ u.IsOpen ∧ u.LacksSemicolon ∧ tokensIn u.seen = u.meant := by
  have hiff : ∀ target, ofText? u.text = some (.plain target) ↔
      (u.IsOpen ∧ ';' ∉ u.body) ∧ u.seen = target := by
    intro target
    rw [ofText?_text h, h.ofRest?_plain hrole]
    by_cases hopen : u.IsOpen
    · by_cases hsemicolon : ';' ∈ u.body
      · simp [hsemicolon]
      · simp [hopen, hsemicolon]
    · simp [hopen]
  have hunderstood : u.IsUnderstood ↔ ∃ target, tokensIn target = u.meant ∧
      ofText? u.text = some (.plain target) := by
    rw [IsUnderstood, hrole]
    exact exists_congr fun target => and_congr_right fun _ =>
      addUsing_eq_iff (d := .plain target) nofun
  rw [hunderstood, lacksSemicolon_iff h]
  simp only [hiff]
  constructor
  · rintro ⟨target, htokens, ⟨hopen, hsemicolon⟩, rfl⟩
    exact ⟨hopen, hsemicolon, htokens⟩
  · rintro ⟨hopen, hsemicolon, htokens⟩
    exact ⟨u.seen, htokens, ⟨hopen, hsemicolon⟩, rfl⟩

/-- A static directive may also be passed over as a whole. -/
theorem StandsIn.isUnderstood_statics (h : u.StandsIn code) {word : Token}
    {unsafes : Option Token} (hrole : u.role = .statics word unsafes) :
    u.IsUnderstood ↔ (u.IsOpen ∧ u.LacksSemicolon → u.IsLegible) := by
  have hunderstood : u.IsUnderstood ↔ ofText? u.text = none ∨ ofText? u.text = some .statics := by
    rw [IsUnderstood, hrole]
    exact addUsing_eq_self_iff
  rw [hunderstood, ofText?_text h, h.ofRest?_statics hrole, lacksSemicolon_iff h, IsLegible, hrole]
  by_cases hopen : u.IsOpen
  · by_cases hsemicolon : ';' ∈ u.body
    · simp [hsemicolon]
    · rw [if_pos hopen, if_neg hsemicolon]
      split
      · rename_i hlegible
        exact iff_of_true (Or.inr rfl) fun _ => hlegible
      · rename_i hlegible
        exact iff_of_false (by simp) fun himp => hlegible (himp ⟨hopen, hsemicolon⟩)
  · rw [if_neg hopen]
    exact iff_of_true (Or.inl rfl) fun hboth => absurd hboth.1 hopen

/-- Of an alias what stands around its name has to be found as well. -/
theorem StandsIn.isUnderstood_aliased (h : u.StandsIn code) {unsafes : Option Token}
    {name equals : Token} (hrole : u.role = .aliased unsafes name equals) :
    u.IsUnderstood ↔
      u.IsOpen ∧ u.LacksSemicolon ∧ u.IsLegible ∧ tokensIn u.seen = u.meant := by
  have hiff : ∀ target, ofText? u.text = some (.aliased name.text target) ↔
      (u.IsOpen ∧ ';' ∉ u.body ∧ u.IsLegible) ∧ u.seen = target := by
    intro target
    rw [ofText?_text h, IsLegible, hrole]
    dsimp only
    constructor
    · intro hsome
      split at hsome
      · rename_i hopen
        obtain ⟨rfl, hlegible⟩ := h.legible_of_ofRest? hrole hsome
        rw [h.ofRest?_aliased hrole hlegible.1 hlegible.2.1 hlegible.2.2] at hsome
        split at hsome
        · cases hsome
        · rename_i hsemicolon
          cases hsome
          exact ⟨⟨hopen, hsemicolon, rfl, hlegible⟩, rfl⟩
      · cases hsome
    · rintro ⟨⟨hopen, hsemicolon, rfl, hlegible⟩, rfl⟩
      rw [if_pos hopen, h.ofRest?_aliased hrole hlegible.1 hlegible.2.1 hlegible.2.2,
        if_neg hsemicolon]
  have hunderstood : u.IsUnderstood ↔ ∃ target, tokensIn target = u.meant ∧
      ofText? u.text = some (.aliased name.text target) := by
    rw [IsUnderstood, hrole]
    exact exists_congr fun target => and_congr_right fun _ =>
      addUsing_eq_iff (d := .aliased name.text target) nofun
  rw [hunderstood, lacksSemicolon_iff h]
  simp only [hiff]
  constructor
  · rintro ⟨target, htokens, ⟨hopen, hsemicolon, hlegible⟩, rfl⟩
    exact ⟨hopen, hsemicolon, hlegible, htokens⟩
  · rintro ⟨hopen, hsemicolon, hlegible, htokens⟩
    exact ⟨u.seen, htokens, ⟨hopen, hsemicolon, hlegible⟩, rfl⟩

/-- A directive is understood exactly if the reader finds its keywords, its role and its target,
and no token is lost with the blanks of the target.  A static directive may also be passed over as
a whole.  With closed comments the tokens of the target are kept when no two of them join. -/
theorem isUnderstood_iff (h : u.StandsIn code) :
    (u.IsUnderstood ↔
      if u.role.isStatic then u.IsOpen ∧ u.LacksSemicolon → u.IsLegible
      else u.IsOpen ∧ u.LacksSemicolon ∧ u.IsLegible ∧ tokensIn u.seen = u.meant) ∧
    (u.HasClosedComments → (tokensIn u.seen = u.meant ↔ u.KeepsApart)) := by
  refine ⟨?_, h.tokensIn_seen_iff⟩
  cases hrole : u.role with
  | plain => simpa [UsingRole.isStatic, IsLegible, hrole] using h.isUnderstood_plain hrole
  | statics word unsafes => simpa [UsingRole.isStatic] using h.isUnderstood_statics hrole
  | aliased unsafes name equals => simpa [UsingRole.isStatic] using h.isUnderstood_aliased hrole

/-- A comment within what an alias stands for does not hurt. -/
theorem isUnderstood_iff_boxAlias :
    ∃ u : UsingTokens, u.text = "using T = global::Box<int, X /* all */ .Y>;" ∧
      u.StandsIn u.text ∧ u.HasClosedComments ∧ u.IsUnderstood ∧
      (({} : Scope).addUsing u.text).aliases = [("T", "Box<int,X/*all*/.Y>")] := by
  let u : UsingTokens := {
    keyword := ⟨.word, "using", "", 1, 1⟩
    role := .aliased none ⟨.word, "T", " ", 1, 1⟩ ⟨.symbol, "=", " ", 1, 1⟩
    target := [⟨.word, "global", " ", 1, 1⟩, ⟨.symbol, "::", "", 1, 1⟩, ⟨.word, "Box", "", 1, 1⟩,
      ⟨.symbol, "<", "", 1, 1⟩, ⟨.word, "int", "", 1, 1⟩, ⟨.symbol, ",", "", 1, 1⟩,
      ⟨.word, "X", " ", 1, 1⟩, ⟨.symbol, ".", " /* all */ ", 1, 1⟩, ⟨.word, "Y", "", 1, 1⟩,
      ⟨.symbol, ">", "", 1, 1⟩]
    semicolon := ⟨.symbol, ";", "", 1, 1⟩ }
  have hstands : u.StandsIn u.text := {
    together := ⟨[], [], by decide +kernel⟩
    globals := by rintro t ⟨⟩
    keyword := by decide
    role := ⟨(by rintro t ⟨⟩), rfl, by decide, by decide⟩
    semicolon := by decide
    target_ne_nil := List.cons_ne_nil _ _
    target := List.forall_iff_forall_mem.mp (by decide)
    opening := by rintro first second more ⟨⟩ -; rfl }
  have hclosed : u.HasClosedComments :=
    ⟨List.forall_iff_forall_mem.mp (by decide +kernel), fun _ => by decide +kernel⟩
  obtain ⟨hiff, htokens⟩ := isUnderstood_iff hstands
  refine ⟨u, by decide +kernel, hstands, hclosed, hiff.mpr ?_, by decide +kernel⟩
  refine ⟨by decide +kernel, by decide +kernel, ⟨rfl, by decide, by decide, by decide⟩, ?_⟩
  exact (htokens hclosed).mpr (by unfold KeepsApart; decide +kernel)

/-- An alias that begins with an at sign is taken for a namespace. -/
theorem usings_verbatimAlias :
    ∃ u : UsingTokens, u.text = "using @T = X;" ∧ u.StandsIn u.text ∧ ¬u.IsUnderstood ∧
      ({} : Scope).addUsing u.text = { usings := ["@T=X"] } := by
  let u : UsingTokens := {
    keyword := ⟨.word, "using", "", 1, 1⟩
    role := .aliased none ⟨.word, "@T", " ", 1, 1⟩ ⟨.symbol, "=", " ", 1, 1⟩
    target := [⟨.word, "X", " ", 1, 1⟩]
    semicolon := ⟨.symbol, ";", "", 1, 1⟩ }
  have hstands : u.StandsIn u.text := {
    together := ⟨[], [], by decide +kernel⟩
    globals := by rintro t ⟨⟩
    keyword := by decide
    role := ⟨(by rintro t ⟨⟩), rfl, by decide, by decide⟩
    semicolon := by decide
    target_ne_nil := List.cons_ne_nil _ _
    target := List.forall_iff_forall_mem.mp (by decide)
    opening := by rintro first second more ⟨⟩ }
  have hadded : ({} : Scope).addUsing u.text = { usings := ["@T=X"] } := by decide +kernel
  refine ⟨u, by decide +kernel, hstands, ?_, hadded⟩
  rintro ⟨target, -, hmapped⟩
  exact List.cons_ne_nil _ _ (congrArg Scope.usings (hadded.symm.trans (hmapped {})))

end UsingTokens

end Backfield

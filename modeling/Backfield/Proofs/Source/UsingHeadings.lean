import Backfield.Proofs.Source.UsingText
import Backfield.Proofs.Text.Runs

/-!
# Targets of using directives

What a using directive brings into scope does not depend on the white space in its target, nor on
how much of it stands between the words before the target.

* `UsingHeading` is what stands before a target, and `Admits` says which targets it can have.
* `ofChars?_chars` is the step over the keywords, and `ofRest?_plain` and `ofRest?_aliased` read
  what follows them.
* `ofText?_write` is the result: the target counts by its visible characters alone.
-/

namespace Backfield

open CSharp.Lexeme (EndsName isNameChar)
open Text (BeginsBlank inkRun isBlank isWordChar runs squeezeFrom visible visible_eq_nil_iff)

/-- What stands before the target of a using directive: the keywords, and perhaps an alias. -/
structure UsingHeading where
  /-- The white space in front. -/
  before : List Char
  /-- The white space after `global`, if this word is written. -/
  global? : Option (List Char)
  /-- The white space after `using`. -/
  after : List Char
  /-- The name of an alias, and the white space before the equals sign. -/
  alias? : Option (List Char × List Char)
  before_blank : visible before = []
  global_blank : ∀ gap ∈ global?, gap ≠ [] ∧ visible gap = []
  after_blank : after ≠ [] ∧ visible after = []
  alias_named : ∀ named ∈ alias?, (named.1 ≠ [] ∧ ∀ c ∈ named.1, isWordChar c = true) ∧
    named.1 ≠ "static".toList ∧ visible named.2 = []

namespace UsingHeading

/-- An alias, with its equals sign. -/
def aliasChars : Option (List Char × List Char) → List Char
  | none => []
  | some (name, gap) => name ++ (gap ++ ['='])

/-- The keywords, and what follows them. -/
def chars (heading : UsingHeading) (more : List Char) : List Char :=
  heading.before ++
    match heading.global? with
    | none => "using".toList ++ (heading.after ++ more)
    | some gap => "global".toList ++ (gap ++ ("using".toList ++ (heading.after ++ more)))

/-- The text of a directive that begins with the heading. -/
def write (heading : UsingHeading) (target : List Char) : String :=
  String.ofList (heading.chars (aliasChars heading.alias? ++ (target ++ [';'])))

/-- What a directive with the heading brings into scope. -/
def directive (heading : UsingHeading) (target : String) : UsingDirective :=
  match heading.alias? with
  | none => .plain target
  | some (name, _) => .aliased (String.ofList name) target

/-- The heading can stand before the target.  Without an alias, the target must not begin like a
static directive or like an alias. -/
structure Admits (heading : UsingHeading) (target : List Char) : Prop where
  hasInk : visible target ≠ []
  noSemicolon : ';' ∉ target
  notStatic : heading.alias? = none → (runs target).head? ≠ some "static".toList
  notAliased : heading.alias? = none → ((visible target).dropWhile isWordChar).head? ≠ some '='

theorem chars_append (heading : UsingHeading) (more last : List Char) :
    heading.chars (more ++ last) = heading.chars more ++ last := by
  rw [chars, chars]
  cases heading.global? <;> simp

end UsingHeading

namespace UsingDirective

variable {gap rest target text : List Char}

/-! ## Keywords -/

theorem beginsBlank_of_blank (hne : gap ≠ []) (hgap : visible gap = []) (more : List Char) :
    BeginsBlank (gap ++ more) := by
  obtain ⟨c, gap, rfl⟩ := List.exists_cons_of_ne_nil hne
  exact ⟨c, rfl, visible_eq_nil_iff.mp hgap c List.mem_cons_self⟩

/-- Another word is not taken for a keyword, whatever its characters are.  White space follows it,
or a sign that no keyword has. -/
theorem afterWord?_eq_none_of_ne {word : String} {first more : List Char}
    (hword : ∀ c ∈ word.toList, isBlank c = false) (hfirst : ∀ c ∈ first, isBlank c = false)
    (hmore : BeginsBlank more ∨ ∃ c ∈ more.head?, isBlank c = false ∧ c ∉ word.toList)
    (hne : first ≠ word.toList) : afterWord? word (first ++ squeezeFrom false more) = none := by
  rw [afterWord?, if_neg]
  intro hprefix
  obtain ⟨rest, hrest⟩ := List.isPrefixOf_iff_prefix.mp hprefix
  -- Both words are what stands before the first blank.
  have hrun : first ++ inkRun (squeezeFrom false more) = word.toList := by
    rw [← Text.inkRun_append _ hfirst, ← hrest, List.append_assoc, Text.inkRun_append _ hword,
      List.singleton_append, Text.inkRun_cons_blank rest (by decide), List.append_nil]
  rcases hmore with hblank | ⟨c, hhead, hink, hsign⟩
  · rw [Text.squeezeFrom_of_beginsBlank hblank, Text.inkRun_cons_blank _ (by decide),
      List.append_nil] at hrun
    exact hne hrun
  · obtain ⟨others, rfl⟩ := List.head?_eq_some_iff.mp hhead
    refine hsign ?_
    rw [← hrun, squeezeFrom, if_neg (by simp [hink]), Text.inkRun_cons_ink _ hink]
    exact List.mem_append_right _ List.mem_cons_self

/-- A keyword between white space is taken off. -/
theorem afterWord?_between {word : String} (hne : word ≠ "")
    (hword : ∀ c ∈ word.toList, isNameChar c = true) (hgap : visible gap = [])
    (hrest : BeginsBlank rest) :
    afterWord? word (squeezeFrom true (gap ++ (word.toList ++ rest))) =
      some (squeezeFrom true rest) := by
  have hopens : CSharp.OpensWithSign gap := by simp [CSharp.OpensWithSign, hgap]
  rw [afterWord?_squeezeFrom hne hword hopens, if_pos ⟨hgap, hrest⟩]

/-- The keywords in front are taken off, with the white space after each. -/
theorem ofChars?_chars (heading : UsingHeading) (more : List Char) :
    ofChars? (squeezeFrom true (heading.chars more)) = ofRest? (squeezeFrom true more) := by
  have husing : ∀ c ∈ "using".toList, isNameChar c = true := List.all_eq_true.mp (by decide)
  have hglobal : ∀ c ∈ "global".toList, isNameChar c = true := List.all_eq_true.mp (by decide)
  obtain ⟨hne, hafter⟩ := heading.after_blank
  have hblank := beginsBlank_of_blank hne hafter more
  have hskip : squeezeFrom true (heading.after ++ more) = squeezeFrom true more :=
    Text.squeezeFrom_pending more (visible_eq_nil_iff.mp hafter)
  rw [ofChars?_eq, UsingHeading.chars]
  cases hcase : heading.global? with
  | none =>
    have hends : EndsName (heading.after ++ more) := by
      obtain ⟨c, hc, hwhite⟩ := hblank
      intro d hd
      obtain rfl := Option.some.inj (hd.symm.trans hc)
      exact CSharp.Lexeme.isNameChar_eq_false hwhite
    have hopens : CSharp.OpensWithSign heading.before := by
      simp [CSharp.OpensWithSign, heading.before_blank]
    have hother : afterWord? "global"
        (squeezeFrom true (heading.before ++ ("using".toList ++ (heading.after ++ more)))) = none :=
      afterWord?_other (by decide) hglobal hopens (by decide) husing hends (by decide)
    dsimp only
    rw [hother, Option.getD_none, afterWord?_between (by decide) husing heading.before_blank hblank,
      Option.bind_some, hskip]
  | some gap =>
    obtain ⟨hgapne, hgap⟩ := heading.global_blank gap hcase
    have hbetween := beginsBlank_of_blank hgapne hgap
    dsimp only
    rw [afterWord?_between (by decide) hglobal heading.before_blank (hbetween _), Option.getD_some,
      afterWord?_between (by decide) husing hgap hblank, Option.bind_some, hskip]

/-! ## Targets -/

theorem isBlank_static : ∀ c ∈ "static".toList, isBlank c = false :=
  ink_of_isNameChar (List.all_eq_true.mp (by decide))

/-- Without an alias the whole rest is the target. -/
theorem ofRest?_plain (hink : visible target ≠ []) (hsemicolon : ';' ∉ target)
    (hstatic : (runs target).head? ≠ some "static".toList)
    (halias : ((visible target).dropWhile isWordChar).head? ≠ some '=') :
    ofRest? (squeezeFrom true (target ++ [';'])) = some (.plain (targetOf (visible target))) := by
  have hnone : afterWord? "static" (squeezeFrom true (target ++ [';'])) = none := by
    have hruns := Text.hasRuns_runs target
    generalize runs target = words at hruns hstatic
    cases hruns with
    | blank hgap => exact absurd hgap hink
    | @run gap word rest words hgap hne hchars hend _ =>
      rw [List.append_assoc, List.append_assoc,
        Text.squeezeFrom_pending _ (visible_eq_nil_iff.mp hgap),
        Text.squeezeFrom_ink true _ hne hchars]
      refine afterWord?_eq_none_of_ne isBlank_static hchars ?_ fun heq =>
        hstatic (congrArg some heq)
      rcases hend with rfl | ⟨c, hc, hwhite⟩
      · exact Or.inr ⟨';', rfl, by decide, by decide⟩
      · exact Or.inl ⟨c, List.mem_head?_append_of_mem_head? hc, hwhite⟩
  have hnoalias : aliasName? (squeezeFrom true (target ++ [';'])) = none := by
    refine aliasName?_eq_none_of_visible ?_
    rw [Text.visible_squeezeFrom, Text.visible_append, List.dropWhile_append]
    split
    · decide
    · rename_i hrest
      rwa [List.head?_append_of_ne_nil _ (by simpa using hrest)]
  rw [ofRest?, hnone]
  dsimp only
  rw [ofTarget?_of_none hnoalias, beforeEnd?_squeezeFrom true hink, if_neg hsemicolon]
  rfl

/-- After an alias the rest is the target. -/
theorem ofRest?_aliased {name : List Char} (hname : name ≠ [] ∧ ∀ c ∈ name, isWordChar c = true)
    (hstatic : name ≠ "static".toList) (hgap : visible gap = []) (hink : visible target ≠ [])
    (hsemicolon : ';' ∉ target) :
    ofRest? (squeezeFrom true (name ++ (gap ++ ['=']) ++ (target ++ [';']))) =
      some (.aliased (String.ofList name) (targetOf (visible target))) := by
  have hchars := ink_of_isWordChar hname.2
  have hsplit : squeezeFrom true (name ++ (gap ++ ['=']) ++ (target ++ [';'])) =
      name ++ squeezeFrom false (gap ++ '=' :: (target ++ [';'])) := by
    rw [List.append_assoc, Text.squeezeFrom_ink true _ hname.1 hchars, List.append_assoc]
    rfl
  have hnone : afterWord? "static" (name ++ squeezeFrom false (gap ++ '=' :: (target ++ [';']))) =
      none := by
    refine afterWord?_eq_none_of_ne isBlank_static hchars ?_ hstatic
    cases gap with
    | nil => exact Or.inr ⟨'=', rfl, by decide, by decide⟩
    | cons c gap => exact Or.inl (beginsBlank_of_blank (List.cons_ne_nil c gap) hgap _)
  have hfound := aliasName?_squeezeFrom hname.1 hname.2 hgap (target ++ [';'])
  rw [hsplit, ofRest?, hnone]
  dsimp only
  rw [ofTarget?_of_some hfound, beforeEnd?_squeezeFrom false hink, if_neg hsemicolon]
  rfl

/-- A directive is read with the visible characters of its target. -/
theorem ofText?_write {heading : UsingHeading} (h : heading.Admits target) :
    ofText? (heading.write target) = some (heading.directive (targetOf (visible target))) := by
  have hread : ofText? (heading.write target) = ofRest? (squeezeFrom true
      (UsingHeading.aliasChars heading.alias? ++ (target ++ [';']))) := by
    have hchars : (heading.write target).toList = heading.chars
        (UsingHeading.aliasChars heading.alias? ++ target) ++ [';'] := by
      rw [UsingHeading.write, String.toList_ofList, ← List.append_assoc,
        UsingHeading.chars_append]
    rw [ofText?, toList_collapse_of_concat hchars (by decide), UsingHeading.write,
      String.toList_ofList, ofChars?_chars]
  rw [hread, UsingHeading.directive]
  cases hcase : heading.alias? with
  | none => exact ofRest?_plain h.hasInk h.noSemicolon (h.notStatic hcase) (h.notAliased hcase)
  | some named =>
    obtain ⟨name, gap⟩ := named
    obtain ⟨hname, hstatic, hgap⟩ := heading.alias_named _ hcase
    exact ofRest?_aliased hname hstatic hgap h.hasInk h.noSemicolon

end UsingDirective

end Backfield

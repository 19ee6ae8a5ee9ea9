import Mathlib.Data.List.Nodup
import Backfield.Proofs.CSharp.Members
import Backfield.Source.Reader

/-!
# Using directives, read

What a using directive that is written without anything superfluous brings into scope, and what
several of them bring into scope one after the other.

* `ofText?_named` reads a dotted name.  `ofText?_aliased` reads an alias, and shows a gap: an alias
  is read as one only if all its characters are word characters, and identifiers may have others.
  Otherwise the whole directive is taken for a name, with the equals sign in it.
* `Source.Scope.foldl_addDirective` is the result for several directives.
-/

namespace Backfield

open CSharp (Ink IsIdentifier IsDottedName dotted)
open CSharp.Declaration (IsTarget usingInks namedInks aliasedInks isTarget_named isTarget_aliased)
open CSharp.Lexeme (EndsName endsName_cons isNameChar)
open Text (isBlank isWordChar)

/-! ## Characters of dotted names -/

theorem mem_dotted {name : String} (hname : IsDottedName name) :
    ∀ c ∈ name.toList, isNameChar c = true ∨ c = '.' := by
  obtain ⟨first, rest, heq, hchars, -⟩ := CSharp.exists_dotted name
  rw [IsDottedName, heq] at hname
  intro c hc
  rw [hchars] at hc
  rcases List.mem_append.mp hc with hc | hc
  · exact Or.inl ((hname first List.mem_cons_self).isWord.isNameChar c hc)
  · obtain ⟨part, hpart, hc⟩ := List.mem_flatMap.mp hc
    rcases List.mem_cons.mp hc with rfl | hc
    · exact Or.inr rfl
    · exact Or.inl ((hname part (List.mem_cons_of_mem _ hpart)).isWord.isNameChar c hc)

theorem not_mem_dotted {name : String} (hname : IsDottedName name) {c : Char}
    (hc : isNameChar c = false) (hdot : c ≠ '.') : c ∉ name.toList := by
  intro hmem
  rcases mem_dotted hname c hmem with hchar | hchar
  · rw [hc] at hchar
    cases hchar
  · exact hdot hchar

theorem isBlank_dotted {name : String} (hname : IsDottedName name) :
    ∀ c ∈ name.toList, isBlank c = false := by
  intro c hc
  rcases mem_dotted hname c hc with hchar | rfl
  · exact Text.isBlank_of_isNameChar hchar
  · decide

theorem dotted_ne_nil {name : String} (hname : IsDottedName name) : name.toList ≠ [] := by
  obtain ⟨first, rest, heq, hchars, -⟩ := CSharp.exists_dotted name
  rw [IsDottedName, heq] at hname
  have hfirst := (hname first List.mem_cons_self).isWord.ne_nil
  simp [hchars, hfirst]

/-- A dotted name has no white space to collapse. -/
theorem collapse_dotted {name : String} (hname : IsDottedName name) : Text.collapse name = name := by
  have hwritten := CSharp.written_dotted "" name
  have hneat := CSharp.isNeat_dotted hname (Or.inl rfl)
  obtain ⟨first, rest, -, -, hinks⟩ := CSharp.exists_dotted name
  rw [hinks] at hwritten hneat
  have hfirst := hneat _ List.mem_cons_self
  have htoken : ((Ink.word first).after "").token.HasInk := ⟨hfirst.ne_empty, hfirst.visible⟩
  have hcollapse := CSharp.collapse_written htoken fun ink hink =>
    hneat ink (List.mem_cons_of_mem _ hink)
  rwa [hwritten] at hcollapse

namespace UsingDirective

/-! ## Pieces of a directive -/

theorem takeWhile_isNameChar {word more : List Char} (hword : ∀ c ∈ word, isNameChar c = true)
    (hmore : EndsName more) : (word ++ more).takeWhile isNameChar = word := by
  rw [List.takeWhile_append_of_pos hword]
  cases more with
  | nil => simp
  | cons c more => rw [List.takeWhile_cons_of_neg (by simp [hmore c rfl]), List.append_nil]

theorem afterWord?_self (word : String) (rest : List Char) :
    afterWord? word (word.toList ++ ' ' :: rest) = some rest := by
  have happend : word.toList ++ ' ' :: rest = word.toList ++ [' '] ++ rest := by simp
  rw [afterWord?, happend]
  simp

/-- A text that begins with another word. -/
theorem afterWord?_eq_none {word : String} {first more : List Char}
    (hword : ∀ c ∈ word.toList, isNameChar c = true) (hfirst : ∀ c ∈ first, isNameChar c = true)
    (hmore : EndsName more) (hne : first ≠ word.toList) : afterWord? word (first ++ more) = none := by
  rw [afterWord?, if_neg]
  intro hprefix
  obtain ⟨rest, hrest⟩ := List.isPrefixOf_iff_prefix.mp hprefix
  have hspace : isNameChar ' ' = false := by decide
  have hself := takeWhile_isNameChar hword (endsName_cons rest hspace)
  rw [← List.singleton_append, ← List.append_assoc, hrest, takeWhile_isNameChar hfirst hmore] at hself
  exact hne hself

theorem targetOf_eq {text : List Char} (h : ':' ∉ text) :
    targetOf text = String.ofList (text.filter (· != ' ')) := by
  have hmark : ¬("global::".toList.isPrefixOf (text.filter (· != ' '))) = true := by
    intro hprefix
    have hsub := (List.isPrefixOf_iff_prefix.mp hprefix).subset
    have hcolon : ':' ∈ "global::".toList := by decide
    exact h (List.mem_of_mem_filter (hsub hcolon))
  rw [targetOf, if_neg hmark]

theorem beforeEnd?_eq (front : List Char) {body : List Char} (hne : body ≠ [])
    (hvisible : ∀ c ∈ body, isBlank c = false) (hsemicolon : ';' ∉ front ++ body) :
    beforeEnd? (front ++ body ++ [';']) = some (front ++ body) := by
  obtain ⟨last, start, hbody⟩ := List.exists_cons_of_ne_nil (List.reverse_ne_nil_iff.mpr hne)
  have hlast : isBlank last = false :=
    hvisible last (List.mem_reverse.mp (hbody ▸ List.mem_cons_self))
  have hreverse : (front ++ body ++ [';']).reverse = ';' :: (last :: (start ++ front.reverse)) := by
    simp [hbody]
  have hback : (last :: (start ++ front.reverse)).reverse = front ++ body := by
    rw [← List.cons_append, ← hbody]
    simp
  have hno : (last :: (start ++ front.reverse)).contains ';' = false := by
    rw [← hback, List.mem_reverse, ← List.contains_iff_mem, Bool.not_eq_true] at hsemicolon
    exact hsemicolon
  rw [beforeEnd?, hreverse]
  split
  · rename_i before heq
    obtain ⟨-, rfl⟩ := List.cons.inj heq
    rw [hno, List.dropWhile_cons_of_neg (by simp [hlast]), hback, List.isEmpty_cons]
    exact congrArg some hback
  · rename_i hother
    exact absurd rfl (hother _)

/-- Without an equals sign there is no alias. -/
theorem aliasName?_eq_none {text : List Char} (h : '=' ∉ text) : aliasName? text = none := by
  rw [aliasName?]
  split
  · rename_i rest heq
    have hsub := (List.dropWhile_sublist (p := isBlank) (l := text.dropWhile isWordChar)).trans
      (List.dropWhile_sublist isWordChar)
    rw [heq] at hsub
    exact absurd (hsub.subset List.mem_cons_self) h
  · rfl

theorem aliasName?_eq_some {name rest : List Char} (hne : name ≠ [])
    (hname : name.all isWordChar = true) :
    aliasName? (name ++ ' ' :: '=' :: rest) = some (String.ofList name, rest) := by
  have hall : ∀ c ∈ name, isWordChar c = true := List.all_eq_true.mp hname
  have hspace : ¬isWordChar ' ' = true := by decide
  have htake : (name ++ ' ' :: '=' :: rest).takeWhile isWordChar = name := by
    rw [List.takeWhile_append_of_pos hall, List.takeWhile_cons_of_neg hspace, List.append_nil]
  have hdrop : ((name ++ ' ' :: '=' :: rest).dropWhile isWordChar).dropWhile isBlank =
      '=' :: rest := by
    rw [List.dropWhile_append_of_pos hall, List.dropWhile_cons_of_neg hspace,
      List.dropWhile_cons_of_pos (by decide), List.dropWhile_cons_of_neg (by decide)]
  have hempty : name.isEmpty = false := by simpa using hne
  rw [aliasName?, htake, hdrop]
  simp [hempty]

/-- A character that is no word character hides the equals sign. -/
theorem aliasName?_eq_none_of_isNameChar {name rest : List Char}
    (hname : ∀ c ∈ name, isNameChar c = true) (h : name.all isWordChar = false) :
    aliasName? (name ++ ' ' :: '=' :: rest) = none := by
  have hdrop : ∃ c more, (name ++ ' ' :: '=' :: rest).dropWhile isWordChar = c :: more ∧
      c ∈ name := by
    have hne : name.dropWhile isWordChar ≠ [] := by
      rw [Ne, List.dropWhile_eq_nil_iff]
      intro hall
      rw [List.all_eq_true.mpr hall] at h
      cases h
    obtain ⟨c, more, hcons⟩ := List.exists_cons_of_ne_nil hne
    refine ⟨c, more ++ ' ' :: '=' :: rest, ?_, ?_⟩
    · rw [List.dropWhile_append, hcons]
      rfl
    · exact (List.dropWhile_sublist isWordChar).subset (hcons ▸ List.mem_cons_self)
  obtain ⟨c, more, hdrop, hc⟩ := hdrop
  have hchar := hname c hc
  have hequals : c ≠ '=' := by
    rintro rfl
    exact absurd hchar (by decide)
  rw [aliasName?, hdrop, List.dropWhile_cons_of_neg (by simp [Text.isBlank_of_isNameChar hchar])]
  split
  · rename_i heq
    exact absurd (List.cons.inj heq).1 hequals
  · rfl

/-! ## Directives -/

theorem ofChars?_using {rest : List Char} (hstatic : afterWord? "static" rest = none) :
    ofChars? ("using".toList ++ ' ' :: rest) = ofTarget? rest := by
  have hspace : EndsName (' ' :: rest) := endsName_cons rest (by decide)
  have hword : ∀ word : String, word.toList.all isNameChar = true →
      ∀ c ∈ word.toList, isNameChar c = true := fun word hall => List.all_eq_true.mp hall
  have hglobal : afterWord? "global" ("using".toList ++ ' ' :: rest) = none :=
    afterWord?_eq_none (hword "global" (by decide)) (hword "using" (by decide)) hspace (by decide)
  rw [ofChars?, hglobal, Option.getD_none, afterWord?_self]
  simp only [Option.bind_eq_bind, Option.bind_some, hstatic]

/-- A name is not the word `static`. -/
theorem afterWord?_static {name : String} {more : List Char} (hname : IsIdentifier name)
    (hmore : EndsName more) : afterWord? "static" (name.toList ++ more) = none := by
  have hall : "static".toList.all isNameChar = true := by decide
  have hne : name ≠ "static" := hname.ne_of_isReserved (by decide)
  exact afterWord?_eq_none (List.all_eq_true.mp hall) hname.isWord.isNameChar hmore
    fun heq => hne (String.toList_inj.mp heq)

/-- What a using directive names, as it is written. -/
def targetText (target : List Ink) : List Char :=
  (String.join (target.map fun ink => ink.gap.getD "" ++ ink.text)).toList

theorem targetText_cons (ink : Ink) (rest : List Ink) :
    targetText (ink :: rest) = (ink.gap.getD "").toList ++ (ink.text.toList ++ targetText rest) := by
  simp [targetText]

theorem toList_written_usingInks (target : List Ink) :
    (Ink.written (usingInks target)).toList = "using".toList ++ (targetText target ++ [';']) := by
  simp [usingInks, Ink.written, targetText, Ink.word, Ink.symbol, Ink.after]

theorem targetText_dotted (name : String) : targetText (dotted " " name) = ' ' :: name.toList := by
  obtain ⟨first, rest, -, hchars, hinks⟩ := CSharp.exists_dotted name
  have hrest := CSharp.join_dotParts rest
  rw [hinks, hchars, ← hrest, targetText]
  simp [Ink.word, Ink.after]

theorem collapse_using {target : List Ink} (htarget : IsTarget target) :
    Text.collapse (Ink.written (usingInks target)) = Ink.written (usingInks target) := by
  have hfirst : (Ink.word "using").token.HasInk := ⟨by decide, CSharp.visible_of_all (by decide)⟩
  refine CSharp.collapse_written hfirst fun ink hink => ?_
  rcases List.mem_append.mp hink with hink | hink
  · exact htarget.isNeat ink hink
  · rw [List.mem_singleton.mp hink]
    exact ⟨Or.inl rfl, by decide, CSharp.visible_of_all (by decide)⟩

theorem ofList_filter_dotted {name : String} (hname : IsDottedName name) :
    String.ofList (name.toList.filter (· != ' ')) = name := by
  have hspace := not_mem_dotted hname (c := ' ') (by decide) (by decide)
  have hall : ∀ c ∈ name.toList, (c != ' ') = true := by
    intro c hc
    simp only [bne_iff_ne, ne_eq]
    rintro rfl
    exact hspace hc
  rw [List.filter_eq_self.mpr hall, String.ofList_toList]

/-- A dotted name is brought into scope as it is. -/
theorem ofText?_named {name : String} (hname : IsDottedName name) :
    ofText? (Ink.written (usingInks (namedInks name))) = some (.plain name) := by
  have hend : beforeEnd? (name.toList ++ [';']) = some name.toList :=
    beforeEnd?_eq [] (dotted_ne_nil hname) (isBlank_dotted hname)
      (not_mem_dotted hname (by decide) (by decide))
  have halias : aliasName? (name.toList ++ [';']) = none := by
    refine aliasName?_eq_none fun hmem => ?_
    rcases List.mem_append.mp hmem with hmem | hmem
    · exact not_mem_dotted hname (by decide) (by decide) hmem
    · exact absurd hmem (by decide)
  have hstatic : afterWord? "static" (name.toList ++ [';']) = none := by
    obtain ⟨first, rest, heq, hchars, -⟩ := CSharp.exists_dotted name
    have hfirst : IsIdentifier first := hname first (heq ▸ List.mem_cons_self)
    rw [hchars, List.append_assoc]
    refine afterWord?_static hfirst ?_
    cases rest with
    | nil => exact endsName_cons [] (by decide)
    | cons part rest => exact endsName_cons _ (by decide)
  have htarget : targetOf name.toList = name := by
    rw [targetOf_eq (not_mem_dotted hname (by decide) (by decide)), ofList_filter_dotted hname]
  rw [ofText?, collapse_using (isTarget_named hname), toList_written_usingInks, namedInks,
    targetText_dotted, List.cons_append, ofChars?_using hstatic, ofTarget?, halias, hend]
  simp [htarget]

/-- The reader takes a name of word characters for an alias. -/
def isAliasName (name : String) : Bool := name.toList.all isWordChar

/-- What the reader makes of an alias. -/
def ofAlias (name target : String) : UsingDirective :=
  if isAliasName name then .aliased name target else .plain (name ++ "=" ++ target)

theorem targetText_aliasedInks (name target : String) :
    targetText (aliasedInks name target) =
      ' ' :: (name.toList ++ ' ' :: '=' :: ' ' :: target.toList) := by
  rw [aliasedInks, targetText_cons, targetText_cons, targetText_dotted]
  simp [Ink.word, Ink.symbol, Ink.after]

/-- The directive as a whole, with the alias in it. -/
theorem beforeEnd?_aliased {name target : String} (hname : IsIdentifier name)
    (htarget : IsDottedName target) :
    (beforeEnd? (name.toList ++ ' ' :: '=' :: (' ' :: target.toList ++ [';']))).map targetOf =
      some (name ++ "=" ++ target) := by
  have hno : ∀ c, isNameChar c = false → c ∉ ['.', ' ', '='] →
      c ∉ name.toList ++ [' ', '=', ' '] ++ target.toList := by
    intro c hc hother hmem
    simp only [List.mem_cons, List.not_mem_nil, or_false, not_or] at hother
    have hfront : c ∉ name.toList := fun hmem => by
      rw [hname.isWord.isNameChar c hmem] at hc
      cases hc
    simp [hfront, hother, not_mem_dotted htarget hc hother.1] at hmem
  have happend : name.toList ++ ' ' :: '=' :: (' ' :: target.toList ++ [';']) =
      name.toList ++ [' ', '=', ' '] ++ target.toList ++ [';'] := by simp
  have hfilter : ∀ c ∈ name.toList, (c != ' ') = true := by
    intro c hc
    have hchar := hname.isWord.isNameChar c hc
    rw [bne_iff_ne]
    rintro rfl
    exact absurd hchar (by decide)
  rw [happend, beforeEnd?_eq _ (dotted_ne_nil htarget) (isBlank_dotted htarget)
    (hno ';' (by decide) (by decide)), Option.map_some,
    targetOf_eq (hno ':' (by decide) (by decide)), List.filter_append, List.filter_append,
    List.filter_eq_self.mpr hfilter, String.ofList_append, ofList_filter_dotted htarget]
  simp

/-- An alias of word characters is brought into scope as it is; any other is taken for a part of
the name. -/
theorem ofText?_aliased {name target : String} (hname : IsIdentifier name)
    (htarget : IsDottedName target) :
    ofText? (Ink.written (usingInks (aliasedInks name target))) = some (ofAlias name target) := by
  have happend : name.toList ++ ' ' :: '=' :: ' ' :: target.toList ++ [';'] =
      name.toList ++ ' ' :: '=' :: (' ' :: target.toList ++ [';']) := by simp
  have hstatic : afterWord? "static"
      (name.toList ++ ' ' :: '=' :: (' ' :: target.toList ++ [';'])) = none :=
    afterWord?_static hname (endsName_cons _ (by decide))
  rw [ofText?, collapse_using (isTarget_aliased hname htarget), toList_written_usingInks,
    targetText_aliasedInks, List.cons_append, happend, ofChars?_using hstatic, ofTarget?, ofAlias]
  cases hall : isAliasName name with
  | true =>
    have hno : ∀ c ∈ [';', ':'], c ∉ ' ' :: target.toList := by
      have hsemicolon := not_mem_dotted htarget (c := ';') (by decide) (by decide)
      have hcolon := not_mem_dotted htarget (c := ':') (by decide) (by decide)
      simp [hsemicolon, hcolon]
    have hend : beforeEnd? (' ' :: target.toList ++ [';']) = some (' ' :: target.toList) :=
      beforeEnd?_eq [' '] (dotted_ne_nil htarget) (isBlank_dotted htarget) (hno ';' (by decide))
    have htext : targetOf (' ' :: target.toList) = target := by
      rw [targetOf_eq (hno ':' (by decide)), List.filter_cons_of_neg (by decide),
        ofList_filter_dotted htarget]
    rw [aliasName?_eq_some hname.isWord.ne_nil hall]
    dsimp only
    rw [hend]
    simp [htext]
  | false =>
    have hwhole := beforeEnd?_aliased hname htarget
    rw [Option.map_eq_some_iff] at hwhole
    obtain ⟨text, hend, htext⟩ := hwhole
    rw [aliasName?_eq_none_of_isNameChar hname.isWord.isNameChar hall, hend]
    simp [htext]

/-- An alias is a name of word characters. -/
theorem isWordChar_of_aliasName? {text rest : List Char} {name : String}
    (h : aliasName? text = some (name, rest)) :
    name ≠ "" ∧ ∀ c ∈ name.toList, isWordChar c = true := by
  unfold aliasName? at h
  split at h
  · dsimp only at h
    split at h
    · cases h
    · rename_i hne
      cases h
      refine ⟨fun hempty => hne ?_, fun c hc => ?_⟩
      · rw [List.isEmpty_iff, ← String.toList_ofList (l := text.takeWhile isWordChar), hempty]
        rfl
      · rw [String.toList_ofList] at hc
        exact List.mem_takeWhile_imp hc
  · cases h

theorem isWordChar_of_ofTarget? {text : List Char} {name target : String}
    (h : ofTarget? text = some (.aliased name target)) :
    name ≠ "" ∧ ∀ c ∈ name.toList, isWordChar c = true := by
  have hwhole : ∀ before : Option (List Char),
      before.map (fun target => plain (targetOf target)) ≠ some (.aliased name target) := by
    intro before
    cases before <;> simp
  unfold ofTarget? at h
  dsimp only at h
  split at h
  · exact absurd h (hwhole _)
  · rename_i name' rest halias
    split at h
    · cases h
      exact isWordChar_of_aliasName? halias
    · exact absurd h (hwhole _)

theorem isWordChar_of_ofText? {text name target : String}
    (h : ofText? text = some (.aliased name target)) :
    name ≠ "" ∧ ∀ c ∈ name.toList, isWordChar c = true := by
  rw [ofText?, ofChars?] at h
  obtain ⟨rest, -, hrest⟩ := Option.bind_eq_some_iff.mp h
  split at hrest
  · split at hrest
    · cases hrest
    · exact isWordChar_of_ofTarget? hrest
  · exact isWordChar_of_ofTarget? hrest

/-! ## Several directives -/

/-- The namespace that a directive brings into scope. -/
def plain? : UsingDirective → Option String
  | plain target => some target
  | _ => none

/-- The alias that a directive brings into scope. -/
def alias? : UsingDirective → Option (String × String)
  | aliased name target => some (name, target)
  | _ => none

theorem plain?_ofAlias (name target : String) :
    (ofAlias name target).plain? =
      if isAliasName name then none else some (name ++ "=" ++ target) := by
  unfold ofAlias
  split <;> rfl

theorem alias?_ofAlias (name target : String) :
    (ofAlias name target).alias? =
      if isAliasName name then some (name, target) else none := by
  unfold ofAlias
  split <;> rfl

end UsingDirective

theorem Aliases.put_eq_append {aliases : Aliases} {name : String} (target : String)
    (h : name ∉ aliases.map Prod.fst) : aliases.put name target = aliases ++ [(name, target)] := by
  induction aliases with
  | nil => rfl
  | cons entry rest ih =>
    simp only [List.map_cons, List.mem_cons, not_or] at h
    have hne : ¬(entry.1 == name) = true := by simpa using Ne.symm h.1
    rw [Aliases.put, if_neg hne, ih h.2, List.cons_append]

namespace Source.Scope

/-- Directives that bring nothing into scope twice are all in scope, in order. -/
theorem foldl_addDirective {directives : List UsingDirective} {scope : Scope}
    (husings : (scope.usings ++ directives.filterMap UsingDirective.plain?).Nodup)
    (haliases : ((scope.aliases ++ directives.filterMap UsingDirective.alias?).map Prod.fst).Nodup) :
    directives.foldl addDirective scope =
      { scope with
        usings := scope.usings ++ directives.filterMap UsingDirective.plain?
        aliases := scope.aliases ++ directives.filterMap UsingDirective.alias? } := by
  induction directives generalizing scope with
  | nil => simp
  | cons directive rest ih =>
    cases directive with
    | statics => exact ih husings haliases
    | plain target =>
      have hplain : (UsingDirective.plain target :: rest).filterMap UsingDirective.plain? =
          target :: rest.filterMap UsingDirective.plain? := rfl
      rw [hplain, List.append_cons] at husings ⊢
      have hnew : target ∉ scope.usings := by
        have hfront := List.Nodup.of_append_left husings
        rw [List.nodup_append] at hfront
        exact fun hmem => hfront.2.2 target hmem target List.mem_cons_self rfl
      rw [List.foldl_cons, addDirective, if_neg hnew]
      exact ih husings haliases
    | aliased name target =>
      have halias : (UsingDirective.aliased name target :: rest).filterMap UsingDirective.alias? =
          (name, target) :: rest.filterMap UsingDirective.alias? := rfl
      rw [halias, List.append_cons] at haliases ⊢
      have hnew : name ∉ scope.aliases.map Prod.fst := by
        rw [List.map_append, List.map_append] at haliases
        have hfront := List.Nodup.of_append_left haliases
        rw [List.nodup_append] at hfront
        exact fun hmem => hfront.2.2 name hmem name List.mem_cons_self rfl
      rw [List.foldl_cons, addDirective, Aliases.put_eq_append target hnew]
      exact ih husings haliases

theorem addUsing_of_ofText? {text : String} {directive : UsingDirective}
    (h : UsingDirective.ofText? text = some directive) (scope : Scope) :
    scope.addUsing text = scope.addDirective directive := by
  unfold addUsing
  rw [h]

theorem addUsing_of_none {text : String} (h : UsingDirective.ofText? text = none)
    (scope : Scope) : scope.addUsing text = scope := by
  unfold addUsing
  rw [h]

/-- Directives are taken into scope as they are read. -/
theorem foldl_addUsing {texts : List String} {directives : List UsingDirective}
    (h : List.Forall₂ (fun text directive => UsingDirective.ofText? text = some directive) texts
      directives) (scope : Scope) :
    texts.foldl addUsing scope = directives.foldl addDirective scope := by
  induction h generalizing scope with
  | nil => rfl
  | @cons text directive _ _ htext _ ih =>
    rw [List.foldl_cons, List.foldl_cons, addUsing_of_ofText? htext, ih]

end Source.Scope

end Backfield

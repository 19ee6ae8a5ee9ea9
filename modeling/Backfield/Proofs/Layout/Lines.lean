import Backfield.Layout
import Backfield.Proofs.CSharp.Properties

/-!
# Rendered lines

The text of a class's artifact line by line, and what each line and each block shows.

* `block_lines` takes a block apart into lines: its body is indented line by line.
* `Renders` says which sketches a text shows; `Renders.block`, `Renders.blocks` and
  `Renders.sections` put texts together, and `Renders.reads` hands the whole to the reader.
* `isLine_using`, `isLine_aliased`, `isLine_class` and `isLine_space` say what the lines of
  declarations show, and `renders_property` is the result for a property.
-/

namespace Backfield

/-- The modifiers of an accessibility. -/
def Accessibility.words : Accessibility → List String
  | isPublic => ["public"]
  | isInternal => ["internal"]
  | isProtected => ["protected"]
  | isPrivate => ["private"]
  | isProtectedInternal => ["protected", "internal"]
  | isPrivateProtected => ["private", "protected"]

theorem Accessibility.text_eq (a : Accessibility) : a.text = " ".intercalate a.words := by
  cases a <;> rfl

theorem Accessibility.isReservedModifier_words (a : Accessibility) :
    ∀ word ∈ a.words, CSharp.Keyword.isReservedModifier word = true := by
  cases a <;> decide

theorem Accessibility.words_ne_nil (a : Accessibility) : a.words ≠ [] := by
  cases a <;> exact List.cons_ne_nil _ _

/-- The accessibility of a declaration that is also partial. -/
theorem Accessibility.ofModifiers?_words (a : Accessibility) :
    ofModifiers? (a.words ++ ["partial"]) = some a := by
  cases a <;> decide

namespace Layout

open CSharp (Ink Sketch IsLine Written Tail Stands Reads IsIdentifier IsDottedName dotted)
open CSharp.Declaration (blockSketch braces lineInks usingInks namedInks aliasedInks spaceInks
  parameterInks moreParameters classInks propertyInks propertySketch accessorInks accessorSketch
  callInks argumentInks stopInk)
open CSharp.Lexeme (IsWhole IsWord EndsName endsName_cons endsSymbol_cons)

/-! ## Texts and lines -/

/-- A declaration and its body, line by line. -/
def blockLines (declaration : String) (body : List String) : List String :=
  declaration :: "\x7b" :: (body.map Text.indentLine ++ ["\x7d"])

theorem lines_cons {line : String} {rest : List String} (hne : rest ≠ []) :
    lines (line :: rest) = line ++ "\n" ++ lines rest :=
  String.intercalate_cons_of_ne_nil hne

theorem lines_append {front back : List String} (hfront : front ≠ []) (hback : back ≠ []) :
    lines (front ++ back) = lines front ++ "\n" ++ lines back :=
  String.intercalate_append_of_ne_nil hfront hback

/-- Two texts with a blank line between them. -/
theorem lines_append_blank {front back : List String} (hfront : front ≠ []) (hback : back ≠ []) :
    lines front ++ "\n\n" ++ lines back = lines (front ++ "" :: back) := by
  have hbreak : "\n\n" = "\n" ++ ("" ++ "\n") := rfl
  rw [lines_append hfront (List.cons_ne_nil _ _), lines_cons hback, hbreak]
  simp only [String.append_assoc]

/-- A block whose body has these lines once it is indented. -/
theorem block_of_indent {declaration body : String} {indented : List String}
    (hne : indented ≠ []) (h : Text.indent body = lines indented) :
    block declaration body = lines (declaration :: "\x7b" :: (indented ++ ["\x7d"])) := by
  have hlines : lines (declaration :: "\x7b" :: (indented ++ ["\x7d"])) =
      declaration ++ "\n" ++ ("\x7b" ++ "\n" ++ (lines indented ++ "\n" ++ lines ["\x7d"])) := by
    rw [lines_cons (List.cons_ne_nil _ _), lines_cons (by simp),
      lines_append hne (List.cons_ne_nil _ _)]
  rw [hlines, block, h]
  simp [lines, String.intercalate_cons_cons]

theorem block_lines {declaration : String} {body : List String}
    (hfirst : ∀ line ∈ body.head?, line ≠ "") (hne : body ≠ [])
    (hbody : ∀ line ∈ body, Text.IsUnbroken line.toList) :
    block declaration (lines body) = lines (blockLines declaration body) :=
  block_of_indent (by simpa using hne) (Text.indent_intercalate hfirst hne hbody)

/-! ## Texts and sketches -/

/-- The text has lines of which the first is not empty, and they show the sketches. -/
def Renders (text : String) (sketches : List Sketch) : Prop :=
  ∃ first rest, text = lines (first :: rest) ∧ first ≠ "" ∧
    Written (first :: rest) (Sketch.inksOf sketches)

/-- Successive lines that show some inks each. -/
theorem renders_lines {first : String} {rest : List String} {inks : List Ink}
    (hfirst : first ≠ "") (h : Written (first :: rest) inks) :
    Renders (lines (first :: rest)) (inks.map Sketch.leaf) :=
  ⟨first, rest, rfl, hfirst, by rwa [Sketch.inksOf_map_leaf]⟩

theorem isLine_brace {line : String} (h : line = "\x7b" ∨ line = "\x7d") :
    IsLine line [Ink.symbol line] := by
  rcases h with rfl | rfl
  · exact Tail.line (Ink.symbol "\x7b") rfl rfl (Stands.lone (by decide)) Tail.nil
  · exact Tail.line (Ink.symbol "\x7d") rfl rfl (Stands.lone (by decide)) Tail.nil

theorem Renders.block {declaration body : String} {inks : List Ink} {items : List Sketch}
    (hdeclaration : IsLine declaration inks) (hne : declaration ≠ "") (h : Renders body items) :
    Renders (Layout.block declaration body) (blockSketch inks items) := by
  obtain ⟨first, rest, rfl, hfirst, hwritten⟩ := h
  have hhead : ∀ line ∈ (first :: rest).head?, line ≠ "" := by
    rintro line ⟨⟩
    exact hfirst
  have hwhole : Written (blockLines declaration (first :: rest))
      (inks ++ ([Ink.symbol "\x7b"] ++ (Sketch.inksOf items ++ ([Ink.symbol "\x7d"] ++ [])))) :=
    Written.cons hdeclaration (Written.cons (isLine_brace (Or.inl rfl))
      (hwritten.indent.append (Written.cons (isLine_brace (Or.inr rfl)) Written.nil)))
  refine ⟨declaration, _, block_lines hhead (List.cons_ne_nil _ _) hwritten.isUnbroken, hne, ?_⟩
  have hinks : Sketch.inksOf (blockSketch inks items) =
      inks ++ ([Ink.symbol "\x7b"] ++ (Sketch.inksOf items ++ ([Ink.symbol "\x7d"] ++ []))) := by
    simp [blockSketch, braces]
  rwa [hinks]

/-- Blocks around some sketches, the outermost one first. -/
def nest (heads : List (List Ink)) (items : List Sketch) : List Sketch :=
  heads.foldr blockSketch items

theorem Renders.blocks {declarations : List String} {heads : List (List Ink)} {body : String}
    {items : List Sketch}
    (hheads : List.Forall₂ (fun line inks => IsLine line inks ∧ line ≠ "") declarations heads)
    (h : Renders body items) : Renders (Layout.blocks declarations body) (nest heads items) := by
  induction hheads with
  | nil => exact h
  | cons hline _ ih => exact Renders.block hline.1 hline.2 ih

/-- Sections show their sketches one after the other. -/
theorem Renders.sections {sections : List String} {parts : List (List Sketch)}
    (h : List.Forall₂ Renders sections parts) (hne : sections ≠ []) :
    Renders ("\n\n".intercalate sections) parts.flatten := by
  induction h with
  | nil => exact absurd rfl hne
  | @cons text sketches texts parts htext hrest ih =>
    cases hrest with
    | nil => simpa using htext
    | cons hnext hmore =>
      obtain ⟨first, front, rfl, hfirst, hfront⟩ := htext
      obtain ⟨next, back, hback, -, hwritten⟩ := ih (List.cons_ne_nil _ _)
      refine ⟨first, front ++ "" :: next :: back, ?_, hfirst, ?_⟩
      · rw [String.intercalate_cons_cons, hback,
          lines_append_blank (List.cons_ne_nil _ _) (List.cons_ne_nil _ _), List.cons_append]
      · have hall := hfront.append (Written.cons IsLine.empty hwritten)
        simpa using hall

/-- A rendered text, with its last newline, is read as its sketches. -/
theorem Renders.reads {text : String} {sketches : List Sketch} (h : Renders text sketches)
    (gap : List Char) : Reads gap (text ++ "\n").toList (Sketch.inksOf sketches) := by
  obtain ⟨first, rest, rfl, -, hwritten⟩ := h
  rw [lines, Text.toList_intercalate_newline (List.cons_ne_nil _ _)]
  exact hwritten.reads gap

/-! ## Lines of words -/

/-- Words with a space before each. -/
def spacedText (words : List String) : List Char := words.flatMap fun word => ' ' :: word.toList

theorem toList_spaced (first : String) (rest : List String) :
    (" ".intercalate (first :: rest)).toList = first.toList ++ spacedText rest := by
  induction rest generalizing first with
  | nil => simp [spacedText]
  | cons next rest ih =>
    rw [String.intercalate_cons_cons, String.toList_append, String.toList_append, ih next]
    simp [spacedText]

theorem tail_words {words : List String} {text : List Char} {inks : List Ink}
    (hwords : ∀ word ∈ words, IsWord word.toList) (htext : EndsName text) (h : Tail text inks) :
    Tail (spacedText words ++ text) (words.map (fun word => (Ink.word word).after " ") ++ inks) ∧
      EndsName (spacedText words ++ text) := by
  induction words with
  | nil => exact ⟨h, htext⟩
  | cons word words ih =>
    obtain ⟨htail, hends⟩ := ih fun other hother => hwords other (List.mem_cons_of_mem _ hother)
    have hword := hwords word List.mem_cons_self
    have hall := Tail.spaced (Ink.word word) (Stands.word hword hends) htail
    have hlist : spacedText (word :: words) ++ text =
        ' ' :: (word.toList ++ (spacedText words ++ text)) := by simp [spacedText]
    rw [hlist]
    exact ⟨hall, endsName_cons _ (by decide)⟩

/-- A line of words and of what follows them. -/
theorem isLine_words {words : List String} {text : List Char} {inks : List Ink} {line : String}
    (hne : words ≠ []) (hwords : ∀ word ∈ words, IsWord word.toList) (htext : EndsName text)
    (h : Tail text inks) (hline : line.toList = (" ".intercalate words).toList ++ text) :
    IsLine line (lineInks words ++ inks) := by
  cases words with
  | nil => exact absurd rfl hne
  | cons first rest =>
    obtain ⟨htail, hends⟩ := tail_words
      (fun word hword => hwords word (List.mem_cons_of_mem _ hword)) htext h
    rw [toList_spaced, List.append_assoc] at hline
    exact Tail.line (Ink.word first) hline rfl
      (Stands.word (hwords first List.mem_cons_self) hends) htail

/-- A keyword is a word. -/
theorem isWord_of_isWhole {word : String} (h : IsWhole word.toList) : IsWord word.toList := Or.inl h

theorem tail_stop : Tail [';'] [(Ink.symbol ";").after ""] :=
  Tail.tight (Ink.symbol ";") (Stands.lone (by decide)) Tail.nil

/-! ## Lines of declarations -/

theorem isLine_using {name : String} (hname : IsDottedName name) :
    IsLine ("using " ++ name ++ ";") (usingInks (namedInks name)) := by
  have htail := Tail.dotted hname (endsName_cons [] (by decide)) tail_stop
  refine Tail.line (Ink.word "using") ?_ rfl
    (Stands.word (isWord_of_isWhole (by decide)) (endsName_cons _ (by decide))) htail
  have hword : "using ".toList = "using".toList ++ [' '] := rfl
  rw [String.toList_append, String.toList_append, hword]
  simp [Ink.word]

theorem isLine_aliased {name target : String} (hname : IsIdentifier name)
    (htarget : IsDottedName target) :
    IsLine ("using " ++ (name ++ " = " ++ target) ++ ";")
      (usingInks (aliasedInks name target)) := by
  have hafter := Tail.dotted htarget (endsName_cons [] (by decide)) tail_stop
  have hequals := Tail.spaced (Ink.symbol "=")
    (Stands.joining (by decide) (endsSymbol_cons _ (by decide))) hafter
  have htail := Tail.spaced (Ink.word name) (hname.stands (endsName_cons _ (by decide))) hequals
  refine Tail.line (Ink.word "using") ?_ rfl
    (Stands.word (isWord_of_isWhole (by decide)) (endsName_cons _ (by decide))) htail
  have hword : "using ".toList = "using".toList ++ [' '] := rfl
  simp only [String.toList_append, hword]
  simp [Ink.word, Ink.symbol]

theorem isLine_space {name : String} (hname : IsDottedName name) :
    IsLine ("namespace " ++ name) (spaceInks name) := by
  have htail := Tail.dotted hname (fun c hc => by cases hc) Tail.nil
  rw [List.append_nil, List.append_nil] at htail
  refine Tail.line (Ink.word "namespace") ?_ rfl
    (Stands.word (isWord_of_isWhole (by decide)) (endsName_cons _ (by decide))) htail
  have hword : "namespace ".toList = "namespace".toList ++ [' '] := rfl
  rw [String.toList_append, hword]
  simp [Ink.word]

/-- A list of type parameters as a text. -/
def parameterText (parameters : List String) : String :=
  if parameters.isEmpty then "" else "<" ++ ", ".intercalate parameters ++ ">"

/-- What follows the first of some type parameters. -/
def commaText (parameters : List String) : List Char :=
  parameters.flatMap fun parameter => ',' :: ' ' :: parameter.toList

theorem toList_parameterText (first : String) (rest : List String) :
    (parameterText (first :: rest)).toList = '<' :: (first.toList ++ (commaText rest ++ ['>'])) := by
  have hcommas : ∀ (rest : List String) (first : String),
      (", ".intercalate (first :: rest)).toList = first.toList ++ commaText rest := by
    intro rest
    induction rest with
    | nil => simp [commaText]
    | cons next rest ih =>
      intro first
      rw [String.intercalate_cons_cons, String.toList_append, String.toList_append, ih next]
      simp [commaText]
  rw [parameterText, if_neg (by simp), String.toList_append, String.toList_append, hcommas]
  simp

theorem tail_moreParameters {parameters : List String}
    (hparameters : ∀ parameter ∈ parameters, IsIdentifier parameter) :
    Tail (commaText parameters ++ ['>']) (moreParameters parameters) ∧
      EndsName (commaText parameters ++ ['>']) := by
  induction parameters with
  | nil =>
    exact ⟨Tail.tight (Ink.symbol ">") (Stands.joining (by decide) fun c hc => by cases hc) Tail.nil,
      endsName_cons [] (by decide)⟩
  | cons parameter rest ih =>
    obtain ⟨htail, hends⟩ := ih fun other hother => hparameters other (List.mem_cons_of_mem _ hother)
    have hword := Tail.spaced (Ink.word parameter)
      ((hparameters parameter List.mem_cons_self).stands hends) htail
    have hall := Tail.tight (Ink.symbol ",") (Stands.lone (by decide)) hword
    have hlist : commaText (parameter :: rest) ++ ['>'] =
        ',' :: ' ' :: (parameter.toList ++ (commaText rest ++ ['>'])) := by simp [commaText]
    rw [hlist]
    exact ⟨hall, endsName_cons _ (by decide)⟩

theorem tail_parameters {parameters : List String}
    (hparameters : ∀ parameter ∈ parameters, IsIdentifier parameter) :
    Tail (parameterText parameters).toList (parameterInks parameters) ∧
      EndsName (parameterText parameters).toList := by
  cases parameters with
  | nil => exact ⟨Tail.nil, fun c hc => by cases hc⟩
  | cons first rest =>
    have hfirst := hparameters first List.mem_cons_self
    obtain ⟨htail, hends⟩ := tail_moreParameters fun other hother =>
      hparameters other (List.mem_cons_of_mem _ hother)
    have hword := Tail.tight (Ink.word first) (hfirst.stands hends) htail
    rw [toList_parameterText]
    exact ⟨Tail.tight (Ink.symbol "<")
      (Stands.joining (by decide) (hfirst.isWord.endsSymbol _)) hword, endsName_cons _ (by decide)⟩

theorem isLine_class {access parameters : List String} {name : String}
    (haccess : ∀ word ∈ access, IsWord word.toList) (hname : IsIdentifier name)
    (hparameters : ∀ parameter ∈ parameters, IsIdentifier parameter) :
    IsLine (" ".intercalate (access ++ ["partial", "class", name]) ++ parameterText parameters)
      (classInks access name parameters) := by
  obtain ⟨htail, hends⟩ := tail_parameters hparameters
  refine isLine_words (by simp) ?_ hends htail String.toList_append
  intro word hword
  rcases List.mem_append.mp hword with hword | hword
  · exact haccess word hword
  · simp only [List.mem_cons, List.not_mem_nil, or_false] at hword
    rcases hword with rfl | rfl | rfl
    · exact isWord_of_isWhole (by decide)
    · exact isWord_of_isWhole (by decide)
    · exact hname.isWord

/-! ## Properties -/

theorem isWord_words (a : Accessibility) : ∀ word ∈ a.words, IsWord word.toList := by
  have hall : (a.words.all fun word => decide (IsWhole word.toList)) = true := by
    cases a <;> decide
  exact fun word hword => isWord_of_isWhole (by simpa using List.all_eq_true.mp hall word hword)

theorem isLine_property {p : Property} (htype : IsDottedName p.type) (hname : IsIdentifier p.name) :
    IsLine (p.accessibility.text ++ " " ++ p.type ++ " " ++ p.name)
      (propertyInks p.accessibility.words p.type p.name) := by
  have hend := Tail.spaced (Ink.word p.name) (hname.stands fun c hc => by cases hc) Tail.nil
  have htail := Tail.dotted htype (endsName_cons _ (by decide)) hend
  refine isLine_words p.accessibility.words_ne_nil (isWord_words _) (endsName_cons _ (by decide))
    htail ?_
  simp [Accessibility.text_eq, Ink.word]

theorem isLine_getter {field : String} (hfield : IsIdentifier field) :
    IsLine ("    get => " ++ field ++ ";")
      (accessorInks "get" ++ [(Ink.word field).after " ", stopInk]) := by
  have hword := Tail.spaced (Ink.word field) (hfield.stands (endsName_cons [] (by decide))) tail_stop
  have harrow := Tail.spaced (Ink.symbol "=>") Stands.arrow hword
  have hline : IsLine ("get => " ++ field ++ ";")
      (accessorInks "get" ++ [(Ink.word field).after " ", stopInk]) := by
    refine Tail.line (Ink.word "get") ?_ rfl
      (Stands.word (isWord_of_isWhole (by decide)) (endsName_cons _ (by decide))) harrow
    have hstart : "get => ".toList = "get".toList ++ ' ' :: ("=>".toList ++ [' ']) := rfl
    rw [String.toList_append, String.toList_append, hstart]
    simp [Ink.word, Ink.symbol]
  have hstep : "    get => " = Text.indentStep ++ "get => " := rfl
  rw [hstep, String.append_assoc, String.append_assoc]
  rw [String.append_assoc] at hline
  exact hline.step

theorem tail_arguments {field : String} (hfield : IsIdentifier field) :
    Tail ('(' :: ("ref".toList ++ ' ' :: (field.toList ++ ", value);".toList)))
      ((Ink.symbol "(").after "" :: (argumentInks field ++ [(Ink.symbol ")").after "", stopInk])) := by
  have hclose : Tail [')', ';'] [(Ink.symbol ")").after "", stopInk] :=
    Tail.tight (Ink.symbol ")") (Stands.lone (by decide)) tail_stop
  have hvalue : Tail " value);".toList
      [(Ink.word "value").after " ", (Ink.symbol ")").after "", stopInk] :=
    Tail.spaced (Ink.word "value")
      (Stands.word (isWord_of_isWhole (by decide)) (endsName_cons [';'] (by decide))) hclose
  have hcomma : Tail ", value);".toList
      [(Ink.symbol ",").after "", (Ink.word "value").after " ", (Ink.symbol ")").after "",
        stopInk] :=
    Tail.tight (Ink.symbol ",") (Stands.lone (by decide)) hvalue
  have hends : EndsName ", value);".toList := endsName_cons " value);".toList (by decide)
  have hrest := Tail.spaced (Ink.word field) (hfield.stands hends) hcomma
  have href := Tail.tight (Ink.word "ref")
    (Stands.word (isWord_of_isWhole (by decide))
      (endsName_cons (field.toList ++ ", value);".toList) (by decide))) hrest
  exact Tail.tight (Ink.symbol "(") (Stands.lone (by decide)) href

theorem tail_call {method : String} {text : List Char} {inks : List Ink}
    (hmethod : IsIdentifier method) (htext : EndsName text) (h : Tail text inks) :
    Tail (' ' :: ("this".toList ++ '.' :: (method.toList ++ text))) (callInks method ++ inks) := by
  have hname := Tail.tight (Ink.word method) (hmethod.stands htext) h
  have hdot : Tail ('.' :: (method.toList ++ text))
      ((Ink.symbol ".").after "" :: (Ink.word method).after "" :: inks) :=
    Tail.tight (Ink.symbol ".") (Stands.joining (by decide) (hmethod.isWord.endsSymbol _)) hname
  exact Tail.spaced (Ink.word "this")
    (Stands.word (isWord_of_isWhole (by decide)) (endsName_cons _ (by decide))) hdot

theorem isLine_setter {method field : String} (hmethod : IsIdentifier method)
    (hfield : IsIdentifier field) :
    IsLine ("    set => this." ++ method ++ "(ref " ++ field ++ ", value);")
      (accessorInks "set" ++ (callInks method ++ ((Ink.symbol "(").after "" ::
        (argumentInks field ++ [(Ink.symbol ")").after "", stopInk])))) := by
  have hcall := tail_call hmethod (endsName_cons _ (by decide)) (tail_arguments hfield)
  have harrow := Tail.spaced (Ink.symbol "=>") Stands.arrow hcall
  have hline : IsLine ("set => this." ++ method ++ "(ref " ++ field ++ ", value);")
      (accessorInks "set" ++ (callInks method ++ ((Ink.symbol "(").after "" ::
        (argumentInks field ++ [(Ink.symbol ")").after "", stopInk])))) := by
    refine Tail.line (Ink.word "set") ?_ rfl
      (Stands.word (isWord_of_isWhole (by decide)) (endsName_cons _ (by decide))) harrow
    simp [Ink.word, Ink.symbol]
  have hstep : "    set => this." = Text.indentStep ++ "set => this." := rfl
  rw [hstep]
  simp only [String.append_assoc] at hline ⊢
  exact hline.step

/-- A property shows its sketch. -/
theorem renders_property {method : String} {p : Property} (hmethod : IsIdentifier method)
    (htype : IsDottedName p.type) (hname : IsIdentifier p.name) (hfield : IsIdentifier p.field) :
    Renders (property method p)
      (propertySketch p.accessibility.words p.type p.name method p.field) := by
  have hwritten := Written.cons (isLine_property htype hname) (Written.cons
    (isLine_brace (Or.inl rfl)) (Written.cons (isLine_getter hfield) (Written.cons
      (isLine_setter hmethod hfield) (Written.cons (isLine_brace (Or.inr rfl)) Written.nil))))
  refine ⟨_, _, rfl, by simp, ?_⟩
  have hinks : Sketch.inksOf
      (propertySketch p.accessibility.words p.type p.name method p.field) =
        propertyInks p.accessibility.words p.type p.name ++ ([Ink.symbol "\x7b"] ++
          (accessorInks "get" ++ [(Ink.word p.field).after " ", stopInk] ++ (accessorInks "set" ++
            (callInks method ++ ((Ink.symbol "(").after "" :: (argumentInks p.field ++
              [(Ink.symbol ")").after "", stopInk]))) ++ ([Ink.symbol "\x7d"] ++ [])))) := by
    simp [propertySketch, blockSketch, braces, accessorSketch]
  rw [hinks]
  exact hwritten

end Layout

end Backfield

import Backfield.Proofs.Layout.Nesting

/-!
# Rows of a rendered class

A class is rendered from the inside out: each block indents again what is inside it.  Here its rows
are listed from top to bottom, with a depth that is counted on the way.

* `emission` is the list of rows, and `Shows` says that a text consists of some rows.
* `emitBlocks_succ` says that what is emitted one level deeper are the same rows, each one step
  further to the right.  With it, `shows_emitBlocks` compares the two ways to nested blocks.
* `forall₂_emitSections` is the result for all sections of a text.
-/

namespace Backfield.Layout

/-! ## Rows -/

/-- A row of a text: a text at a depth, or a blank row, which is the same at every depth. -/
inductive Row
  | blank
  | text (depth : Nat) (content : String)
  deriving DecidableEq, Repr

namespace Row

/-- The row as it is written: four spaces for each level, and none where nothing follows. -/
def line : Row → String
  | blank => ""
  | text depth content =>
    if content.isEmpty then "" else String.ofList (List.replicate (4 * depth) ' ') ++ content

/-- The row one level deeper. -/
def deepen : Row → Row
  | blank => blank
  | text depth content => text (depth + 1) content

end Row

/-! ## Emission -/

/-- A declaration at a depth, and between braces what is inside it. -/
def emitBlock (depth : Nat) (declaration : String) (inside : List Row) : List Row :=
  .text depth declaration :: .text depth "\x7b" :: (inside ++ [.text depth "\x7d"])

/-- Blocks one inside the other, of which the first declaration is the outermost. -/
def emitBlocks (inside : Nat → List Row) : Nat → List String → List Row
  | depth, [] => inside depth
  | depth, declaration :: rest =>
    emitBlock depth declaration (emitBlocks inside (depth + 1) rest)

/-- Parts one after the other, with a blank row between them. -/
def separated (parts : List (List Row)) : List Row := [.blank].intercalate parts

def emitProperty (method : String) (depth : Nat) (p : Property) : List Row :=
  emitBlock depth (p.accessibility.text ++ " " ++ p.type ++ " " ++ p.name)
    [.text (depth + 1) ("get => " ++ p.field ++ ";"),
      .text (depth + 1) ("set => this." ++ method ++ "(ref " ++ p.field ++ ", value);")]

def emitProperties (method : String) (ps : List Property) (depth : Nat) : List Row :=
  separated (ps.map (emitProperty method depth))

/-- The lines of the banner. -/
def bannerTexts : List String := [
  "//------------------------------------------------------------------------------",
  "// <auto-generated>",
  "//     This code was generated by " ++ programName ++ ".",
  "//",
  "//     Changes to this file may cause incorrect behavior and will be lost if",
  "//     the code is regenerated.",
  "// </auto-generated>",
  "//------------------------------------------------------------------------------"]

/-- The lines above the declaration of the marker. -/
def markerTexts : List String := [
  "/// <summary>",
  "/// Add to a field to generate a reactive property for it.",
  "/// </summary>",
  "[System.AttributeUsage(System.AttributeTargets.Field)]",
  "[System.Diagnostics.Conditional(\"REACTIVEOBJECT_GENERATORS_USAGES\")]"]

def emitMarker (name : String) (depth : Nat) : List Row :=
  markerTexts.map (.text depth) ++
    emitBlock depth ("public sealed class " ++ name ++ " : System.Attribute") []

/-- The declaration of the marker inside its namespace, if it has one. -/
def emitMarkerSource (settings : Settings) : List Row :=
  emitBlocks (emitMarker settings.markerName.display) 0
    (if settings.markerNamespace.isTrue then ["namespace " ++ settings.markerNamespace.display]
      else [])

/-- The sections of a class's artifact: the banner, the using directives and the marker as the
settings and the class ask for them, and the class inside its blocks. -/
def emitSections (settings : Settings) (c : ReactiveClass) : List (List Row) :=
  (if settings.banner.isTrue then [bannerTexts.map (.text 0)] else []) ++
  (if c.usings.isEmpty then [] else [c.usings.map fun name => .text 0 ("using " ++ name ++ ";")]) ++
  (if settings.embedMarker.isTrue then [emitMarkerSource settings] else []) ++
  [emitBlocks (emitProperties settings.notifyMethod.display c.properties) 0
    (enclosingDeclarations c)]

/-- The rows of a class's artifact. -/
def emission (settings : Settings) (c : ReactiveClass) : List Row :=
  separated (emitSections settings c)

/-! ## Depth -/

theorem line_text_zero (content : String) : (Row.text 0 content).line = content := by
  by_cases hempty : content = ""
  · rw [hempty]
    rfl
  · simp [Row.line, hempty]

/-- One level deeper, a row is the row indented. -/
theorem line_deepen (row : Row) : row.deepen.line = Text.indentLine row.line := by
  cases row with
  | blank => rfl
  | text depth content =>
    by_cases hempty : content = ""
    · rw [hempty]
      rfl
    · have hspaces : String.ofList (List.replicate (4 * (depth + 1)) ' ') =
          Text.indentStep ++ String.ofList (List.replicate (4 * depth) ' ') := by
        have hlength : 4 * (depth + 1) = 4 + 4 * depth := by omega
        rw [hlength, List.replicate_add, String.ofList_append]
        rfl
      have hne : String.ofList (List.replicate (4 * depth) ' ') ++ content ≠ "" :=
        fun h => hempty (String.append_eq_empty_iff.mp h).2
      simp only [Row.deepen, Row.line, String.isEmpty_iff, if_neg hempty]
      rw [Text.indentLine_of_ne hne, hspaces, String.append_assoc]

/-- The rows at each depth are those of the depth before, one level deeper. -/
def Follows (rows : Nat → List Row) : Prop :=
  ∀ depth, rows (depth + 1) = (rows depth).map Row.deepen

theorem emitBlock_succ (depth : Nat) (declaration : String) (inside : List Row) :
    emitBlock (depth + 1) declaration (inside.map Row.deepen) =
      (emitBlock depth declaration inside).map Row.deepen := by
  simp [emitBlock, Row.deepen]

theorem emitBlocks_succ {inside : Nat → List Row} (hinside : Follows inside)
    (declarations : List String) (depth : Nat) :
    emitBlocks inside (depth + 1) declarations =
      (emitBlocks inside depth declarations).map Row.deepen := by
  induction declarations generalizing depth with
  | nil => exact hinside depth
  | cons declaration rest ih =>
    -- The blocks inside begin one level deeper on both sides.
    rw [emitBlocks, ih (depth + 1), emitBlock_succ, emitBlocks]

theorem separated_cons (part : List Row) {parts : List (List Row)} (hne : parts ≠ []) :
    separated (part :: parts) = part ++ .blank :: separated parts := by
  rw [separated, List.intercalate_cons_of_ne_nil hne, List.append_assoc]
  rfl

theorem map_deepen_separated (parts : List (List Row)) :
    (separated parts).map Row.deepen = separated (parts.map (List.map Row.deepen)) := by
  induction parts with
  | nil => rfl
  | cons part rest ih =>
    cases rest with
    | nil => simp [separated]
    | cons next rest =>
      have hne : (next :: rest).map (List.map Row.deepen) ≠ [] := List.cons_ne_nil _ _
      rw [separated_cons part (List.cons_ne_nil next rest), List.map_append, List.map_cons, ih]
      exact (separated_cons _ hne).symm

theorem emitProperties_succ (method : String) (ps : List Property) :
    Follows (emitProperties method ps) := by
  intro depth
  rw [emitProperties, emitProperties, map_deepen_separated, List.map_map]
  rfl

theorem emitMarker_succ (name : String) : Follows (emitMarker name) := by
  intro depth
  simp [emitMarker, emitBlock, Row.deepen, Function.comp_def]

/-! ## Texts and rows -/

/-- The text consists of the rows, and they are lines. -/
structure Shows (text : String) (rows : List Row) : Prop where
  text_eq : text = lines (rows.map Row.line)
  areLines : AreLines (rows.map Row.line)

theorem map_line_emitBlock (declaration : String) (inside : List Row) :
    (emitBlock 0 declaration (inside.map Row.deepen)).map Row.line =
      blockLines declaration (inside.map Row.line) := by
  simp [emitBlock, blockLines, line_text_zero, line_deepen, Function.comp_def]

/-- What is emitted with a depth has the lines that come of indenting level by level. -/
theorem map_line_emitBlocks {inside : Nat → List Row} (hinside : Follows inside)
    (declarations : List String) :
    (emitBlocks inside 0 declarations).map Row.line =
      nestedLines declarations ((inside 0).map Row.line) := by
  induction declarations with
  | nil => rfl
  | cons declaration rest ih =>
    rw [emitBlocks, emitBlocks_succ hinside, map_line_emitBlock, ih]
    rfl

/-- Nested blocks are emitted from top to bottom. -/
theorem shows_emitBlocks {inside : Nat → List Row} {body : String} {declarations : List String}
    (hinside : Follows inside) (hbody : Shows body (inside 0))
    (hdeclarations : ∀ declaration ∈ declarations, IsOneLine declaration) :
    Shows (blocks declarations body) (emitBlocks inside 0 declarations) := by
  obtain ⟨htext, hlines⟩ := blocks_lines hdeclarations hbody.areLines
  rw [← hbody.text_eq, ← map_line_emitBlocks hinside] at htext
  rw [← map_line_emitBlocks hinside] at hlines
  exact ⟨htext, hlines⟩

theorem AreLines.append_blank {front back : List String} (hfront : AreLines front)
    (hback : AreLines back) : AreLines (front ++ "" :: back) where
  ne := List.append_ne_nil_of_left_ne_nil hfront.ne _
  first := by
    rw [List.head?_append_of_ne_nil _ hfront.ne]
    exact hfront.first
  isUnbroken := by
    intro line hline
    rcases List.mem_append.mp hline with hline | hline
    · exact hfront.isUnbroken line hline
    · rcases List.mem_cons.mp hline with rfl | hline
      · exact fun _ hc => by cases hc
      · exact hback.isUnbroken line hline

/-- Parts with a blank line between them. -/
theorem shows_separated {texts : List String} {parts : List (List Row)}
    (h : List.Forall₂ Shows texts parts) (hne : texts ≠ []) :
    Shows ("\n\n".intercalate texts) (separated parts) := by
  induction h with
  | nil => exact absurd rfl hne
  | @cons text part texts parts htext hrest ih =>
    cases hrest with
    | nil => simpa [separated] using htext
    | @cons next other texts parts hnext hmore =>
      have hback := ih (List.cons_ne_nil _ _)
      have hlines : (separated (part :: other :: parts)).map Row.line =
          part.map Row.line ++ "" :: (separated (other :: parts)).map Row.line := by
        rw [separated_cons part (List.cons_ne_nil _ _), List.map_append, List.map_cons, Row.line]
      constructor
      · rw [hlines, String.intercalate_cons_cons, htext.text_eq, hback.text_eq,
          lines_append_blank htext.areLines.ne hback.areLines.ne]
      · rw [hlines]
        exact htext.areLines.append_blank hback.areLines

/-! ## Sections -/

theorem isOneLine_of_all {texts : List String}
    (h : (texts.all fun text =>
      !text.isEmpty && text.toList.all fun c => !Text.isLineBreak c) = true) :
    ∀ text ∈ texts, IsOneLine text := by
  intro text htext
  obtain ⟨hne, hall⟩ := Bool.and_eq_true_iff.mp (List.all_eq_true.mp h text htext)
  exact ⟨by simpa using hne, Text.isUnbroken_of_all hall⟩

theorem areLines_of_isOneLine {texts : List String} (hne : texts ≠ [])
    (h : ∀ text ∈ texts, IsOneLine text) : AreLines texts where
  ne := hne
  first := fun text htext => (h text (List.mem_of_mem_head? htext)).ne
  isUnbroken := fun text htext => (h text htext).isUnbroken

/-- Rows outside all blocks. -/
theorem shows_lines {texts : List String} (hne : texts ≠ [])
    (h : ∀ text ∈ texts, IsOneLine text) : Shows (lines texts) (texts.map (.text 0)) := by
  have hlines : (texts.map (Row.text 0)).map Row.line = texts := by
    simp [line_text_zero, Function.comp_def]
  exact ⟨by rw [hlines], by rw [hlines]; exact areLines_of_isOneLine hne h⟩

theorem shows_banner : Shows banner (bannerTexts.map (.text 0)) :=
  shows_lines (by decide) (isOneLine_of_all (by decide +kernel))

theorem shows_usings {usings : List String} (hne : usings ≠ [])
    (husings : ∀ name ∈ usings, Text.IsUnbroken name.toList) :
    Shows (usingDirectives usings)
      (usings.map fun name => .text 0 ("using " ++ name ++ ";")) := by
  have hall : ∀ text ∈ usings.map fun name => "using " ++ name ++ ";", IsOneLine text := by
    intro text htext
    obtain ⟨name, hname, rfl⟩ := List.mem_map.mp htext
    have hkeyword : IsOneLine "using " := ⟨by decide, Text.isUnbroken_of_all (by decide)⟩
    exact (hkeyword.append (husings name hname)).append (Text.isUnbroken_of_all (by decide))
  have hshows := shows_lines (by simpa using hne) hall
  rw [List.map_map] at hshows
  exact hshows

theorem shows_marker {name : String} (hname : Text.IsUnbroken name.toList) :
    Shows (markerClass name) (emitMarker name 0) := by
  have hkeyword : IsOneLine "public sealed class " :=
    ⟨by decide, Text.isUnbroken_of_all (by decide)⟩
  have hclass : IsOneLine ("public sealed class " ++ name ++ " : System.Attribute") :=
    (hkeyword.append hname).append (Text.isUnbroken_of_all (by decide))
  have hall : ∀ text ∈ markerTexts ++
      ["public sealed class " ++ name ++ " : System.Attribute", "\x7b", "\x7d"],
      IsOneLine text := by
    intro text htext
    rcases List.mem_append.mp htext with htext | htext
    · exact isOneLine_of_all (by decide +kernel) text htext
    · rcases List.mem_cons.mp htext with rfl | htext
      · exact hclass
      · exact isOneLine_of_all (by decide) text htext
  exact shows_lines (by simp) hall

theorem isOneLine_property {p : Property} (htype : Text.IsUnbroken p.type.toList)
    (hname : Text.IsUnbroken p.name.toList) :
    IsOneLine (p.accessibility.text ++ " " ++ p.type ++ " " ++ p.name) :=
  (isOneLine_typed htype).append hname

theorem isOneLine_getter {field : String} (hfield : Text.IsUnbroken field.toList) :
    IsOneLine ("get => " ++ field ++ ";") := by
  have hkeyword : IsOneLine "get => " := ⟨by decide, Text.isUnbroken_of_all (by decide)⟩
  exact (hkeyword.append hfield).append (Text.isUnbroken_of_all (by decide))

theorem isOneLine_setter {method field : String} (hmethod : Text.IsUnbroken method.toList)
    (hfield : Text.IsUnbroken field.toList) :
    IsOneLine ("set => this." ++ method ++ "(ref " ++ field ++ ", value);") := by
  have hkeyword : IsOneLine "set => this." := ⟨by decide, Text.isUnbroken_of_all (by decide)⟩
  have hcall : IsOneLine ("set => this." ++ method ++ "(ref ") :=
    (hkeyword.append hmethod).append (Text.isUnbroken_of_all (by decide))
  exact (hcall.append hfield).append (Text.isUnbroken_of_all (by decide))

theorem shows_property {method : String} {p : Property}
    (hmethod : Text.IsUnbroken method.toList) (hfield : Text.IsUnbroken p.field.toList)
    (hname : Text.IsUnbroken p.name.toList) (htype : Text.IsUnbroken p.type.toList) :
    Shows (property method p) (emitProperty method 0 p) := by
  let declaration := p.accessibility.text ++ " " ++ p.type ++ " " ++ p.name
  let getter := "get => " ++ p.field ++ ";"
  let setter := "set => this." ++ method ++ "(ref " ++ p.field ++ ", value);"
  have hgetter : IsOneLine getter := isOneLine_getter hfield
  have hsetter : IsOneLine setter := isOneLine_setter hmethod hfield
  have hrows : (emitProperty method 0 p).map Row.line =
      blockLines declaration [getter, setter] := by
    have hblock := map_line_emitBlock declaration [.text 0 getter, .text 0 setter]
    simp only [List.map_cons, List.map_nil, line_text_zero] at hblock
    exact hblock
  have htext : property method p = lines (blockLines declaration [getter, setter]) := by
    have hgetStep : "    get => " = Text.indentStep ++ "get => " := rfl
    have hsetStep : "    set => this." = Text.indentStep ++ "set => this." := rfl
    rw [property, blockLines, List.map_cons, List.map_singleton, Text.indentLine_of_ne hgetter.ne,
      Text.indentLine_of_ne hsetter.ne, hgetStep, hsetStep]
    simp only [getter, setter, declaration, String.append_assoc, List.cons_append, List.nil_append]
  have hlines : AreLines [getter, setter] := by
    refine areLines_of_isOneLine (List.cons_ne_nil _ _) fun line hline => ?_
    rcases List.mem_cons.mp hline with rfl | hline
    · exact hgetter
    · exact List.mem_singleton.mp hline ▸ hsetter
  constructor
  · rw [hrows, htext]
  · rw [hrows]
    exact AreLines.blockLines (isOneLine_property htype hname) hlines

/-! ## Whole classes -/

/-- No text that a class is rendered with has a line break. -/
structure HasUnbrokenTexts (settings : Settings) (c : ReactiveClass) : Prop where
  markerNamespace : Text.IsUnbroken settings.markerNamespace.display.toList
  markerName : Text.IsUnbroken settings.markerName.display.toList
  notifyMethod : Text.IsUnbroken settings.notifyMethod.display.toList
  name : Text.IsUnbroken c.name.toList
  space : Text.IsUnbroken c.space.toList
  typeParameters : Text.IsUnbroken c.typeParameters.toList
  containers : ∀ name ∈ c.containers, Text.IsUnbroken name.toList
  usings : ∀ name ∈ c.usings, Text.IsUnbroken name.toList
  properties : ∀ p ∈ c.properties, Text.IsUnbroken p.field.toList ∧
    Text.IsUnbroken p.name.toList ∧ Text.IsUnbroken p.type.toList

variable {settings : Settings} {c : ReactiveClass}

/-- Properties one after the other. -/
theorem shows_properties (h : HasUnbrokenTexts settings c) (hne : c.properties ≠ []) :
    Shows (properties settings.notifyMethod.display c.properties)
      (emitProperties settings.notifyMethod.display c.properties 0) := by
  refine shows_separated ?_ (by simpa using hne)
  rw [List.forall₂_map_left_iff, List.forall₂_map_right_iff, List.forall₂_same]
  intro p hp
  obtain ⟨hfield, hname, htype⟩ := h.properties p hp
  exact shows_property h.notifyMethod hfield hname htype

theorem isOneLine_of_mem_enclosingDeclarations (h : HasUnbrokenTexts settings c) :
    ∀ line ∈ enclosingDeclarations c, IsOneLine line := by
  intro line hline
  rcases List.mem_append.mp hline with haround | hown
  · rcases List.mem_append.mp haround with hspace | hcontainer
    · exact isOneLine_of_mem_spaceDeclarations h.space hspace
    · obtain ⟨name, hname, rfl⟩ := List.mem_map.mp hcontainer
      exact isOneLine_partialClass (h.containers name hname)
  · rw [List.mem_singleton.mp hown]
    exact isOneLine_classDeclaration h.name h.typeParameters

theorem shows_markerSource (h : HasUnbrokenTexts settings c) :
    Shows (markerSource settings) (emitMarkerSource settings) := by
  have hmarker := shows_marker h.markerName
  have hspace := isOneLine_namespace h.markerNamespace
  unfold markerSource emitMarkerSource
  split
  · exact @shows_emitBlocks _ _ ["namespace " ++ settings.markerNamespace.display]
      (emitMarker_succ _) hmarker fun line hline => List.mem_singleton.mp hline ▸ hspace
  · exact hmarker

/-- The sections of a text, one by one. -/
theorem forall₂_emitSections (h : HasUnbrokenTexts settings c) (hne : c.properties ≠ []) :
    List.Forall₂ Shows (leadingSections settings c ++ [classSource settings c])
      (emitSections settings c) := by
  have hbody : Shows (classSource settings c)
      (emitBlocks (emitProperties settings.notifyMethod.display c.properties) 0
        (enclosingDeclarations c)) :=
    shows_emitBlocks (emitProperties_succ _ _) (shows_properties h hne)
      (isOneLine_of_mem_enclosingDeclarations h)
  refine List.rel_append ?_ (.cons hbody .nil)
  refine List.rel_append (List.rel_append ?_ ?_) ?_
  · rw [bannerSection]
    split
    · exact .cons shows_banner .nil
    · exact .nil
  · split
    · exact .nil
    · rename_i husings
      exact .cons (shows_usings (by simpa using husings) h.usings) .nil
  · split
    · exact .cons (shows_markerSource h) .nil
    · exact .nil

end Backfield.Layout

import Backfield.Proofs.Layout.Lines
import Backfield.Proofs.Text.Search

/-!
# Blocks of a rendered class

The text of a class's artifact tells which blocks stand around the class.  `renderInside` is that
text with other declarations around the class.

* `blocks_lines` takes nested blocks apart into lines, and `nestedLines_inj` says that the lines
  tell the declarations.  Each level adds three lines and indents the ones inside.
* `infix_blocks` says that words still occur in the blocks around what they occur in.
* `renderInside_inj` is the result for whole texts.
-/

namespace Backfield.Layout

/-! ## Lines of nested blocks -/

/-- A text that is one line, and not an empty one. -/
structure IsOneLine (text : String) : Prop where
  ne : text ≠ ""
  isUnbroken : Text.IsUnbroken text.toList

theorem isOneLine_append {front back : String} (hne : front ≠ "")
    (hfront : Text.IsUnbroken front.toList) (hback : Text.IsUnbroken back.toList) :
    IsOneLine (front ++ back) where
  ne := fun hempty => hne (String.append_eq_empty_iff.mp hempty).1
  isUnbroken := by
    rw [String.toList_append]
    exact Text.isUnbroken_append hfront hback

theorem IsOneLine.append {front back : String} (hfront : IsOneLine front)
    (hback : Text.IsUnbroken back.toList) : IsOneLine (front ++ back) :=
  isOneLine_append hfront.ne hfront.isUnbroken hback

/-- Lines without breaks, of which the first is not empty. -/
structure AreLines (ls : List String) : Prop where
  ne : ls ≠ []
  first : ∀ line ∈ ls.head?, line ≠ ""
  isUnbroken : ∀ line ∈ ls, Text.IsUnbroken line.toList

/-- Nested blocks line by line, the outermost declaration first. -/
def nestedLines (declarations inside : List String) : List String :=
  declarations.foldr blockLines inside

theorem isUnbroken_brace {line : String} (h : line = "\x7b" ∨ line = "\x7d") :
    Text.IsUnbroken line.toList := by
  rcases h with rfl | rfl
  · exact Text.isUnbroken_of_all (by decide)
  · exact Text.isUnbroken_of_all (by decide)

/-- Lines of a block whose body has these lines once it is indented. -/
theorem areLines_cons {declaration : String} {indented : List String}
    (hdeclaration : IsOneLine declaration)
    (hindented : ∀ line ∈ indented, Text.IsUnbroken line.toList) :
    AreLines (declaration :: "\x7b" :: (indented ++ ["\x7d"])) where
  ne := List.cons_ne_nil _ _
  first := by
    rintro line ⟨⟩
    exact hdeclaration.ne
  isUnbroken := by
    intro line hline
    rcases List.mem_cons.mp hline with rfl | hline
    · exact hdeclaration.isUnbroken
    · rcases List.mem_cons.mp hline with hopen | hline
      · exact isUnbroken_brace (Or.inl hopen)
      · rcases List.mem_append.mp hline with hline | hclose
        · exact hindented line hline
        · exact isUnbroken_brace (Or.inr (List.mem_singleton.mp hclose))

theorem AreLines.blockLines {declaration : String} {body : List String}
    (hdeclaration : IsOneLine declaration) (hbody : AreLines body) :
    AreLines (Layout.blockLines declaration body) := by
  refine areLines_cons hdeclaration fun line hline => ?_
  obtain ⟨other, hother, rfl⟩ := List.mem_map.mp hline
  exact Text.isUnbroken_indentLine (hbody.isUnbroken other hother)

/-- A block consists of lines, whatever its body is. -/
theorem exists_lines_block {declaration : String} (hdeclaration : IsOneLine declaration)
    (body : String) : ∃ ls, AreLines ls ∧ block declaration body = lines ls := by
  obtain ⟨indented, hne, hlines, hindent⟩ := Text.exists_lines_indent body
  exact ⟨_, areLines_cons hdeclaration hlines, block_of_indent hne hindent⟩

/-- Nested blocks around some lines, line by line. -/
theorem blocks_lines {declarations inside : List String}
    (hdeclarations : ∀ declaration ∈ declarations, IsOneLine declaration)
    (hinside : AreLines inside) :
    blocks declarations (lines inside) = lines (nestedLines declarations inside) ∧
      AreLines (nestedLines declarations inside) := by
  induction declarations with
  | nil => exact ⟨rfl, hinside⟩
  | cons declaration rest ih =>
    obtain ⟨htext, hrest⟩ := ih fun other hother =>
      hdeclarations other (List.mem_cons_of_mem _ hother)
    refine ⟨?_, AreLines.blockLines (hdeclarations declaration List.mem_cons_self) hrest⟩
    have hblock := @block_lines declaration _ hrest.first hrest.ne hrest.isUnbroken
    rw [← htext] at hblock
    exact hblock

theorem length_nestedLines (declarations inside : List String) :
    (nestedLines declarations inside).length = 3 * declarations.length + inside.length := by
  induction declarations with
  | nil => simp [nestedLines]
  | cons declaration rest ih =>
    have hblock : (nestedLines (declaration :: rest) inside).length =
        (nestedLines rest inside).length + 3 := by
      simp [nestedLines, blockLines]
    rw [hblock, ih, List.length_cons]
    omega

/-- The lines of a block tell its declaration and the lines of its body. -/
theorem blockLines_inj {declaration other : String} {body body' : List String}
    (h : blockLines declaration body = blockLines other body') :
    declaration = other ∧ body = body' := by
  obtain ⟨hdeclaration, htail⟩ := List.cons.inj h
  have hindented := List.append_cancel_right (List.cons.inj htail).2
  exact ⟨hdeclaration, List.map_injective_iff.mpr Text.indentLine_injective hindented⟩

/-- The lines of nested blocks tell the declarations: their number, since every level has three
lines of its own, and then each of them from the outside to the inside. -/
theorem nestedLines_inj {declarations others inside : List String}
    (h : nestedLines declarations inside = nestedLines others inside) : declarations = others := by
  have hlength : declarations.length = others.length := by
    have hlines := congrArg List.length h
    rw [length_nestedLines, length_nestedLines] at hlines
    omega
  induction declarations generalizing others with
  | nil => exact (List.length_eq_zero_iff.mp hlength.symm).symm
  | cons declaration rest ih =>
    cases others with
    | nil => cases hlength
    | cons other others =>
      obtain ⟨hfirst, hrest⟩ := blockLines_inj h
      rw [hfirst, ih hrest (Nat.succ.inj hlength)]

/-- The text of nested blocks tells the declarations around the innermost one. -/
theorem blocks_inj {declarations others : List String} {own body : String}
    (hown : IsOneLine own) (hdeclarations : ∀ declaration ∈ declarations, IsOneLine declaration)
    (hothers : ∀ declaration ∈ others, IsOneLine declaration)
    (h : blocks (declarations ++ [own]) body = blocks (others ++ [own]) body) :
    declarations = others := by
  have happend : ∀ declarations,
      blocks (declarations ++ [own]) body = blocks declarations (block own body) :=
    fun _ => List.foldr_append
  obtain ⟨inside, hinside, hblock⟩ := exists_lines_block hown body
  obtain ⟨htext, hlines⟩ := blocks_lines hdeclarations hinside
  obtain ⟨htext', hlines'⟩ := blocks_lines hothers hinside
  rw [happend, happend, hblock, htext, htext'] at h
  exact nestedLines_inj (Text.intercalate_newline_inj hlines.ne hlines'.ne hlines.isUnbroken
    hlines'.isUnbroken h)

/-! ## Words in blocks -/

/-- A word without line breaks still occurs in the blocks around what it occurs in. -/
theorem infix_blocks {word : List Char} {body : String} (hne : word ≠ [])
    (hword : Text.IsUnbroken word) (declarations : List String) (h : word <:+: body.toList) :
    word <:+: (blocks declarations body).toList := by
  induction declarations with
  | nil => exact h
  | cons declaration rest ih =>
    have hblock : blocks (declaration :: rest) body =
        lines [declaration, "\x7b", Text.indent (blocks rest body), "\x7d"] := rfl
    have hbody : Text.indent (blocks rest body) ∈
        [declaration, "\x7b", Text.indent (blocks rest body), "\x7d"] := by simp
    rw [hblock, lines]
    exact Text.infix_intercalate _ hbody (Text.infix_indent hne hword ih)

/-- What occurs in the class occurs in the text of its artifact. -/
theorem infix_render {word : List Char} {settings : Settings} {c : ReactiveClass}
    (h : word <:+: (classSource settings c).toList) : word <:+: (render settings c).toList := by
  rw [render, join, String.toList_append]
  refine (Text.infix_intercalate _ ?_ h).trans (List.prefix_append _ _).isInfix
  exact List.mem_append_right _ (List.mem_singleton_self _)

/-! ## Whole texts -/

/-- What opens the block of a namespace, unless it has no name. -/
def spaceDeclarations (space : String) : List String :=
  if space == "" then [] else ["namespace " ++ space]

/-- The sections before the class. -/
def leadingSections (settings : Settings) (c : ReactiveClass) : List String :=
  bannerSection settings ++
    (if c.usings.isEmpty then [] else [usingDirectives c.usings]) ++
    (if settings.embedMarker.isTrue then [markerSource settings] else [])

/-- The text of a class's artifact with these declarations around the class, the outermost one
first. -/
def renderInside (settings : Settings) (c : ReactiveClass) (around : List String) : String :=
  join (leadingSections settings c ++
    [blocks (around ++ [classDeclaration c])
      (properties settings.notifyMethod.display c.properties)])

theorem render_eq_renderInside (settings : Settings) (c : ReactiveClass) :
    render settings c = renderInside settings c
      (spaceDeclarations c.space ++ c.containers.map ("partial class " ++ ·)) := rfl

theorem isOneLine_namespace {space : String} (hspace : Text.IsUnbroken space.toList) :
    IsOneLine ("namespace " ++ space) :=
  isOneLine_append (by decide) (Text.isUnbroken_of_all (by decide)) hspace

theorem isOneLine_of_mem_spaceDeclarations {space line : String}
    (hspace : Text.IsUnbroken space.toList) (hline : line ∈ spaceDeclarations space) :
    IsOneLine line := by
  unfold spaceDeclarations at hline
  split at hline
  · cases hline
  · rw [List.mem_singleton.mp hline]
    exact isOneLine_namespace hspace

theorem isOneLine_partialClass {name : String} (hname : Text.IsUnbroken name.toList) :
    IsOneLine ("partial class " ++ name) :=
  isOneLine_append (by decide) (Text.isUnbroken_of_all (by decide)) hname

theorem isOneLine_accessibility (a : Accessibility) : IsOneLine a.text := by
  cases a <;> exact ⟨by decide, Text.isUnbroken_of_all (by decide)⟩

/-- What a property is declared with before its name. -/
theorem isOneLine_typed {p : Property} (htype : Text.IsUnbroken p.type.toList) :
    IsOneLine (p.accessibility.text ++ " " ++ p.type ++ " ") := by
  have hspace : Text.IsUnbroken " ".toList := Text.isUnbroken_of_all (by decide)
  exact (((isOneLine_accessibility _).append hspace).append htype).append hspace

theorem isOneLine_classDeclaration {c : ReactiveClass} (hname : Text.IsUnbroken c.name.toList)
    (hlist : Text.IsUnbroken c.typeParameters.toList) : IsOneLine (classDeclaration c) := by
  have hwords : Text.IsUnbroken " partial class ".toList := Text.isUnbroken_of_all (by decide)
  exact (((isOneLine_accessibility _).append hwords).append hname).append hlist

/-- The last section of a text can be told from those before it. -/
theorem join_concat_inj {front : List String} {last other : String}
    (h : join (front ++ [last]) = join (front ++ [other])) : last = other := by
  rw [join, join, String.append_left_inj] at h
  cases front with
  | nil => simpa using h
  | cons first rest =>
    rw [String.intercalate_append_of_ne_nil (List.cons_ne_nil _ _) (List.cons_ne_nil _ _),
      String.intercalate_append_of_ne_nil (List.cons_ne_nil _ _) (List.cons_ne_nil _ _),
      String.intercalate_singleton, String.intercalate_singleton, String.append_right_inj] at h
    exact h

/-- The text of a class's artifact tells the declarations around the class. -/
theorem renderInside_inj {settings : Settings} {c : ReactiveClass} {around others : List String}
    (hown : IsOneLine (classDeclaration c)) (haround : ∀ line ∈ around, IsOneLine line)
    (hothers : ∀ line ∈ others, IsOneLine line) :
    renderInside settings c around = renderInside settings c others ↔ around = others :=
  ⟨fun h => blocks_inj hown haround hothers (join_concat_inj h), fun h => by rw [h]⟩

end Backfield.Layout

import Backfield.Proofs.Layout.Emission

/-!
# Writing a class in one pass

The text of a class's artifact is what its rows are when they are written from top to bottom.

* `writeRows` is the text of a list of rows, each with its newline.
* `Nested` says that the braces of some rows are paired, each pair at one depth, and that every
  other row is at the depth at which it stands.
* `render_eq_writeRows` is the result for whole texts.
-/

namespace Backfield.Layout

/-- Rows one under the other, each with its newline. -/
def writeRows (rows : List Row) : String := String.join (rows.map fun row => row.line ++ "\n")

theorem writeRows_eq {rows : List Row} (hne : rows ≠ []) :
    writeRows rows = lines (rows.map Row.line) ++ "\n" := by
  rw [← String.toList_inj, lines, Text.toList_intercalate_newline (by simpa using hne), writeRows,
    String.toList_join, List.flatMap_map, List.flatMap_map]
  simp

/-! ## Braces -/

/-- The content of a row is there, and is neither a brace nor indented by itself. -/
def IsProper (content : String) : Prop :=
  (content.toList.head?.any fun c => c ∉ [' ', '\x7b', '\x7d']) = true

instance : DecidablePred IsProper := fun _ => inferInstanceAs (Decidable (_ = true))

theorem IsProper.append {front : String} (h : IsProper front) (back : String) :
    IsProper (front ++ back) := by
  unfold IsProper at h ⊢
  rw [String.toList_append, List.head?_append]
  cases hfront : front.toList.head? with
  | none =>
    rw [hfront] at h
    cases h
  | some c =>
    rw [hfront] at h
    exact h

/-- Some rows at a depth: each is blank, or it is at this depth and no brace, or it opens a block
that is closed at this depth.  What is inside a block is one level deeper. -/
inductive Nested : Nat → List Row → Prop
  | nil {depth : Nat} : Nested depth []
  | blank {depth : Nat} {rows : List Row} (h : Nested depth rows) : Nested depth (.blank :: rows)
  | text {depth : Nat} {content : String} {rows : List Row} (hcontent : IsProper content)
    (h : Nested depth rows) : Nested depth (.text depth content :: rows)
  | block {depth : Nat} {inside rows : List Row} (hinside : Nested (depth + 1) inside)
    (h : Nested depth rows) :
    Nested depth (.text depth "\x7b" :: (inside ++ .text depth "\x7d" :: rows))

theorem Nested.append {depth : Nat} {front back : List Row} (hfront : Nested depth front)
    (hback : Nested depth back) : Nested depth (front ++ back) := by
  induction hfront with
  | nil => exact hback
  | blank _ ih => exact .blank (ih hback)
  | text hcontent _ ih => exact .text hcontent (ih hback)
  | block hinside _ _ ih =>
    rw [List.cons_append, List.append_assoc, List.cons_append]
    exact .block hinside (ih hback)

theorem nested_separated {depth : Nat} {parts : List (List Row)}
    (h : ∀ part ∈ parts, Nested depth part) : Nested depth (separated parts) := by
  induction parts with
  | nil => exact .nil
  | cons part rest ih =>
    have hpart := h part List.mem_cons_self
    cases rest with
    | nil => simpa [separated] using hpart
    | cons next rest =>
      rw [separated_cons part (List.cons_ne_nil _ _)]
      exact hpart.append (.blank (ih fun other hother => h other (List.mem_cons_of_mem _ hother)))

theorem nested_emitBlock {depth : Nat} {declaration : String} {inside : List Row}
    (hdeclaration : IsProper declaration) (hinside : Nested (depth + 1) inside) :
    Nested depth (emitBlock depth declaration inside) :=
  .text hdeclaration (.block hinside .nil)

theorem nested_emitBlocks {inside : Nat → List Row} {declarations : List String}
    (hdeclarations : ∀ declaration ∈ declarations, IsProper declaration)
    (hinside : ∀ depth, Nested depth (inside depth)) (depth : Nat) :
    Nested depth (emitBlocks inside depth declarations) := by
  induction declarations generalizing depth with
  | nil => exact hinside depth
  | cons declaration rest ih =>
    refine nested_emitBlock (hdeclarations declaration List.mem_cons_self) (ih ?_ (depth + 1))
    exact fun other hother => hdeclarations other (List.mem_cons_of_mem _ hother)

theorem nested_lines {texts : List String} (h : ∀ text ∈ texts, IsProper text) (depth : Nat) :
    Nested depth (texts.map (.text depth)) := by
  induction texts with
  | nil => exact .nil
  | cons text rest ih =>
    refine .text (h text List.mem_cons_self) (ih fun other hother => ?_)
    exact h other (List.mem_cons_of_mem _ hother)

/-! ## Braces of a class -/

theorem isProper_of_accessibility (a : Accessibility) : IsProper a.text := by
  cases a <;> decide

theorem nested_emitProperty (method : String) (p : Property) (depth : Nat) :
    Nested depth (emitProperty method depth p) := by
  have haccess := isProper_of_accessibility p.accessibility
  have hget : IsProper "get => " := by decide
  have hset : IsProper "set => this." := by decide
  refine nested_emitBlock ((((haccess.append _).append _).append _).append _) ?_
  exact .text ((hget.append _).append _)
    (.text ((((hset.append _).append _).append _).append _) .nil)

theorem nested_emitProperties (method : String) (ps : List Property) (depth : Nat) :
    Nested depth (emitProperties method ps depth) := by
  refine nested_separated fun part hpart => ?_
  obtain ⟨p, -, rfl⟩ := List.mem_map.mp hpart
  exact nested_emitProperty method p depth

theorem nested_emitMarker (name : String) (depth : Nat) : Nested depth (emitMarker name depth) := by
  have htexts : ∀ text ∈ markerTexts, IsProper text := by decide +kernel
  have hkeyword : IsProper "public sealed class " := by decide
  exact (nested_lines htexts depth).append (nested_emitBlock ((hkeyword.append _).append _) .nil)

theorem isProper_namespace (space : String) : IsProper ("namespace " ++ space) := by
  have hkeyword : IsProper "namespace " := by decide
  exact hkeyword.append space

theorem isProper_of_mem_enclosingDeclarations (c : ReactiveClass) :
    ∀ line ∈ enclosingDeclarations c, IsProper line := by
  have hkeyword : IsProper "partial class " := by decide
  intro line hline
  rcases List.mem_append.mp hline with haround | hown
  · rcases List.mem_append.mp haround with hspace | hcontainer
    · split at hspace
      · cases hspace
      · rw [List.mem_singleton.mp hspace]
        exact isProper_namespace c.space
    · obtain ⟨name, -, rfl⟩ := List.mem_map.mp hcontainer
      exact hkeyword.append name
  · rw [List.mem_singleton.mp hown]
    exact (((isProper_of_accessibility c.accessibility).append _).append _).append _

theorem nested_emitMarkerSource (settings : Settings) : Nested 0 (emitMarkerSource settings) := by
  refine nested_emitBlocks (fun line hline => ?_) (nested_emitMarker _) 0
  split at hline
  · rw [List.mem_singleton.mp hline]
    exact isProper_namespace _
  · cases hline

/-- The braces of a class's artifact are paired, section by section. -/
theorem nested_emission (settings : Settings) (c : ReactiveClass) :
    Nested 0 (emission settings c) := by
  have hbanner : ∀ text ∈ bannerTexts, IsProper text := by decide +kernel
  have hkeyword : IsProper "using " := by decide
  refine nested_separated fun part hpart => ?_
  simp only [emitSections, List.mem_append, List.mem_ite_nil_left, List.mem_ite_nil_right,
    List.mem_singleton] at hpart
  rcases hpart with ((⟨-, rfl⟩ | ⟨-, rfl⟩) | ⟨-, rfl⟩) | rfl
  · exact nested_lines hbanner 0
  · have husings : ∀ text ∈ c.usings.map fun name => "using " ++ name ++ ";", IsProper text := by
      intro text htext
      obtain ⟨name, -, rfl⟩ := List.mem_map.mp htext
      exact (hkeyword.append name).append ";"
    have hnested := nested_lines husings 0
    rw [List.map_map] at hnested
    exact hnested
  · exact nested_emitMarkerSource settings
  · exact nested_emitBlocks (isProper_of_mem_enclosingDeclarations c) (nested_emitProperties _ _) 0

theorem exists_separated_concat (front : List (List Row)) (last : List Row) :
    ∃ before, separated (front ++ [last]) = before ++ last := by
  induction front with
  | nil => exact ⟨[], by simp [separated]⟩
  | cons part rest ih =>
    obtain ⟨before, hbefore⟩ := ih
    refine ⟨part ++ .blank :: before, ?_⟩
    rw [List.cons_append, separated_cons part (by simp), hbefore, List.append_assoc,
      List.cons_append]

/-- The last row closes the outermost block of the class. -/
theorem getLast?_emission (settings : Settings) (c : ReactiveClass) :
    (emission settings c).getLast? = some (.text 0 "\x7d") := by
  obtain ⟨before, hbefore⟩ := exists_separated_concat _ _
  rw [emission, emitSections, hbefore]
  cases hdeclarations : enclosingDeclarations c with
  | nil => exact absurd hdeclarations (by simp [enclosingDeclarations])
  | cons declaration rest =>
    rw [emitBlocks, emitBlock, ← List.cons_append, ← List.cons_append, ← List.append_assoc,
      List.getLast?_concat]

/-! ## Whole texts -/

/-- What is rendered inside out is the text of the rows from top to bottom.  These rows are the
lines of the text, and their braces are paired.  The text ends with a brace and one newline. -/
theorem render_eq_writeRows (settings : Settings) (c : ReactiveClass) (hc : c.check = .ok c)
    (h : HasUnbrokenTexts settings c) :
    render settings c = writeRows (emission settings c) ∧
      Text.splitLines (render settings c) = (emission settings c).map Row.line ∧
      Nested 0 (emission settings c) ∧
      (emission settings c).getLast? = some (.text 0 "\x7d") := by
  have hne : c.properties ≠ [] := by
    intro hnil
    simp [ReactiveClass.check, hnil] at hc
  have hshows : Shows
      ("\n\n".intercalate (leadingSections settings c ++ [classSource settings c]))
      (emission settings c) := shows_separated (forall₂_emitSections h hne) (by simp)
  have hrender : render settings c = lines ((emission settings c).map Row.line) ++ "\n" := by
    rw [← hshows.text_eq]
    rfl
  have hrows : emission settings c ≠ [] := by simpa using hshows.areLines.ne
  refine ⟨?_, ?_, nested_emission settings c, getLast?_emission settings c⟩
  · rw [hrender, writeRows_eq hrows]
  · rw [hrender]
    exact Text.splitLines_intercalate hshows.areLines.ne hshows.areLines.isUnbroken

/-- A generic class with two properties, inside a class of a namespace. -/
theorem render_eq_writeRows_twice :
    let settings : Settings := { banner := .bool false }
    let c : ReactiveClass := {
      name := "Lid"
      space := "Shop"
      fullName := "Shop.Box.Lid<T>"
      accessibility := .isPrivate
      properties := [⟨"_key", "Key", .isPrivate, "int"⟩, ⟨"_top", "Top", .isPrivate, "T"⟩]
      typeParameters := "<T>"
      containers := ["Box"]
      usings := ["System"] }
    c.check = .ok c ∧ HasUnbrokenTexts settings c ∧ Text.splitLines (render settings c) = [
      "using System;",
      "",
      "namespace Shop",
      "\x7b",
      "    partial class Box",
      "    \x7b",
      "        private partial class Lid<T>",
      "        \x7b",
      "            private int Key",
      "            \x7b",
      "                get => _key;",
      "                set => this.RaiseAndSetIfChanged(ref _key, value);",
      "            \x7d",
      "",
      "            private T Top",
      "            \x7b",
      "                get => _top;",
      "                set => this.RaiseAndSetIfChanged(ref _top, value);",
      "            \x7d",
      "        \x7d",
      "    \x7d",
      "\x7d"] := by
  intro settings c
  have hunbroken : HasUnbrokenTexts settings c := {
    markerNamespace := Text.isUnbroken_of_all (by decide)
    markerName := Text.isUnbroken_of_all (by decide)
    notifyMethod := Text.isUnbroken_of_all (by decide)
    name := Text.isUnbroken_of_all (by decide)
    space := Text.isUnbroken_of_all (by decide)
    typeParameters := Text.isUnbroken_of_all (by decide)
    containers := fun name hname =>
      List.mem_singleton.mp hname ▸ Text.isUnbroken_of_all (by decide)
    usings := fun name hname =>
      List.mem_singleton.mp hname ▸ Text.isUnbroken_of_all (by decide)
    properties := by
      intro p hp
      rcases List.mem_cons.mp hp with rfl | hp
      · exact ⟨Text.isUnbroken_of_all (by decide), Text.isUnbroken_of_all (by decide),
          Text.isUnbroken_of_all (by decide)⟩
      · rw [List.mem_singleton.mp hp]
        exact ⟨Text.isUnbroken_of_all (by decide), Text.isUnbroken_of_all (by decide),
          Text.isUnbroken_of_all (by decide)⟩ }
  obtain ⟨-, hlines, -⟩ := render_eq_writeRows settings c rfl hunbroken
  refine ⟨rfl, hunbroken, hlines.trans ?_⟩
  decide +kernel

end Backfield.Layout

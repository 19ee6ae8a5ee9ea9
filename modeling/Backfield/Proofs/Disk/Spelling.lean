import Backfield.Proofs.Disk.FileNames

/-!
# Ways of writing a path

A single dot, a slash beside another and a slash at the end say nothing, so one path can be written
in many ways.  There are two places where they do say something: the first character decides
whether the path starts at a root, and of two slashes in front neither can be left out.

* `Respells` is one such change of a text, and `ofText_eq_of_respells` says that it is the same
  path.
* `IsProper` is what all paths have that come from texts (`isProper_ofText`): a root that is made of
  slashes, and components without any.  What such a path is ordered by tells it
  (`IsProper.eq_of_sortKey_eq`).
-/

namespace Backfield.Path

/-! ## Components and roots of longer texts -/

/-- The components of a text. -/
def partsOf (text : List Char) : List String :=
  ((splitFrom [] text).map String.ofList).filter isPart

theorem ofText_eq (text : String) : ofText text = ⟨rootOf text.toList, partsOf text.toList⟩ := rfl

theorem splitFrom_append_slash (part front back : List Char) :
    splitFrom part (front ++ '/' :: back) = splitFrom part front ++ splitFrom [] back := by
  induction front generalizing part with
  | nil => rfl
  | cons c rest ih =>
    rw [List.cons_append, splitFrom, splitFrom]
    split
    · rw [ih, List.cons_append]
    · rw [ih]

/-- Nothing reaches over a slash. -/
theorem partsOf_append_slash (front back : List Char) :
    partsOf (front ++ '/' :: back) = partsOf front ++ partsOf back := by
  rw [partsOf, splitFrom_append_slash, List.map_append, List.filter_append]
  rfl

@[simp] theorem partsOf_nil : partsOf [] = [] := rfl

@[simp] theorem partsOf_dot : partsOf ['.'] = [] := by decide

/-- A slash in front is no part of a component. -/
@[simp] theorem partsOf_slash (text : List Char) : partsOf ('/' :: text) = partsOf text := by
  rw [← List.nil_append ('/' :: text), partsOf_append_slash, partsOf_nil, List.nil_append]

theorem partsOf_replicate_slash (n : Nat) (text : List Char) :
    partsOf (List.replicate n '/' ++ text) = partsOf text := by
  induction n with
  | zero => rfl
  | succ n ih => rw [List.replicate_succ, List.cons_append, partsOf_slash, ih]

/-- The root of a text that begins with the first one is decided within that. -/
def Settles (front back : List Char) : Prop := (∃ c ∈ front, c ≠ '/') ∨ back.head? ≠ some '/'

theorem takeWhile_append_of_settles {front back : List Char} (h : Settles front back) :
    (front ++ back).takeWhile (· == '/') = front.takeWhile (· == '/') := by
  induction front with
  | nil =>
    have hback : back.head? ≠ some '/' := h.resolve_left (by simp)
    cases back with
    | nil => rfl
    | cons c rest =>
      have hc : ¬(c == '/') = true := fun heq => hback (by rw [beq_iff_eq.mp heq]; rfl)
      rw [List.nil_append, List.takeWhile_cons, if_neg hc, List.takeWhile_nil]
  | cons c rest ih =>
    rw [List.cons_append, List.takeWhile_cons, List.takeWhile_cons]
    split
    · rename_i hc
      -- The character is a slash, so it is not the one that settles the root.
      refine congrArg (c :: ·) (ih (h.imp_left ?_))
      rintro ⟨d, hd, hne⟩
      rcases List.mem_cons.mp hd with rfl | hrest
      · exact absurd (beq_iff_eq.mp hc) hne
      · exact ⟨d, hrest, hne⟩
    · rfl

theorem rootOf_append {front back : List Char} (h : Settles front back) :
    rootOf (front ++ back) = rootOf front := by
  rw [rootOf, rootOf, takeWhile_append_of_settles h]

/-! ## Ways of writing -/

/-- One change of a text that is none of its path. -/
inductive Respells : List Char → List Char → Prop
  /-- A dot and a slash, in front or after a slash. -/
  | dot {front back : List Char} (hfront : front = [] ∨ front.getLast? = some '/')
      (h : Settles front back) : Respells (front ++ back) (front ++ '.' :: '/' :: back)
  /-- A slash beside another. -/
  | slash {front : List Char} (back : List Char) (h : ∃ c ∈ front, c ≠ '/') :
      Respells (front ++ '/' :: back) (front ++ '/' :: '/' :: back)
  /-- A slash at the end. -/
  | last {front : List Char} (h : ∃ c ∈ front, c ≠ '/') : Respells front (front ++ ['/'])
  /-- Three slashes in front or more, which are one. -/
  | root (n : Nat) {back : List Char} (h : back.head? ≠ some '/') :
      Respells ('/' :: back) (List.replicate (n + 3) '/' ++ back)

namespace Respells

variable {text other : List Char}

theorem partsOf_eq (h : Respells text other) : partsOf text = partsOf other := by
  cases h with
  | @dot front back hfront _ =>
    have hdot : partsOf ('.' :: '/' :: back) = partsOf back := by
      rw [← List.singleton_append, partsOf_append_slash, partsOf_dot, List.nil_append]
    rcases hfront with rfl | hlast
    · exact hdot.symm
    · obtain ⟨above, rfl⟩ := List.getLast?_eq_some_iff.mp hlast
      rw [List.append_assoc, List.append_assoc, List.singleton_append, List.singleton_append,
        partsOf_append_slash, partsOf_append_slash, hdot]
  | slash back _ => rw [partsOf_append_slash, partsOf_append_slash, partsOf_slash]
  | last _ => rw [partsOf_append_slash, partsOf_nil, List.append_nil]
  | root n _ => rw [partsOf_slash, partsOf_replicate_slash]

theorem rootOf_eq (h : Respells text other) : rootOf text = rootOf other := by
  cases h with
  | dot _ h => rw [rootOf_append h, rootOf_append (Or.inr (by simp))]
  | slash _ h => rw [rootOf_append (Or.inl h), rootOf_append (Or.inl h)]
  | last h => rw [rootOf_append (Or.inl h)]
  | @root n back h =>
    rw [← List.singleton_append, rootOf_append (Or.inr h), rootOf_append (Or.inr h), rootOf, rootOf,
      List.takeWhile_replicate]
    simp

end Respells

/-- A text that is written in another way is the same path. -/
theorem ofText_eq_of_respells {text other : String} (h : Respells text.toList other.toList) :
    ofText text = ofText other := by
  rw [ofText_eq, ofText_eq, h.rootOf_eq, h.partsOf_eq]

/-! ## Paths that come from texts -/

/-- The root is made of slashes, and no component has any. -/
structure IsProper (p : Path) : Prop where
  root : p.root = "" ∨ p.root = "/" ∨ p.root = "//"
  parts : ∀ part ∈ p.parts, '/' ∉ part.toList

theorem not_mem_of_mem_splitFrom {part text piece : List Char} (hpart : '/' ∉ part)
    (hpiece : piece ∈ splitFrom part text) : '/' ∉ piece := by
  induction text generalizing part with
  | nil =>
    rw [splitFrom, List.mem_singleton] at hpiece
    rwa [hpiece, List.mem_reverse]
  | cons c rest ih =>
    rw [splitFrom] at hpiece
    split at hpiece
    · rcases List.mem_cons.mp hpiece with rfl | hrest
      · rwa [List.mem_reverse]
      · exact ih List.not_mem_nil hrest
    · rename_i hc
      refine ih ?_ hpiece
      rw [List.mem_cons, not_or]
      exact ⟨fun heq => hc (beq_iff_eq.mpr heq.symm), hpart⟩

theorem isProper_ofText (text : String) : (ofText text).IsProper := by
  refine ⟨?_, fun part hpart => ?_⟩
  · rw [ofText_eq]
    dsimp only
    rw [rootOf]
    split
    · exact Or.inl rfl
    · exact Or.inr (Or.inr rfl)
    · exact Or.inr (Or.inl rfl)
  · obtain ⟨piece, hpiece, rfl⟩ := List.mem_map.mp (List.mem_filter.mp hpart).1
    rw [String.toList_ofList]
    exact not_mem_of_mem_splitFrom List.not_mem_nil hpiece

/-- A root is no component of a path. -/
theorem IsProper.root_not_mem {p q : Path} (hp : p.IsProper) (hq : q.IsProper)
    (hroot : p.root ≠ "") : p.root ∉ q.parts := by
  intro hmem
  have hslash := hq.parts _ hmem
  rcases hp.root.resolve_left hroot with heq | heq
  · rw [heq] at hslash
    exact hslash (by decide)
  · rw [heq] at hslash
    exact hslash (by decide)

/-- What a path is ordered by tells it. -/
theorem IsProper.eq_of_sortKey_eq {p q : Path} (hp : p.IsProper) (hq : q.IsProper)
    (h : p.sortKey = q.sortKey) : p = q := by
  obtain ⟨root, parts⟩ := p
  obtain ⟨root', parts'⟩ := q
  rw [sortKey, sortKey] at h
  by_cases hroot : root = ""
  · by_cases hroot' : root' = ""
    · simpa [hroot, hroot'] using h
    · rw [if_pos (beq_iff_eq.mpr hroot), if_neg (by simpa using hroot')] at h
      exact absurd (h ▸ List.mem_cons_self) (hq.root_not_mem hp hroot')
  · by_cases hroot' : root' = ""
    · rw [if_neg (by simpa using hroot), if_pos (beq_iff_eq.mpr hroot')] at h
      exact absurd (h ▸ List.mem_cons_self) (hp.root_not_mem hq hroot)
    · simpa [hroot, hroot'] using h

end Backfield.Path

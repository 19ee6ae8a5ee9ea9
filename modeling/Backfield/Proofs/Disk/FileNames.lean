import Backfield.Proofs.Disk.Places
import Backfield.Trace

/-!
# Names of files as paths

A name that is joined to a directory is read as a path first, which may leave out part of it.  So
two names may lead to one place.

* `Path.ofText_of_not_mem` says that a name without a slash is one component.
* `Path.IsPlain` collects what a name needs so that its path tells it, and
  `eq_of_locate_of_isPlain` says that two such names lead to different places of a directory.
* `eq_parts_of_locate` says where a path leads that starts at a root.
-/

namespace Backfield

namespace Path

/-! ## Names without slashes -/

theorem splitFrom_of_not_mem {text : List Char} (h : '/' ∉ text) (part : List Char) :
    splitFrom part text = [part.reverse ++ text] := by
  induction text generalizing part with
  | nil => rw [splitFrom, List.append_nil]
  | cons c rest ih =>
    rw [List.mem_cons, not_or] at h
    have hc : ¬(c == '/') = true := by simpa using Ne.symm h.1
    rw [splitFrom, if_neg hc, ih h.2, List.reverse_cons, List.append_assoc]
    rfl

theorem rootOf_of_not_mem {text : List Char} (h : '/' ∉ text) : rootOf text = "" := by
  cases text with
  | nil => rfl
  | cons c rest =>
    rw [List.mem_cons, not_or] at h
    have hc : ¬(c == '/') = true := by simpa using Ne.symm h.1
    rw [rootOf, List.takeWhile_cons, if_neg hc]
    rfl

/-- A name without a slash is a path of one component, unless it names nothing. -/
theorem ofText_of_not_mem {name : String} (hslash : '/' ∉ name.toList)
    (hpart : isPart name = true) : ofText name = ⟨"", [name]⟩ := by
  rw [ofText, rootOf_of_not_mem hslash, splitFrom_of_not_mem hslash]
  simp [hpart]

/-! ## Names that their paths tell -/

/-- The name is relative, spelled as its path is, and leads nowhere up. -/
structure IsPlain (name : String) : Prop where
  root : (ofText name).root = ""
  text : (ofText name).text = name
  dots : ".." ∉ (ofText name).parts

theorem isPlain_of_not_mem {name : String} (hslash : '/' ∉ name.toList)
    (hpart : isPart name = true) (hdots : name ≠ "..") : IsPlain name := by
  have hpath := ofText_of_not_mem hslash hpart
  refine ⟨by rw [hpath], ?_, ?_⟩
  · rw [hpath, text]
    simp
  · rw [hpath, List.mem_singleton]
    exact hdots.symm

/-- The path starts at a root, and leads nowhere up. -/
structure IsFull (p : Path) : Prop where
  root : p.root ≠ ""
  dots : ".." ∉ p.parts

theorem join_of_root {base p : Path} (hroot : p.root = "") :
    base.join p = ⟨base.root, base.parts ++ p.parts⟩ := by
  rw [join, if_pos (beq_iff_eq.mpr hroot)]

end Path

namespace Disk

variable {disk : Disk} {cwd key : Key} {directory : Path}

/-- Without double dots components lead straight down. -/
theorem eq_append_of_walk {here : Key} {parts : List String} (hdots : ".." ∉ parts)
    (hwalk : disk.walk here parts = .ok key) : key = here ++ parts := by
  induction parts generalizing here with
  | nil =>
    rw [List.append_nil]
    exact (Except.ok.inj hwalk).symm
  | cons part rest ih =>
    rw [List.mem_cons, not_or] at hdots
    rw [← List.singleton_append, walk_append] at hwalk
    obtain ⟨next, hnext, hrest⟩ := exists_of_bind_eq_ok hwalk
    rcases walk_singleton hnext with ⟨hup, -⟩ | ⟨-, hdown⟩
    · exact absurd hup.symm hdots.1
    · rw [ih hdots.2 hrest, hdown, List.append_assoc]
      rfl

/-- A full path leads to the key of its components. -/
theorem eq_parts_of_locate {p : Path} (hfull : p.IsFull) (hlocate : disk.locate cwd p = .ok key) :
    key = p.parts := by
  rw [locate, if_neg fun hroot => hfull.root (beq_iff_eq.mp hroot)] at hlocate
  have hkey := eq_append_of_walk hfull.dots hlocate
  rw [List.nil_append] at hkey
  exact hkey

/-- A plain name leads from the place of a directory straight down. -/
theorem exists_of_locate_join {name : String} (hname : Path.IsPlain name)
    (hlocate : disk.locate cwd (directory.join (Path.ofText name)) = .ok key) :
    ∃ base, disk.locate cwd directory = .ok base ∧ key = base ++ (Path.ofText name).parts := by
  rw [Path.join_of_root hname.root, locate, walk_append] at hlocate
  obtain ⟨base, hbase, hrest⟩ := exists_of_bind_eq_ok hlocate
  exact ⟨base, hbase, eq_append_of_walk hname.dots hrest⟩

/-- Two plain names that lead to one place of a directory are the same. -/
theorem eq_of_locate_of_isPlain {name other : String} (hname : Path.IsPlain name)
    (hother : Path.IsPlain other)
    (hlocate : disk.locate cwd (directory.join (Path.ofText name)) = .ok key)
    (hlocate' : disk.locate cwd (directory.join (Path.ofText other)) = .ok key) :
    name = other := by
  obtain ⟨base, hbase, hkey⟩ := exists_of_locate_join hname hlocate
  obtain ⟨base', hbase', hkey'⟩ := exists_of_locate_join hother hlocate'
  rw [hbase] at hbase'
  rw [hkey, Except.ok.inj hbase', List.append_cancel_left_eq] at hkey'
  have hpaths : Path.ofText name = Path.ofText other := by
    calc Path.ofText name
        = ⟨(Path.ofText name).root, (Path.ofText name).parts⟩ := rfl
      _ = ⟨(Path.ofText other).root, (Path.ofText other).parts⟩ := by
          rw [hname.root, hother.root, hkey']
      _ = Path.ofText other := rfl
  rw [← hname.text, hpaths, hother.text]

end Disk

end Backfield

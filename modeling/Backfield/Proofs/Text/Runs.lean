import Mathlib.Data.List.Chain
import Backfield.Proofs.Text.Lines
import Backfield.Proofs.Text.Visible

/-!
# Runs of visible characters

Collapsing a text leaves its runs of visible characters, with one space between two of them.

* `HasRuns` says what the runs of a text are, and `runs` finds them.  `hasRuns_iff` says that a text
  has these runs and no others.
* `HasRuns.tighten_eq` goes over the runs one by one, and `collapse_eq_runs` is what comes of it.
* `IsNeat` says what a text looks like whose runs are joined by spaces, and `isNeat_collapse` that a
  collapsed text looks so.
-/

namespace Backfield.Text

variable {gap word rest text : List Char} {words : List (List Char)}

/-! ## Runs -/

/-- A text between its gaps.  Each run is as long as it can be: it begins after a gap or at the
front, and a blank follows it or nothing. -/
inductive HasRuns : List Char → List (List Char) → Prop
  | blank {gap : List Char} (hgap : visible gap = []) : HasRuns gap []
  | run {gap word rest : List Char} {words : List (List Char)} (hgap : visible gap = [])
      (hne : word ≠ []) (hink : ∀ c ∈ word, isBlank c = false)
      (hend : rest = [] ∨ BeginsBlank rest) (h : HasRuns rest words) :
      HasRuns (gap ++ (word ++ rest)) (word :: words)

/-- The runs of a text.  A visible character goes on with the run after it, if one follows it. -/
def runs : List Char → List (List Char)
  | [] => []
  | c :: rest =>
    if isBlank c then runs rest
    else if rest.head?.any (!isBlank ·) then (runs rest).modifyHead (c :: ·)
    else [c] :: runs rest

theorem runs_append_gap (rest : List Char) (hgap : visible gap = []) :
    runs (gap ++ rest) = runs rest := by
  rw [visible_eq_nil_iff] at hgap
  induction gap with
  | nil => rfl
  | cons c gap ih =>
    rw [List.cons_append, runs, if_pos (hgap c List.mem_cons_self),
      ih fun x hx => hgap x (List.mem_cons_of_mem _ hx)]

theorem runs_append_word (hne : word ≠ []) (hink : ∀ c ∈ word, isBlank c = false)
    (hend : rest = [] ∨ BeginsBlank rest) : runs (word ++ rest) = word :: runs rest := by
  induction word with
  | nil => exact absurd rfl hne
  | cons c word ih =>
    have hc : ¬isBlank c = true := by simp [hink c List.mem_cons_self]
    rw [List.cons_append, runs, if_neg hc]
    cases word with
    | nil =>
      have hhead : rest.head?.any (!isBlank ·) = false := by
        rcases hend with rfl | ⟨d, hd, hblank⟩
        · rfl
        · rw [Option.mem_def.mp hd]
          simp [hblank]
      rw [List.nil_append, hhead]
      rfl
    | cons d word =>
      have hrest := fun x hx => hink x (List.mem_cons_of_mem _ hx)
      rw [ih (List.cons_ne_nil _ _) hrest, if_pos (by simp [hrest d List.mem_cons_self])]
      rfl

theorem HasRuns.eq_runs (h : HasRuns text words) : words = runs text := by
  induction h with
  | @blank gap hgap => rw [← List.append_nil gap, runs_append_gap [] hgap, runs]
  | run hgap hne hink hend _ ih => rw [runs_append_gap _ hgap, runs_append_word hne hink hend, ih]

/-- A blank in front is part of the first gap. -/
theorem HasRuns.cons_blank {c : Char} (hc : isBlank c = true) (h : HasRuns text words) :
    HasRuns (c :: text) words := by
  cases h with
  | blank hgap => exact .blank ((visible_cons_blank _ hc).trans hgap)
  | run hgap hne hink hend h =>
    rw [← List.cons_append]
    exact .run ((visible_cons_blank _ hc).trans hgap) hne hink hend h

theorem hasRuns_runs (text : List Char) : HasRuns text (runs text) := by
  induction text with
  | nil => exact .blank rfl
  | cons c rest ih =>
    rw [runs]
    cases hc : isBlank c with
    | true => exact ih.cons_blank hc
    | false =>
      have hsingle : ∀ d ∈ [c], isBlank d = false := List.forall_mem_singleton.mpr hc
      rw [if_neg Bool.false_ne_true]
      split
      · rename_i hhead
        obtain ⟨d, hd, hink⟩ := (Option.any_eq_true _ _).mp hhead
        generalize runs rest = words at ih
        cases ih with
        | blank hgap =>
          have hblank := visible_eq_nil_iff.mp hgap d (List.mem_of_mem_head? hd)
          simp [hblank] at hink
        | @run gap word more words hgap hne hword hend h =>
          -- The gap before the first run is empty, so this run can be made longer.
          cases gap with
          | nil =>
            refine .run visible_nil (List.cons_ne_nil _ _) ?_ hend h
            exact List.forall_mem_cons.mpr ⟨hc, hword⟩
          | cons e gap =>
            obtain rfl : e = d := Option.some.inj hd
            have hblank := visible_eq_nil_iff.mp hgap e List.mem_cons_self
            simp [hblank] at hink
      · rename_i hhead
        refine .run visible_nil (List.cons_ne_nil _ _) hsingle ?_ ih
        cases rest with
        | nil => exact Or.inl rfl
        | cons d rest => exact Or.inr ⟨d, rfl, by simpa using hhead⟩

/-- A text has its runs and no others. -/
theorem hasRuns_iff : HasRuns text words ↔ words = runs text :=
  ⟨HasRuns.eq_runs, fun h => h ▸ hasRuns_runs text⟩

example : runs "\u2003A .\u00a0Bc\n".toList = [['A'], ['.'], ['B', 'c']] := by decide

theorem HasRuns.forall_mem (h : HasRuns text words) :
    ∀ word ∈ words, word ≠ [] ∧ ∀ c ∈ word, isBlank c = false := by
  induction h with
  | blank => exact fun word hword => by cases hword
  | run _ hne hink _ _ ih => exact List.forall_mem_cons.mpr ⟨⟨hne, hink⟩, ih⟩

/-! ## Collapsed texts -/

theorem intercalate_eq_nil_iff (hwords : ∀ word ∈ words, word ≠ []) :
    [' '].intercalate words = [] ↔ words = [] := by
  cases words with
  | nil => exact iff_of_true rfl rfl
  | cons word words =>
    refine iff_of_false (fun hnil => hwords word List.mem_cons_self ?_) (List.cons_ne_nil _ _)
    cases words with
    | nil => simpa using hnil
    | cons other words =>
      rw [List.intercalate_cons_of_ne_nil (List.cons_ne_nil _ _)] at hnil
      exact (List.append_eq_nil_iff.mp (List.append_eq_nil_iff.mp hnil).1).1

/-- What is left of a text is its runs with spaces between them. -/
theorem HasRuns.tighten_eq (h : HasRuns text words) :
    tighten true text = [' '].intercalate words := by
  induction h with
  | @blank gap hgap =>
    rw [← List.append_nil gap, tighten_append_gap [] (visible_eq_nil_iff.mp hgap), tighten_nil]
    rfl
  | @run gap word rest words hgap hne hink hend h ih =>
    rw [tighten_append_gap _ (visible_eq_nil_iff.mp hgap), tighten_append true rest hne hink]
    rcases hend with rfl | ⟨c, hhead, hc⟩
    · obtain rfl : words = [] := h.eq_runs
      rw [tighten_nil, List.append_nil]
      simp
    · obtain ⟨more, rfl⟩ := List.head?_eq_some_iff.mp hhead
      have hempty := intercalate_eq_nil_iff fun other hother => (h.forall_mem other hother).1
      rw [tighten_blank more hc, ← tighten_pending more hc, ih]
      by_cases hnil : words = []
      · simp [hnil]
      · rw [if_neg (mt hempty.mp hnil), List.intercalate_cons_of_ne_nil hnil, List.append_assoc]
        rfl

theorem collapse_eq_runs (text : String) :
    collapse text = " ".intercalate ((runs text.toList).map String.ofList) := by
  rw [collapse_eq_tighten, (hasRuns_runs text.toList).tighten_eq, ← String.toList_inj,
    String.toList_intercalate, String.toList_ofList, List.map_map]
  simp [Function.comp_def]

/-! ## What a collapsed text looks like -/

/-- A text on one line that has no blanks at its ends, no two blanks in a row, and no blanks but
spaces. -/
structure IsNeat (text : List Char) : Prop where
  head : ∀ c ∈ text.head?, isBlank c = false
  last : ∀ c ∈ text.getLast?, isBlank c = false
  single : text.IsChain fun c d => isBlank c = true → isBlank d = false
  spaces : ∀ c ∈ text, isBlank c = true → c = ' '
  isUnbroken : IsUnbroken text

theorem isBlank_head_tighten (text : List Char) :
    ∀ c ∈ (tighten true text).head?, isBlank c = false := by
  induction text with
  | nil => exact fun c hc => by cases hc
  | cons c rest ih =>
    cases hc : isBlank c with
    | true => rwa [tighten_pending rest hc]
    | false =>
      rw [tighten_ink true rest hc]
      rintro d ⟨⟩
      exact hc

theorem isChain_tighten (pending : Bool) (text : List Char) :
    (tighten pending text).IsChain fun c d => isBlank c = true → isBlank d = false := by
  induction text generalizing pending with
  | nil => exact List.isChain_nil
  | cons c rest ih =>
    cases hc : isBlank c with
    | true =>
      cases pending with
      | true =>
        rw [tighten_pending rest hc]
        exact ih true
      | false =>
        rw [tighten_blank rest hc]
        split
        · exact List.isChain_nil
        · exact List.isChain_cons.mpr ⟨fun d hd _ => isBlank_head_tighten rest d hd, ih true⟩
    | false =>
      rw [tighten_ink pending rest hc]
      refine List.isChain_cons.mpr ⟨fun d _ hblank => ?_, ih false⟩
      rw [hc] at hblank
      cases hblank

theorem isBlank_getLast_dropBlanksEnd (text : List Char) :
    ∀ c ∈ (dropBlanksEnd text).getLast?, isBlank c = false := by
  intro c hc
  rw [dropBlanksEnd, List.getLast?_reverse] at hc
  have hstop := List.head?_dropWhile_not isBlank text.reverse
  rw [hc] at hstop
  simpa using hstop

theorem isNeat_collapse (text : String) : IsNeat (collapse text).toList := by
  rw [collapse_eq_tighten, String.toList_ofList]
  exact {
    head := isBlank_head_tighten _
    last := isBlank_getLast_dropBlanksEnd _
    single := isChain_tighten _ _
    spaces := eq_space_of_mem_tighten
    isUnbroken := isUnbroken_of_spaces eq_space_of_mem_tighten }

/-- A collapsed text is one line. -/
theorem isUnbroken_collapse (text : String) : IsUnbroken (collapse text).toList :=
  (isNeat_collapse text).isUnbroken

end Backfield.Text

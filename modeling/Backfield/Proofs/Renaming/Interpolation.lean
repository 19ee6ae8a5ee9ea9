import Backfield.Proofs.Renaming.Literals

/-!
# Interpolated strings and renaming

An interpolated string may hold code, and the code strings again.  What is open while it is read
does not depend on the names at the ends of lines.

* `stepsOn_step` says that a step takes a character at least, so that there is always enough fuel.
* `stepsAlike_step` is one step in two texts that differ in names, which may end within a name of
  each.
* `closesAlike` is the run, by induction on the length of the first text, with `closesAlike_cons` as
  its step.
-/

namespace Backfield.CSharp.Literal

variable {text other : List Char}

/-! ## Openings -/

/-- Opening and closing such a string takes a character at least. -/
def Style.IsProper : Style → Prop
  | raw braces quotes => 0 < braces ∧ 0 < quotes
  | _ => True

theorem opensInterpolated?_cons (dollars : Nat) (c : Char) (rest : List Char) :
    opensInterpolated? dollars (c :: rest) =
      if c = '@' ∧ rest.head? = some '"' then some (.verbatim, rest.tail)
      else if c = '"' then
        if 3 ≤ runLength '"' (c :: rest) then
          some (.raw dollars (runLength '"' (c :: rest)),
            (c :: rest).drop (runLength '"' (c :: rest)))
        else if dollars = 1 then some (.regular, rest)
        else none
      else none := by
  unfold opensInterpolated?
  split
  · rename_i heq
    obtain ⟨rfl, rfl⟩ := List.cons.inj heq
    simp
  · rename_i heq
    obtain ⟨rfl, rfl⟩ := List.cons.inj heq
    have hat : ¬('"' = '@' ∧ rest.head? = some '"') := fun h => absurd h.1 (by decide)
    rw [if_neg hat, if_pos rfl]
    simp only [beq_iff_eq]
  · rename_i hverbatim hquote
    rw [if_neg, if_neg]
    · rintro rfl
      exact hquote _ rfl
    · rintro ⟨rfl, hd⟩
      obtain ⟨more, rfl⟩ := List.head?_eq_some_iff.mp hd
      exact hverbatim _ rfl

theorem interpolated?_cons (c : Char) (rest : List Char) :
    interpolated? (c :: rest) =
      if c = '@' ∧ rest.head? = some '$' ∧ rest.tail.head? = some '"' then
        some (.verbatim, rest.tail.tail)
      else if c = '$' then
        opensInterpolated? (runLength '$' (c :: rest))
          ((c :: rest).drop (runLength '$' (c :: rest)))
      else none := by
  unfold interpolated?
  split
  · rename_i heq
    obtain ⟨rfl, rfl⟩ := List.cons.inj heq
    simp
  · rename_i heq
    obtain ⟨rfl, rfl⟩ := List.cons.inj heq
    simp
  · rename_i hverbatim hdollar
    rw [if_neg, if_neg]
    · rintro rfl
      exact hdollar _ rfl
    · rintro ⟨rfl, hd, hq⟩
      obtain ⟨more, rfl⟩ := List.head?_eq_some_iff.mp hd
      obtain ⟨more, rfl⟩ := List.head?_eq_some_iff.mp hq
      exact hverbatim _ rfl

theorem advances_opensInterpolated? {dollars : Nat} {style : Style} {rest : List Char}
    (hdollars : 0 < dollars) (h : opensInterpolated? dollars text = some (style, rest)) :
    Advances text rest ∧ style.IsProper := by
  cases text with
  | nil => cases h
  | cons c text =>
    rw [opensInterpolated?_cons] at h
    split_ifs at h with hverbatim hquote hlong hone
    · obtain ⟨rfl, rfl⟩ := Prod.mk.inj (Option.some.inj h)
      exact ⟨advances_cons (suffix_tail _), trivial⟩
    · obtain ⟨rfl, rfl⟩ := Prod.mk.inj (Option.some.inj h)
      have hpos : 0 < runLength '"' (c :: text) := hquote ▸ runLength_pos _ _
      exact ⟨advances_drop c text hpos, hdollars, hpos⟩
    · obtain ⟨rfl, rfl⟩ := Prod.mk.inj (Option.some.inj h)
      exact ⟨advances_cons (List.suffix_refl _), trivial⟩

theorem advances_interpolated? {style : Style} {rest : List Char}
    (h : interpolated? text = some (style, rest)) : Advances text rest ∧ style.IsProper := by
  cases text with
  | nil => cases h
  | cons c text =>
    rw [interpolated?_cons] at h
    split_ifs at h with hverbatim hdollar
    · obtain ⟨rfl, rfl⟩ := Prod.mk.inj (Option.some.inj h)
      exact ⟨advances_cons ((suffix_tail _).trans (suffix_tail _)), trivial⟩
    · have hpos : 0 < runLength '$' (c :: text) := hdollar ▸ runLength_pos _ _
      obtain ⟨hrest, hproper⟩ := advances_opensInterpolated? hpos h
      have hdrop := advances_drop c text hpos
      exact ⟨⟨hrest.1.trans hdrop.1, hrest.2.trans hdrop.2⟩, hproper⟩

/-- Neither text opens with an interpolated string, or both do with one of the same style. -/
abbrev OpensAlike (found other : Option (Style × List Char)) : Prop :=
  Option.Rel (fun a b => a.1 = b.1 ∧ Renames a.2 b.2) found other

theorem opensAlike_opensInterpolated? (dollars : Nat) (h : Renames text other) :
    OpensAlike (opensInterpolated? dollars text) (opensInterpolated? dollars other) := by
  have hnone : ∀ rest : List Char, opensInterpolated? dollars (' ' :: rest) = none := fun _ => rfl
  cases h with
  | nil => exact .none
  | name hname hname' hend h =>
    rw [hnone, hnone]
    exact .none
  | @keep c text other h =>
    have hwhole : Renames (c :: text) (c :: other) := .keep c h
    rw [opensInterpolated?_cons, opensInterpolated?_cons, ← h.head?_eq,
      ← runLength_eq (by decide) hwhole]
    split_ifs with hverbatim hquote hlong hone
    · exact .some ⟨rfl, h.tail (by decide) hverbatim.2⟩
    · exact .some ⟨rfl, renames_drop (by decide) hwhole (Nat.le_refl _)⟩
    · exact .some ⟨rfl, h⟩
    · exact .none
    · exact .none

theorem opensAlike_interpolated? (h : Renames text other) :
    OpensAlike (interpolated? text) (interpolated? other) := by
  have hnone : ∀ rest : List Char, interpolated? (' ' :: rest) = none := fun _ => rfl
  cases h with
  | nil => exact .none
  | name hname hname' hend h =>
    rw [hnone, hnone]
    exact .none
  | @keep c text other h =>
    have hwhole : Renames (c :: text) (c :: other) := .keep c h
    by_cases hhead : text.head? = some '$'
    · have htail := h.tail (by decide) hhead
      rw [interpolated?_cons, interpolated?_cons, ← h.head?_eq, ← htail.head?_eq,
        ← runLength_eq (by decide) hwhole]
      split_ifs with hverbatim hdollar
      · exact .some ⟨rfl, htail.tail (by decide) hverbatim.2.2⟩
      · exact opensAlike_opensInterpolated? _ (renames_drop (by decide) hwhole (Nat.le_refl _))
      · exact .none
    · have hverbatim : ∀ {p : Prop}, ¬(c = '@' ∧ text.head? = some '$' ∧ p) :=
        fun hopens => hhead hopens.2.1
      rw [interpolated?_cons, interpolated?_cons, ← h.head?_eq,
        ← runLength_eq (c := '$') (by decide) hwhole, if_neg hverbatim, if_neg hverbatim]
      split_ifs
      · exact opensAlike_opensInterpolated? _ (renames_drop (by decide) hwhole (Nat.le_refl _))
      · exact .none

/-! ## Steps -/

def Frame.IsProper : Frame → Prop
  | .text style => style.IsProper
  | .hole braces => 0 < braces
  | .format braces => 0 < braces
  | .bracket => True

/-- One step, whatever is open. -/
def step (frame : Frame) (frames : List Frame) (text : List Char) : Step :=
  match frame with
  | .text style => stepText style frames text
  | .hole braces => stepCode false braces (frame :: frames) frames text
  | .bracket => stepCode true 1 (frame :: frames) frames text
  | .format braces => stepFormat braces (frame :: frames) frames text

theorem afterFrames_succ (fuel : Nat) (frame : Frame) (frames : List Frame) (text : List Char) :
    afterFrames (fuel + 1) (frame :: frames) text =
      (step frame frames text).bind fun next => afterFrames fuel next.1 next.2 := by
  cases frame with
  | text style => rfl
  | hole braces => rfl
  | format braces => rfl
  | bracket => rfl

theorem afterPlain?_of_isInert {c : Char} (rest : List Char) (hc : isInert c = true) :
    afterPlain? (c :: rest) = none := by
  have hne := fun {d : Char} => ne_of_isInert (d := d) hc
  rw [afterPlain?_cons, if_neg (hne (by decide)), if_neg (hne (by decide)),
    if_neg fun h => hne (by decide) h.1, if_neg fun h => hne (by decide) h.1,
    if_neg fun h => hne (by decide) h.1]

theorem interpolated?_of_isInert {c : Char} (rest : List Char) (hc : isInert c = true) :
    interpolated? (c :: rest) = none := by
  have hne := fun {d : Char} => ne_of_isInert (d := d) hc
  rw [interpolated?_cons, if_neg fun h => hne (by decide) h.1, if_neg (hne (by decide))]

/-- A character without a meaning is passed over. -/
theorem step_of_isInert {c : Char} (frame : Frame) (frames : List Frame) (rest : List Char)
    (hc : isInert c = true) : step frame frames (c :: rest) = some (frame :: frames, rest) := by
  have hne : ∀ d ∈ signs, c ≠ d := fun d => ne_of_isInert hc
  simp only [signs, List.forall_mem_cons] at hne
  cases frame with
  | text style => cases style <;> simp [step, stepText, hne]
  | hole braces =>
    simp [step, stepCode, interpolated?_of_isInert rest hc, afterPlain?_of_isInert rest hc, hne]
  | bracket =>
    simp [step, stepCode, interpolated?_of_isInert rest hc, afterPlain?_of_isInert rest hc, hne]
  | format braces => simp [step, stepFormat, hne]

theorem afterFrames_append {fuel : Nat} (frame : Frame) (frames : List Frame) {word : List Char}
    (rest : List Char) (hword : ∀ c ∈ word, isInert c = true) (hfuel : word.length ≤ fuel) :
    afterFrames fuel (frame :: frames) (word ++ rest) =
      afterFrames (fuel - word.length) (frame :: frames) rest := by
  induction word generalizing fuel with
  | nil => rfl
  | cons c word ih =>
    obtain ⟨fuel, rfl⟩ := Nat.exists_eq_add_of_le' hfuel
    rw [List.length_cons, ← Nat.add_assoc, List.cons_append, afterFrames_succ,
      step_of_isInert frame frames _ (hword c List.mem_cons_self), Option.bind_some,
      ih (fun d hd => hword d (List.mem_cons_of_mem _ hd)) (by omega), Nat.add_sub_add_right]

/-! ## What a step reads -/

/-- A step takes a character at least, and what is open then can be closed. -/
def StepsOn (text : List Char) (next : List Frame × List Char) : Prop :=
  Advances text next.2 ∧ ∀ frame ∈ next.1, frame.IsProper

theorem stepsOn_stepText {style : Style} {frames : List Frame} {next : List Frame × List Char}
    (hstyle : style.IsProper) (hframes : ∀ frame ∈ frames, frame.IsProper)
    (h : stepText style frames text = some next) : StepsOn text next := by
  have hhere : ∀ frame ∈ Frame.text style :: frames, frame.IsProper :=
    List.forall_mem_cons.mpr ⟨hstyle, hframes⟩
  have hrun : ∀ (c d : Char) (text : List Char), (c == d) = true → 0 < runLength d (c :: text) :=
    fun c d text hc => beq_iff_eq.mp hc ▸ runLength_pos _ _
  cases text with
  | nil => cases style <;> cases h
  | cons c text =>
    have htail : Advances (c :: text) (text.drop 1) := advances_cons (List.drop_suffix 1 text)
    have hrest : Advances (c :: text) text := advances_cons (List.suffix_refl text)
    cases style with
    | raw braces quotes =>
      dsimp only [stepText] at h
      split_ifs at h with hquote hlong hbrace hhole
      · cases h
        exact ⟨advances_drop _ _ hstyle.2, hframes⟩
      · cases h
        exact ⟨advances_drop _ _ (hrun _ _ _ hquote), hhere⟩
      · cases h
        exact ⟨advances_drop _ _ (hrun _ _ _ hbrace),
          List.forall_mem_cons.mpr ⟨hstyle.1, hhere⟩⟩
      · cases h
        exact ⟨advances_drop _ _ (hrun _ _ _ hbrace), hhere⟩
      · cases h
        exact ⟨hrest, hhere⟩
    | regular =>
      dsimp only [stepText] at h
      split_ifs at h
      all_goals cases h
      · exact ⟨htail, hhere⟩
      · exact ⟨hrest, hframes⟩
      · exact ⟨htail, hhere⟩
      · exact ⟨hrest, List.forall_mem_cons.mpr ⟨Nat.one_pos, hhere⟩⟩
      · exact ⟨htail, hhere⟩
      · exact ⟨hrest, hhere⟩
    | verbatim =>
      dsimp only [stepText] at h
      split_ifs at h
      all_goals cases h
      · exact ⟨htail, hhere⟩
      · exact ⟨hrest, hframes⟩
      · exact ⟨htail, hhere⟩
      · exact ⟨hrest, List.forall_mem_cons.mpr ⟨Nat.one_pos, hhere⟩⟩
      · exact ⟨htail, hhere⟩
      · exact ⟨hrest, hhere⟩

theorem stepsOn_stepCode {inner : Bool} {braces : Nat} {here frames : List Frame}
    {next : List Frame × List Char} (hbraces : 0 < braces)
    (hhere : ∀ frame ∈ here, frame.IsProper) (hframes : ∀ frame ∈ frames, frame.IsProper)
    (h : stepCode inner braces here frames text = some next) : StepsOn text next := by
  unfold stepCode at h
  split at h
  · rename_i style rest hopens
    obtain ⟨hrest, hstyle⟩ := advances_interpolated? hopens
    cases h
    exact ⟨hrest, List.forall_mem_cons.mpr ⟨hstyle, hhere⟩⟩
  · split at h
    · rename_i rest? hplain
      obtain ⟨rest, rfl, rfl⟩ := Option.map_eq_some_iff.mp h
      exact ⟨advances_afterPlain? hplain, hhere⟩
    · split at h
      · cases h
      · cases h
        exact ⟨advances_cons (List.suffix_cons _ _), hhere⟩
      · have hrest : ∀ (c : Char) (rest : List Char), Advances (c :: rest) rest :=
          fun _ rest => advances_cons (List.suffix_refl rest)
        split_ifs at h
        all_goals cases h
        · exact ⟨hrest _ _, List.forall_mem_cons.mpr ⟨trivial, hhere⟩⟩
        · exact ⟨hrest _ _, hframes⟩
        · exact ⟨hrest _ _, hhere⟩
        · exact ⟨advances_drop _ _ hbraces, hframes⟩
        · exact ⟨hrest _ _, List.forall_mem_cons.mpr ⟨hbraces, hframes⟩⟩
        · exact ⟨hrest _ _, hhere⟩

theorem stepsOn_stepFormat {braces : Nat} {here frames : List Frame}
    {next : List Frame × List Char} (hbraces : 0 < braces)
    (hhere : ∀ frame ∈ here, frame.IsProper) (hframes : ∀ frame ∈ frames, frame.IsProper)
    (h : stepFormat braces here frames text = some next) : StepsOn text next := by
  cases text with
  | nil => cases h
  | cons c rest =>
    dsimp only [stepFormat] at h
    split_ifs at h
    · cases h
      exact ⟨advances_drop _ _ hbraces, hframes⟩
    · cases h
      exact ⟨advances_cons (List.suffix_refl rest), hhere⟩

theorem stepsOn_step {frame : Frame} {frames : List Frame} {next : List Frame × List Char}
    (hproper : ∀ f ∈ frame :: frames, f.IsProper) (h : step frame frames text = some next) :
    StepsOn text next := by
  obtain ⟨hframe, hframes⟩ := List.forall_mem_cons.mp hproper
  cases frame with
  | text style => exact stepsOn_stepText hframe hframes h
  | hole braces => exact stepsOn_stepCode hframe hproper hframes h
  | bracket => exact stepsOn_stepCode Nat.one_pos hproper hframes h
  | format braces => exact stepsOn_stepFormat hframe hproper hframes h

/-! ## Steps in both texts -/

/-- The texts go on alike, or in a name of each. -/
inductive Resumes : List Char → List Char → Prop
  | same {text other : List Char} (h : Renames text other) : Resumes text other
  | name {name name' text other : List Char} (hname : IsCapitalWord name)
      (hname' : IsCapitalWord name') (hend : Text.BeginsLineEnd text) (h : Renames text other) :
      Resumes (name ++ text) (name' ++ other)

theorem Resumes.of_tail (h : Renames text other) : Resumes (text.drop 1) (other.drop 1) := by
  cases h with
  | nil => exact .same .nil
  | keep c h => exact .same h
  | name hname hname' hend h => exact .name hname hname' hend h

/-- Both steps fail, or the same is open after them.  They may end in names only if something
is open. -/
abbrev StepsAlike (found other : Step) : Prop :=
  Option.Rel (fun a b => a.1 = b.1 ∧ (a.1 = [] → Renames a.2 b.2) ∧ Resumes a.2 b.2) found other

theorem stepsAlike_some (frames : List Frame) (h : Renames text other) :
    StepsAlike (some (frames, text)) (some (frames, other)) :=
  .some ⟨rfl, fun _ => h, .same h⟩

theorem stepsAlike_stepText (style : Style) (frames : List Frame) {c : Char}
    (h : Renames text other) :
    StepsAlike (stepText style frames (c :: text)) (stepText style frames (c :: other)) := by
  have hwhole : Renames (c :: text) (c :: other) := .keep c h
  have hquotes := runLength_eq (c := '"') (by decide) hwhole
  have hbraces := runLength_eq (c := '\x7b') (by decide) hwhole
  have hdrop : ∀ {frame : Frame}, StepsAlike (some (frame :: frames, text.drop 1))
      (some (frame :: frames, other.drop 1)) := fun {frame} =>
    .some ⟨rfl, fun hnil => absurd hnil (List.cons_ne_nil _ _), .of_tail h⟩
  cases style with
  | raw braces quotes =>
    dsimp only [stepText]
    rw [← hquotes, ← hbraces]
    split_ifs with hquote hlong hbrace hhole
    · exact stepsAlike_some _ (renames_drop (c := '"') (by decide) hwhole hlong)
    · exact stepsAlike_some _ (renames_drop (c := '"') (by decide) hwhole (Nat.le_refl _))
    · exact stepsAlike_some _ (renames_drop (c := '\x7b') (by decide) hwhole (Nat.le_refl _))
    · exact stepsAlike_some _ (renames_drop (c := '\x7b') (by decide) hwhole (Nat.le_refl _))
    · exact stepsAlike_some _ h
  | regular =>
    dsimp only [stepText]
    rw [← h.head?_eq]
    split_ifs
    all_goals first | exact .none | exact stepsAlike_some _ h | exact hdrop
  | verbatim =>
    dsimp only [stepText]
    rw [← h.head?_eq]
    split_ifs
    all_goals first | exact .none | exact stepsAlike_some _ h | exact hdrop

theorem stepsAlike_stepFormat (braces : Nat) (here frames : List Frame) {c : Char}
    (h : Renames text other) :
    StepsAlike (stepFormat braces here frames (c :: text))
      (stepFormat braces here frames (c :: other)) := by
  have hwhole : Renames (c :: text) (c :: other) := .keep c h
  dsimp only [stepFormat]
  rw [← runLength_eq (c := '\x7d') (by decide) hwhole]
  split_ifs with hclose
  · rw [Bool.and_eq_true, decide_eq_true_eq] at hclose
    exact stepsAlike_some _ (renames_drop (c := '\x7d') (by decide) hwhole hclose.2)
  · exact stepsAlike_some _ h

/-- Reads on within a hole at a character that opens no literal. -/
def stepSymbol (inner : Bool) (braces : Nat) (here frames : List Frame) (c : Char)
    (rest : List Char) : Step :=
  if c = ':' ∧ rest.head? = some ':' then some (here, rest.tail)
  else if c == '(' || c == '[' || c == '\x7b' then some (.bracket :: here, rest)
  else if inner then
    if c == ')' || c == ']' || c == '\x7d' then some (frames, rest) else some (here, rest)
  else if c == '\x7d' then
    if braces ≤ runLength '\x7d' (c :: rest) then some (frames, (c :: rest).drop braces) else none
  else if c == ':' then some (.format braces :: frames, rest)
  else some (here, rest)

theorem stepCode_cons (inner : Bool) (braces : Nat) (here frames : List Frame) (c : Char)
    (rest : List Char) :
    stepCode inner braces here frames (c :: rest) =
      match interpolated? (c :: rest) with
      | some (style, after) => some (.text style :: here, after)
      | none =>
        match afterPlain? (c :: rest) with
        | some after? => after?.map (here, ·)
        | none => stepSymbol inner braces here frames c rest := by
  rw [stepCode.eq_def]
  cases interpolated? (c :: rest) with
  | some opened => rfl
  | none =>
    cases afterPlain? (c :: rest) with
    | some after? => rfl
    | none =>
      dsimp only
      split
      · rename_i heq
        cases heq
      · rename_i heq
        obtain ⟨rfl, rfl⟩ := List.cons.inj heq
        rfl
      · rename_i hcolons heq
        obtain ⟨rfl, rfl⟩ := List.cons.inj heq
        have hnot : ¬(c = ':' ∧ rest.head? = some ':') := by
          rintro ⟨rfl, hd⟩
          obtain ⟨more, rfl⟩ := List.head?_eq_some_iff.mp hd
          exact hcolons _ rfl rfl
        rw [stepSymbol, if_neg hnot]

theorem stepsAlike_stepCode (inner : Bool) (braces : Nat) (here frames : List Frame) {c : Char}
    (h : Renames text other) :
    StepsAlike (stepCode inner braces here frames (c :: text))
      (stepCode inner braces here frames (c :: other)) := by
  have hwhole : Renames (c :: text) (c :: other) := .keep c h
  have hopens := opensAlike_interpolated? hwhole
  have hplain := rel_afterPlain? hwhole
  rw [stepCode_cons, stepCode_cons]
  generalize interpolated? (c :: text) = opened at hopens
  generalize interpolated? (c :: other) = opened' at hopens
  cases hopens with
  | @some a b hrel =>
    obtain ⟨hstyle, hrest⟩ := hrel
    dsimp only
    rw [hstyle]
    exact stepsAlike_some _ hrest
  | none =>
    dsimp only
    generalize afterPlain? (c :: text) = found at hplain
    generalize afterPlain? (c :: other) = found' at hplain
    cases hplain with
    | some hrel =>
      cases hrel with
      | some hrest => exact stepsAlike_some _ hrest
      | none => exact .none
    | none =>
      dsimp only [stepSymbol]
      rw [← h.head?_eq, ← runLength_eq (c := '\x7d') (by decide) hwhole]
      split_ifs with hcolons hbracket hinner hclose hbrace hlong hcolon
      · exact stepsAlike_some _ (h.tail (by decide) hcolons.2)
      · exact stepsAlike_some _ h
      · exact stepsAlike_some _ h
      · exact stepsAlike_some _ h
      · exact stepsAlike_some _ (renames_drop (c := '\x7d') (by decide) hwhole hlong)
      · exact .none
      · exact stepsAlike_some _ h
      · exact stepsAlike_some _ h

theorem stepsAlike_step (frame : Frame) (frames : List Frame) {c : Char} (h : Renames text other) :
    StepsAlike (step frame frames (c :: text)) (step frame frames (c :: other)) := by
  cases frame with
  | text style => exact stepsAlike_stepText style frames h
  | hole braces => exact stepsAlike_stepCode false braces _ frames h
  | bracket => exact stepsAlike_stepCode true 1 _ frames h
  | format braces => exact stepsAlike_stepFormat braces _ frames h

theorem afterFrames_nil_right (fuel : Nat) (frame : Frame) (frames : List Frame) :
    afterFrames fuel (frame :: frames) [] = none := by
  cases fuel with
  | zero => rfl
  | succ fuel =>
    rw [afterFrames_succ]
    cases frame with
    | text style => cases style <;> rfl
    | hole braces => rfl
    | format braces => rfl
    | bracket => rfl

/-- The texts go on alike after what is open is closed, or both never close it. -/
def ClosesAlike (frames : List Frame) (text other : List Char) : Prop :=
  ∀ fuel more : Nat, text.length ≤ fuel → other.length ≤ more →
    EndsAlike (afterFrames fuel frames text) (afterFrames more frames other)

/-- A word without a meaning is passed over in both texts. -/
theorem ClosesAlike.append {frame : Frame} {frames : List Frame} {word word' : List Char}
    (h : ClosesAlike (frame :: frames) text other) (hword : ∀ c ∈ word, isInert c = true)
    (hword' : ∀ c ∈ word', isInert c = true) :
    ClosesAlike (frame :: frames) (word ++ text) (word' ++ other) := by
  intro fuel more hfuel hmore
  rw [List.length_append] at hfuel hmore
  rw [afterFrames_append frame frames text hword (by omega),
    afterFrames_append frame frames other hword' (by omega)]
  exact h _ _ (by omega) (by omega)

/-- One step in both texts, if they go on alike from where it leads. -/
theorem closesAlike_cons {frame : Frame} {frames : List Frame} {c : Char}
    (hproper : ∀ f ∈ frame :: frames, f.IsProper) (h : Renames text other)
    (hnext : ∀ {frames' : List Frame} {after after' : List Char},
      (∀ f ∈ frames', f.IsProper) → after.length < (c :: text).length →
      (frames' = [] → Renames after after') → Resumes after after' →
      ClosesAlike frames' after after') :
    ClosesAlike (frame :: frames) (c :: text) (c :: other) := by
  intro fuel more hfuel hmore
  obtain ⟨fuel, rfl⟩ := Nat.exists_eq_add_of_le' (Nat.le_of_add_left_le hfuel)
  obtain ⟨more, rfl⟩ := Nat.exists_eq_add_of_le' (Nat.le_of_add_left_le hmore)
  have halike := stepsAlike_step frame frames h (c := c)
  have hsteps : ∀ next, step frame frames (c :: text) = some next → _ := fun _ =>
    stepsOn_step hproper
  have hsteps' : ∀ next, step frame frames (c :: other) = some next → _ := fun _ =>
    stepsOn_step hproper
  rw [afterFrames_succ, afterFrames_succ]
  generalize step frame frames (c :: text) = found at halike hsteps
  generalize step frame frames (c :: other) = found' at halike hsteps'
  cases halike with
  | none => exact .none
  | @some next next' hrel =>
    obtain ⟨frames', after⟩ := next
    obtain ⟨frames'', after'⟩ := next'
    obtain ⟨rfl, hclosed, hresumes⟩ := hrel
    obtain ⟨hshorter, hproper'⟩ := hsteps _ rfl
    obtain ⟨hshorter', -⟩ := hsteps' _ rfl
    exact hnext hproper' hshorter.2 hclosed hresumes _ _
      (Nat.le_of_lt_succ (hshorter.2.trans_le hfuel))
      (Nat.le_of_lt_succ (hshorter'.2.trans_le hmore))

/-- Whatever is open, the texts go on alike after it is closed. -/
theorem closesAlike {frames : List Frame} (hproper : ∀ frame ∈ frames, frame.IsProper)
    (h : Renames text other) : ClosesAlike frames text other := by
  induction hlength : text.length using Nat.strong_induction_on generalizing text other frames with
  | _ n ih =>
    subst hlength
    cases frames with
    | nil =>
      intro fuel more _ _
      rw [afterFrames, afterFrames]
      exact .some h
    | cons frame frames =>
      cases h with
      | nil =>
        intro fuel more _ _
        rw [afterFrames_nil_right, afterFrames_nil_right]
        exact .none
      | @name first second text other hfirst hsecond hend h =>
        have hlt : text.length < (' ' :: (first ++ text)).length :=
          Nat.lt_succ_of_le (List.suffix_append first text).length_le
        rw [← List.cons_append, ← List.cons_append]
        exact (ih _ hlt hproper h rfl).append (isInert_of_mem_name hfirst)
          (isInert_of_mem_name hsecond)
      | keep c h =>
        refine closesAlike_cons hproper h fun {frames' _ _} hproper' hlt hclosed hresumes => ?_
        cases frames' with
        | nil => exact ih _ hlt hproper' (hclosed rfl) rfl
        | cons frame' frames' =>
          cases hresumes with
          | same h => exact ih _ hlt hproper' h rfl
          | @name first second after after' hfirst hsecond hend h =>
            have hword : ∀ {name : List Char}, IsCapitalWord name →
                ∀ c ∈ name, isInert c = true := fun hcapital c hc =>
              isInert_of_mem_name hcapital c (List.mem_cons_of_mem _ hc)
            have hshort := (List.suffix_append first after).length_le.trans_lt hlt
            exact (ih _ hshort hproper' h rfl).append (hword hfirst) (hword hsecond)

theorem suffix_afterFrames {frames : List Frame} {fuel : Nat} {rest : List Char}
    (hproper : ∀ frame ∈ frames, frame.IsProper) (h : afterFrames fuel frames text = some rest) :
    rest <:+ text := by
  induction fuel generalizing frames text with
  | zero =>
    cases frames with
    | nil =>
      rw [afterFrames] at h
      exact Option.some.inj h ▸ List.suffix_refl _
    | cons frame frames => cases h
  | succ fuel ih =>
    cases frames with
    | nil =>
      rw [afterFrames] at h
      exact Option.some.inj h ▸ List.suffix_refl _
    | cons frame frames =>
      rw [afterFrames_succ] at h
      obtain ⟨next, hstep, hrest⟩ := Option.bind_eq_some_iff.mp h
      obtain ⟨hnext, hproper'⟩ := stepsOn_step hproper hstep
      exact (ih hproper' hrest).trans hnext.1

end Backfield.CSharp.Literal

import Backfield.Proofs.Binding.Meanings
import Backfield.Proofs.CSharp.Names
import Backfield.Proofs.Scan.Selection

/-!
# The order in which an attribute is searched for

Where an attribute is looked for, said in terms of the parts of names: the parts of a namespace
are dropped from its end one by one, and the first part of a name may be an alias.

* `outward` lists a namespace and those around it; `enclosingSpaces_eq_outward` says that binding
  goes through them in this order.  The induction is on the parts of the namespace from the end.
* `searched` is the name that is searched for, and `attempts` and `attributeAttempts` are the full
  names that are tried for it.  They are made of the attribute and its scope alone.
* `bindAttribute_finds_first` is the result: an attribute means the first attempt that is
  known.
-/

namespace Backfield.Binding

open CSharp (partsOf intercalate_partsOf partsOf_ne_nil dot_not_mem_of_mem_partsOf)

/-! ## Parts of names -/

/-- The part before the first dot is the first part, and the others follow the dot. -/
theorem splitHead_of_partsOf {name first : String} {rest : List String}
    (h : partsOf name = first :: rest) : splitHead name = (first, ".".intercalate rest) := by
  have hfirst : '.' ∉ first.toList := dot_not_mem_of_mem_partsOf (h ▸ List.mem_cons_self)
  have hall : ∀ c ∈ first.toList, (c != '.') = true := by
    intro c hc
    rw [bne_iff_ne]
    rintro rfl
    exact hfirst hc
  have hname := intercalate_partsOf name
  rw [h] at hname
  cases rest with
  | nil =>
    rw [String.intercalate_singleton] at hname
    subst hname
    simp [splitHead, List.takeWhile_eq_self_iff.mpr hall, List.dropWhile_eq_nil_iff.mpr hall]
  | cons next rest =>
    have htext : name.toList = first.toList ++ '.' :: (".".intercalate (next :: rest)).toList := by
      rw [← hname, String.intercalate_cons_cons]
      simp
    rw [splitHead, htext, List.takeWhile_append_of_pos hall, List.dropWhile_append_of_pos hall]
    simp [-String.toList_intercalate]

/-! ## Namespaces from the inside to the outside -/

/-- A namespace and those around it, innermost first: all parts of its name, then all but the last
one, and so on as long as a name is left. -/
def outward (space : String) : List String :=
  ((partsOf space).inits.reverse.map fun parts => ".".intercalate parts).filter (· != "")

theorem reverse_inits {α : Type} {xs : List α} (hne : xs ≠ []) :
    xs.inits.reverse = xs :: xs.dropLast.inits.reverse := by
  obtain ⟨front, last, rfl⟩ := (List.eq_nil_or_concat' xs).resolve_left hne
  simp [List.inits_append]

theorem afterDots_of_not_mem {text : List Char} (h : '.' ∉ text) : afterDots text = [] := by
  induction text with
  | nil => rfl
  | cons c text ih =>
    rw [List.mem_cons, not_or] at h
    simp [afterDots, Ne.symm h.1, ih h.2]

theorem afterDots_append {part : List Char} (hpart : '.' ∉ part) (outer : List Char) :
    afterDots (part ++ '.' :: outer) =
      (if outer = [] then [] else [outer]) ++ afterDots outer := by
  induction part with
  | nil => cases outer <;> simp [afterDots]
  | cons c part ih =>
    rw [List.mem_cons, not_or] at hpart
    simp [afterDots, Ne.symm hpart.1, ih hpart.2]

/-- What follows the dots of a reversed name are the names of its first parts, reversed. -/
theorem map_afterDots {parts : List String} (hparts : ∀ part ∈ parts, '.' ∉ part.toList) :
    (afterDots (".".intercalate parts).toList.reverse).map
        (fun outer => String.ofList outer.reverse) =
      (parts.dropLast.inits.reverse.map fun parts => ".".intercalate parts).filter (· != "") := by
  induction parts using List.reverseRecOn with
  | nil => rfl
  | append_singleton front part ih =>
    have hpart : '.' ∉ part.toList.reverse := by
      simpa using hparts part (by simp)
    rw [List.dropLast_concat]
    by_cases hfront : front = []
    · subst hfront
      simp [afterDots_of_not_mem hpart]
    · have htext : (".".intercalate (front ++ [part])).toList.reverse =
          part.toList.reverse ++ '.' :: (".".intercalate front).toList.reverse := by
        rw [String.intercalate_append_of_ne_nil hfront (List.cons_ne_nil _ _)]
        simp
      have hmore := ih fun other hother => hparts other (List.mem_append_left _ hother)
      rw [htext, afterDots_append hpart, reverse_inits hfront, List.map_append, hmore,
        List.map_cons, List.filter_cons]
      by_cases hempty : ".".intercalate front = ""
      · simp [hempty]
      · simp [hempty, -String.toList_intercalate]

theorem enclosingSpaces_eq_outward (space : String) : enclosingSpaces space = outward space := by
  have hparts : ∀ part ∈ partsOf space, '.' ∉ part.toList :=
    fun _ hpart => dot_not_mem_of_mem_partsOf hpart
  have houter := map_afterDots hparts
  rw [intercalate_partsOf] at houter
  rw [outward, reverse_inits (partsOf_ne_nil space), List.map_cons, List.filter_cons, ← houter,
    intercalate_partsOf, enclosingSpaces]
  by_cases hempty : space = ""
  · subst hempty
    rfl
  · simp [hempty]

/-! ## Attempts -/

/-- The name that is searched for: without spaces, without the type arguments and without the
global mark, of which the flag tells whether it is there. -/
def searched (written : String) : WrittenName :=
  let bare := ((written.toList.filter (· != ' ')).splitOn '<').headD []
  match bare.dropPrefix? globalMark.toList with
  | some name => ⟨true, String.ofList name⟩
  | none => ⟨false, String.ofList bare⟩

/-- The full names that are tried for a name, in order.  A global name is a full name.  If the
first part of the name is an alias, nothing but its target is tried.  Otherwise the name is tried
in each enclosing namespace, then outside of them, and then in each namespace that is used. -/
def attempts (fragment : Fragment) (isGlobal : Bool) (name : String) : List String :=
  if isGlobal then [name]
  else
    let rest := ".".intercalate (partsOf name).tail
    match fragment.aliases.target? ((partsOf name).headD "") with
    | some target => [if rest == "" then target else target ++ "." ++ rest]
    | none =>
      (outward fragment.space).map (· ++ "." ++ name) ++ [name] ++
        fragment.usings.map (· ++ "." ++ name)

/-- The full names that are tried for an attribute: first those for its name with the suffix, then
those for the name as it is. -/
def attributeAttempts (fragment : Fragment) (written : String) : List String :=
  let name := searched written
  attempts fragment name.isGlobal (name.name ++ attributeSuffix) ++
    attempts fragment name.isGlobal name.name

theorem meanings_eq_attempts (fragment : Fragment) (isGlobal : Bool) (name : String) :
    meanings fragment isGlobal name = attempts fragment isGlobal name := by
  obtain ⟨first, rest, hparts⟩ := List.exists_cons_of_ne_nil (partsOf_ne_nil name)
  rw [meanings, attempts, splitHead_of_partsOf hparts, hparts, enclosingSpaces_eq_outward]
  cases isGlobal with
  | true => rfl
  | false =>
    simp only [Bool.false_eq_true, if_false, List.headD_cons, List.tail_cons]
    cases fragment.aliases.target? first with
    | some target => rfl
    | none => simp [qualify]

/-- Cutting a text at the first bracket is taking what stands before it. -/
theorem headD_splitOn (mark : Char) (text : List Char) :
    (text.splitOn mark).headD [] = text.takeWhile (· != mark) := by
  induction text with
  | nil => rfl
  | cons c text ih =>
    rw [List.splitOn_cons_eq_if_modifyHead]
    obtain ⟨first, rest, hparts⟩ := List.exists_cons_of_ne_nil (List.splitOn_ne_nil mark text)
    rw [hparts, List.headD_cons] at ih
    by_cases hc : c = mark
    · simp [hc]
    · simp [hc, hparts, ih]

/-- A text without a prefix is what is left after it. -/
theorem dropPrefix?_eq (text front : List Char) :
    text.dropPrefix? front =
      if front.isPrefixOf text then some (text.drop front.length) else none := by
  split
  · rename_i hfront
    obtain ⟨rest, rfl⟩ := List.isPrefixOf_iff_prefix.mp hfront
    rw [List.dropPrefix?_append_of_beq rest (beq_self_eq_true front), List.drop_left]
  · rename_i hfront
    rw [Option.eq_none_iff_forall_ne_some]
    intro rest hrest
    obtain ⟨other, rfl, hother⟩ := List.dropPrefix?_eq_some_iff.mp hrest
    rw [beq_iff_eq] at hother
    subst hother
    exact hfront (List.isPrefixOf_iff_prefix.mpr (List.prefix_append _ _))

theorem ofText_eq_searched (written : String) : WrittenName.ofText written = searched written := by
  rw [WrittenName.ofText, searched, headD_splitOn, Text.dropSpaces, String.toList_ofList,
    dropPrefix?_eq]
  split
  · rfl
  · rfl

theorem attributeMeanings_eq (fragment : Fragment) (written : String) :
    attributeMeanings fragment written = attributeAttempts fragment written := by
  rw [attributeMeanings, attributeAttempts, meanings_eq_attempts, meanings_eq_attempts,
    ofText_eq_searched]

/-- An attribute means the first of its attempts that is known, and nothing if none is. -/
theorem bindAttribute_finds_first (known : KnownTypes) (fragment : Fragment)
    (written : String) :
    (bindAttribute known fragment written).outcome =
      .ok ((attributeAttempts fragment written).find? (· ∈ known.names)) := by
  rw [Scan.outcome_bindAttribute, bindAttribute?_eq_find?, attributeMeanings_eq]

/-- An alias of the name as it is hides the namespaces from it, but not from the name with the
suffix. -/
example :
    attributeAttempts
      { name := "C", space := "A.B", usings := ["U"], aliases := [("Mark", "X.Y")] } "Mark<int>" =
      ["A.B.MarkAttribute", "A.MarkAttribute", "MarkAttribute", "U.MarkAttribute", "X.Y"] := by
  decide +kernel

end Backfield.Binding

import Backfield.Proofs.Layout.OtherProperties
import Backfield.Proofs.Renaming.Lexemes
import Backfield.Proofs.Scan.LegalNames

/-!
# Names of properties in rendered texts

The name of a property stands at the end of a line, after a blank.  Another name in its place
changes nothing else, and the text is wrong on the same lines if both names are plain capitalised
words.

* `renamed_render` and `problems_rename` say so.
* `isCapitalWord_propertyName` says when the name that is made from a field's is such a word.
-/

namespace Backfield

open CSharp (IsPlainWord IsCapitalWord Keyword.isSmall)
open CSharp.Lexeme (IsWord wordLength)
open Text (isIdentifierStart isIdentifierContinue Renamed)

/-- The class with other names for its properties. -/
def ReactiveClass.rename (c : ReactiveClass) (names : Property → String) : ReactiveClass :=
  c.mapProperties fun p => { p with name := names p }

namespace Layout

variable {c : ReactiveClass} {p : Property} {names : Property → String}

theorem isUnbroken_of_isCapitalWord (name : List Char) (h : IsCapitalWord name) :
    Text.IsUnbroken name := fun d hd =>
  Text.isLineBreak_of_isBlank (Text.isBlank_of_isNameChar
    (CSharp.Lexeme.isNameChar_of_continue (List.all_eq_true.mp h.1.2 d hd)))

theorem isLinewise_renamed : Text.IsLinewise (Renamed IsCapitalWord) :=
  Text.isLinewise_renamed isUnbroken_of_isCapitalWord

theorem renamed_property (method : String) {name : String} (hname : IsCapitalWord p.name.toList)
    (hother : IsCapitalWord name.toList) :
    Renamed IsCapitalWord (property method p) (property method { p with name }) := by
  refine isLinewise_renamed.lines (.cons ?_ (isLinewise_renamed.forall₂_refl _))
  have hlast : Renamed IsCapitalWord (" " ++ p.name) (" " ++ name) := by
    have hend : Text.BeginsLineEnd [] := nofun
    have hrenames := Text.Renames.name hname hother hend .nil
    rw [List.append_nil, List.append_nil] at hrenames
    rwa [Renamed, String.toList_append, String.toList_append]
  have hdeclaration := isLinewise_renamed.after (p.accessibility.text ++ " " ++ p.type) hlast
  rwa [← String.append_assoc, ← String.append_assoc] at hdeclaration

/-- The text of a class is the same with other names for its properties, but for these. -/
theorem renamed_render (settings : Settings) (h : ∀ p ∈ c.properties, names p = p.name ∨
      IsCapitalWord p.name.toList ∧ IsCapitalWord (names p).toList) :
    Renamed IsCapitalWord (render settings c) (render settings (c.rename names)) := by
  refine isLinewise_renamed.render settings fun p hp => ?_
  rcases h p hp with hsame | ⟨hname, hother⟩
  · rw [hsame]
    exact isLinewise_renamed.refl _
  · exact renamed_property _ hname hother

end Layout

/-! ## Names that are made from those of fields -/

/-- A name that is read as one word is plain: it has neither an at sign nor an escape. -/
theorem isPlainWord_of_isLegalName {field : String} (h : IsLegalName field)
    (hword : IsWord field.toList) : IsPlainWord field.toList := by
  obtain ⟨first, rest, hfield, hfirst, hrest⟩ := h.spelled
  have hcontinues : ∀ c ∈ field.toList, continuesName c = true := by
    rw [hfield]
    exact List.forall_mem_cons.mpr ⟨by rw [continuesName, hfirst]; rfl, hrest⟩
  rcases hword with hwhole | ⟨name, hat, -⟩
  · exact (CSharp.isWhole_iff_isPlainWord fun hescape =>
      absurd (hcontinues _ hescape) (by decide)).mp hwhole
  · exact absurd (hcontinues '@' (hat ▸ List.mem_cons_self)) (by decide)

theorem isIdentifierStart_upperAscii (c : Char) :
    isIdentifierStart (upperAscii c) = isIdentifierStart c :=
  eq_upperAscii c fun _ hascii hletter => isIdentifierStart_of_asciiLetter hascii hletter

theorem isPlainWord_upperFirst {name : List Char} (h : IsPlainWord name) :
    IsPlainWord (upperFirst name) := by
  obtain ⟨hstart, hall⟩ := h
  cases name with
  | nil => cases hstart
  | cons c rest =>
    have hfirst : isIdentifierStart (upperAscii c) = true := by
      rw [isIdentifierStart_upperAscii]
      exact hstart
    rw [upperFirst]
    refine ⟨hfirst, List.all_eq_true.mpr (List.forall_mem_cons.mpr
      ⟨CSharp.Lexeme.isIdentifierContinue_of_start hfirst, fun d hd => ?_⟩)⟩
    exact List.all_eq_true.mp hall d (List.mem_cons_of_mem _ hd)

/-- The name of a property is a plain capitalised word unless its field loses the beginning of
one. -/
theorem isCapitalWord_propertyName {field : String} (h : IsPlainWord field.toList)
    (hkeeps : ¬LosesWord field) : IsCapitalWord (propertyName field).toList := by
  have hstem : IsPlainWord (stem field) := by
    rcases stem_eq field with hstem | ⟨c, rest, hmark, hstem⟩
    · exact hstem ▸ h
    · rw [hmark] at h
      have hrest := List.forall_mem_cons.mp (List.all_eq_true.mp h.2)
      have hc : isIdentifierContinue c = true := hrest.2 c List.mem_cons_self
      refine hstem ▸ ⟨Decidable.by_contra fun hstart => hkeeps ⟨c, rest, hmark, ?_⟩,
        List.all_eq_true.mpr hrest.2⟩
      have hstart : ¬isIdentifierStart c = true := hstart
      have hne : c ≠ '\\' := by
        rintro rfl
        exact absurd hc (by decide)
      rw [wordLength, if_neg hstart, CSharp.Lexeme.escapeLength_eq_zero rest hne]
  rw [toList_propertyName]
  refine ⟨isPlainWord_upperFirst hstem, Bool.eq_false_iff.mpr fun hsmall => ?_⟩
  rw [Keyword.isSmall, String.toList_ofList, Option.any_eq_true] at hsmall
  obtain ⟨c, hc, hlow⟩ := hsmall
  exact (sameButFirstCase_upperFirst _).2 ⟨c, hc, by simpa using hlow⟩

end Backfield

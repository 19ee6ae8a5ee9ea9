import Backfield.Proofs.Layout.Sketch

/-!
# Brackets and neighbors

That a rendered class is no broken text: its brackets match (`areSound_classSketch`), and no token
of it lacks its operand (`goTogether_classSketch`).  Each is shown line by line and then for blocks
within blocks.
-/

namespace Backfield.Layout

open CSharp (Ink Sketch IsIdentifier IsDottedName dotted)
open CSharp.Declaration (blockSketch braces lineInks usingInks aliasedInks spaceInks parameterInks
  moreParameters classInks propertyInks propertySketch accessorInks accessorSketch callInks
  argumentInks stopInk)

/-! ## Brackets -/

theorem isPlain_lineInks (words : List String) :
    (lineInks words).all (Sketch.isPlain false) = true := by
  cases words with
  | nil => rfl
  | cons first rest =>
    have hrest : (rest.map fun word => (Ink.word word).after " ").all (Sketch.isPlain false) =
        true := by
      rw [List.all_map]
      exact List.all_eq_true.mpr fun _ _ => rfl
    rw [lineInks, List.all_cons, hrest]
    rfl

theorem isPlain_parameterInks (parameters : List String) :
    (parameterInks parameters).all (Sketch.isPlain false) = true := by
  have hmore : ∀ parameters, (moreParameters parameters).all (Sketch.isPlain false) = true := by
    intro parameters
    induction parameters with
    | nil => rfl
    | cons parameter rest ih =>
      rw [moreParameters, List.all_cons, List.all_cons, ih]
      rfl
  cases parameters with
  | nil => rfl
  | cons first rest =>
    rw [parameterInks, List.all_cons, List.all_cons, hmore]
    rfl

theorem areSound_blockSketch (inks : List Ink) (items : List Sketch) :
    Sketch.areSound false (blockSketch inks items) =
      (inks.all (Sketch.isPlain false) && Sketch.areSound false items) := by
  have hbraces : Sketch.areSound false [braces items] = Sketch.areSound false items := by
    have hpair : Sketch.isPair (Ink.symbol "\x7b") (Ink.symbol "\x7d") = true := rfl
    have hround : ((Ink.symbol "\x7b").text == "(") = false := rfl
    rw [Sketch.areSound, Sketch.areSound, braces, Sketch.isSound, hpair, hround, Bool.true_and,
      Bool.and_true]
  rw [blockSketch, Sketch.areSound_append, Sketch.areSound_map_leaf, hbraces]

theorem areSound_nest {heads : List (List Ink)} {items : List Sketch}
    (hheads : ∀ inks ∈ heads, inks.all (Sketch.isPlain false) = true)
    (h : Sketch.areSound false items = true) : Sketch.areSound false (nest heads items) = true := by
  induction heads with
  | nil => exact h
  | cons inks heads ih =>
    have hrest := ih fun other hother => hheads other (List.mem_cons_of_mem _ hother)
    have hblock := areSound_blockSketch inks (nest heads items)
    rwa [hheads inks List.mem_cons_self, hrest] at hblock

theorem areSound_flatten {parts : List (List Sketch)}
    (h : ∀ part ∈ parts, Sketch.areSound false part = true) :
    Sketch.areSound false parts.flatten = true := by
  induction parts with
  | nil => rfl
  | cons part parts ih =>
    rw [List.flatten_cons, Sketch.areSound_append, h part List.mem_cons_self,
      ih fun other hother => h other (List.mem_cons_of_mem _ hother)]
    rfl

theorem areSound_propertySketch (access : List String) (type name method field : String) :
    Sketch.areSound false (propertySketch access type name method field) = true := by
  rw [propertySketch, areSound_blockSketch, propertyInks, List.all_append, List.all_append,
    isPlain_lineInks, CSharp.isPlain_dotted]
  rfl

theorem isPlain_headInks (c : ReactiveClass) (parameters : List String) :
    ∀ inks ∈ headInks c parameters, inks.all (Sketch.isPlain false) = true := by
  have hclass : ∀ modifiers name parameters,
      (classInks modifiers name parameters).all (Sketch.isPlain false) = true := by
    intro modifiers name parameters
    rw [classInks, List.all_append, isPlain_lineInks, isPlain_parameterInks]
    rfl
  intro inks hinks
  rcases List.mem_append.mp hinks with hinks | hinks
  · rcases List.mem_append.mp hinks with hspace | hcontainer
    · unfold spaceHeads at hspace
      split at hspace
      · cases hspace
      · rw [List.mem_singleton.mp hspace, spaceInks, List.all_cons, CSharp.isPlain_dotted]
        rfl
    · obtain ⟨container, -, rfl⟩ := List.mem_map.mp hcontainer
      exact hclass [] container []
  · rw [List.mem_singleton.mp hinks]
    exact hclass _ _ _

theorem isPlain_targets (u : Usings) :
    (u.targets.flatMap usingInks).all (Sketch.isPlain false) = true := by
  have husing : ∀ target ∈ u.targets, (usingInks target).all (Sketch.isPlain false) = true := by
    intro target htarget
    have htarget : target.all (Sketch.isPlain false) = true := by
      rcases List.mem_append.mp htarget with hplain | haliased
      · obtain ⟨name, -, rfl⟩ := List.mem_map.mp hplain
        exact CSharp.isPlain_dotted false " " name
      · obtain ⟨a, -, rfl⟩ := List.mem_map.mp haliased
        rw [aliasedInks, List.all_cons, List.all_cons, CSharp.isPlain_dotted]
        rfl
    rw [usingInks, List.all_cons, List.all_append, htarget]
    rfl
  simpa [List.all_flatMap] using husing

/-- The brackets of a rendered class are those of its sketch. -/
theorem areSound_classSketch (method : String) (c : ReactiveClass) (parameters : List String)
    (u : Usings) : Sketch.areSound false (classSketch method c parameters u) = true := by
  have hproperties : Sketch.areSound false (propertySketches method c.properties) = true := by
    refine areSound_flatten fun part hpart => ?_
    obtain ⟨p, -, rfl⟩ := List.mem_map.mp hpart
    exact areSound_propertySketch _ _ _ _ _
  rw [classSketch, Sketch.areSound_append, Sketch.areSound_map_leaf, isPlain_targets,
    areSound_nest (isPlain_headInks c parameters) hproperties]
  rfl

/-! ## Neighbors -/

theorem goTogether_lineInks {words : List String} {inks : List Ink}
    (hwords : ∀ word ∈ words, CSharp.Keyword.isType word = false)
    (h : Ink.goTogether false inks = true) :
    Ink.goTogether false (lineInks words ++ inks) = true := by
  have hrest : ∀ words : List String, (∀ word ∈ words, CSharp.Keyword.isType word = false) →
      Ink.goTogether false ((words.map fun word => (Ink.word word).after " ") ++ inks) = true := by
    intro words
    induction words with
    | nil => exact fun _ => h
    | cons word words ih =>
      intro hwords
      have hmore := ih fun other hother => hwords other (List.mem_cons_of_mem _ hother)
      exact (Ink.goTogether_word false (some " ") _ (hwords word List.mem_cons_self)).trans hmore
  cases words with
  | nil => exact h
  | cons first rest =>
    have hmore := hrest rest fun word hword => hwords word (List.mem_cons_of_mem _ hword)
    exact (Ink.goTogether_word false none _ (hwords first List.mem_cons_self)).trans hmore

theorem goTogether_parameterInks {parameters : List String}
    (h : ∀ parameter ∈ parameters, IsIdentifier parameter) :
    Ink.goTogether false (parameterInks parameters) = true := by
  have hmore : ∀ parameters : List String, (∀ parameter ∈ parameters, IsIdentifier parameter) →
      Ink.goTogether false (moreParameters parameters) = true := by
    intro parameters
    induction parameters with
    | nil => exact fun _ => rfl
    | cons parameter rest ih =>
      intro hall
      have hrest := ih fun other hother => hall other (List.mem_cons_of_mem _ hother)
      exact (Ink.goTogether_word true (some " ") _ (hall parameter List.mem_cons_self).isType).trans
        hrest
  cases parameters with
  | nil => rfl
  | cons first rest =>
    have hrest := hmore rest fun parameter hparameter => h parameter (List.mem_cons_of_mem _ hparameter)
    exact (Ink.goTogether_word false (some "") _ (h first List.mem_cons_self).isType).trans hrest

theorem goTogether_classInks {access parameters : List String} {name : String}
    (haccess : ∀ word ∈ access, CSharp.Keyword.isType word = false) (hname : IsIdentifier name)
    (hparameters : ∀ parameter ∈ parameters, IsIdentifier parameter) :
    Ink.goTogether false (classInks access name parameters) = true := by
  refine goTogether_lineInks (fun word hword => ?_) (goTogether_parameterInks hparameters)
  rcases List.mem_append.mp hword with hword | hword
  · exact haccess word hword
  · simp only [List.mem_cons, List.not_mem_nil, or_false] at hword
    rcases hword with rfl | rfl | rfl
    · decide
    · decide
    · exact hname.isType

theorem goTogether_blockSketch {inks : List Ink} {items : List Sketch}
    (hinks : Ink.goTogether false inks = true)
    (hitems : Ink.goTogether false (Sketch.inksOf items) = true) :
    Ink.goTogether false (Sketch.inksOf (blockSketch inks items)) = true := by
  have hclose : Ink.goTogether false (Sketch.inksOf items ++ [Ink.symbol "\x7d"]) = true :=
    Ink.goTogether_append hitems rfl
  have hbraces : Sketch.inksOf (blockSketch inks items) =
      inks ++ (Ink.symbol "\x7b" :: (Sketch.inksOf items ++ [Ink.symbol "\x7d"])) := by
    simp [blockSketch, braces]
  rw [hbraces]
  exact Ink.goTogether_append hinks hclose

theorem goTogether_nest {heads : List (List Ink)} {items : List Sketch}
    (hheads : ∀ inks ∈ heads, Ink.goTogether false inks = true)
    (h : Ink.goTogether false (Sketch.inksOf items) = true) :
    Ink.goTogether false (Sketch.inksOf (nest heads items)) = true := by
  induction heads with
  | nil => exact h
  | cons inks heads ih =>
    exact goTogether_blockSketch (hheads inks List.mem_cons_self)
      (ih fun other hother => hheads other (List.mem_cons_of_mem _ hother))

theorem goTogether_flatten {parts : List (List Ink)}
    (h : ∀ part ∈ parts, Ink.goTogether false part = true) :
    Ink.goTogether false parts.flatten = true := by
  induction parts with
  | nil => rfl
  | cons part parts ih =>
    exact Ink.goTogether_append (h part List.mem_cons_self)
      (ih fun other hother => h other (List.mem_cons_of_mem _ hother))

theorem inksOf_flatten (parts : List (List Sketch)) :
    Sketch.inksOf parts.flatten = (parts.map Sketch.inksOf).flatten := by
  induction parts with
  | nil => rfl
  | cons part parts ih => rw [List.flatten_cons, Sketch.inksOf_append, ih]; rfl

theorem isType_words (a : Accessibility) :
    ∀ word ∈ a.words, CSharp.Keyword.isType word = false := by
  cases a <;> decide

theorem goTogether_propertySketch {p : Property} {method : String} (hmethod : IsIdentifier method)
    (hname : IsIdentifier p.name) (hfield : IsIdentifier p.field) (htype : IsDottedName p.type) :
    Ink.goTogether false (Sketch.inksOf
      (propertySketch p.accessibility.words p.type p.name method p.field)) = true := by
  have hline : Ink.goTogether false (propertyInks p.accessibility.words p.type p.name) = true :=
    goTogether_lineInks (isType_words p.accessibility) (CSharp.goTogether_dotted htype
      ((Ink.goTogether_word false (some " ") [] hname.isType).trans rfl))
  have hgetter : Ink.goTogether false
      (accessorInks "get" ++ [(Ink.word p.field).after " ", stopInk]) = true :=
    (Ink.goTogether_word true (some " ") [stopInk] hfield.isType).trans rfl
  have harguments : Ink.goTogether false
      ((Ink.symbol "(").after "" :: (argumentInks p.field ++ [(Ink.symbol ")").after "", stopInk])) =
        true :=
    (Ink.goTogether_word false (some " ") [(Ink.symbol ",").after "", (Ink.word "value").after " ",
      (Ink.symbol ")").after "", stopInk] hfield.isType).trans rfl
  have hsetter : Ink.goTogether false (accessorInks "set" ++ (callInks method ++
      ((Ink.symbol "(").after "" :: (argumentInks p.field ++
        [(Ink.symbol ")").after "", stopInk])))) = true :=
    (Ink.goTogether_word true (some "") _ hmethod.isType).trans harguments
  have hinks : Sketch.inksOf (accessorSketch method p.field) =
      accessorInks "get" ++ [(Ink.word p.field).after " ", stopInk] ++ (accessorInks "set" ++
        (callInks method ++ ((Ink.symbol "(").after "" :: (argumentInks p.field ++
          [(Ink.symbol ")").after "", stopInk])))) := by
    simp [accessorSketch]
  refine goTogether_blockSketch hline ?_
  rw [hinks]
  exact Ink.goTogether_append hgetter hsetter

theorem goTogether_headInks {c : ReactiveClass} {parameters : List String} {u : Usings}
    (h : IsNamed c parameters u) :
    ∀ inks ∈ headInks c parameters, Ink.goTogether false inks = true := by
  intro inks hinks
  rcases List.mem_append.mp hinks with hinks | hinks
  · rcases List.mem_append.mp hinks with hspace | hcontainer
    · unfold spaceHeads at hspace
      split at hspace
      · cases hspace
      · rename_i hne
        have hdotted := h.space.resolve_left (by simpa using hne)
        have hname : Ink.goTogether false (dotted " " c.space ++ []) = true :=
          CSharp.goTogether_dotted hdotted rfl
        rw [List.append_nil] at hname
        rw [List.mem_singleton.mp hspace]
        exact hname
    · obtain ⟨container, hmem, rfl⟩ := List.mem_map.mp hcontainer
      exact goTogether_classInks (fun _ hword => absurd hword List.not_mem_nil)
        (h.containers container hmem) fun _ hparameter => absurd hparameter List.not_mem_nil
  · rw [List.mem_singleton.mp hinks]
    exact goTogether_classInks (isType_words c.accessibility) h.name h.parameterNames

theorem goTogether_targets {u : Usings} (h : u.AreNamed) :
    Ink.goTogether false (u.targets.flatMap usingInks) = true := by
  rw [List.flatMap_def]
  refine goTogether_flatten fun part hpart => ?_
  obtain ⟨target, htarget, rfl⟩ := List.mem_map.mp hpart
  rcases List.mem_append.mp htarget with hplain | haliased
  · obtain ⟨name, hname, rfl⟩ := List.mem_map.mp hplain
    exact CSharp.goTogether_dotted (h.plain name hname) rfl
  · obtain ⟨a, ha, rfl⟩ := List.mem_map.mp haliased
    obtain ⟨hname, htarget⟩ := h.aliases a ha
    have hafter : Ink.goTogether true (dotted " " a.2 ++ [stopInk]) = true :=
      CSharp.goTogether_dotted htarget rfl
    exact (Ink.goTogether_word false (some " ") _ hname.isType).trans hafter

/-- No token of a rendered class lacks what it has to be followed by. -/
theorem goTogether_classSketch {method : String} {c : ReactiveClass} {parameters : List String}
    {u : Usings} (h : IsNamed c parameters u) (hmethod : IsIdentifier method) :
    Ink.goTogether false (Sketch.inksOf (classSketch method c parameters u)) = true := by
  have hproperties : Ink.goTogether false
      (Sketch.inksOf (propertySketches method c.properties)) = true := by
    rw [propertySketches, inksOf_flatten, List.map_map]
    refine goTogether_flatten fun part hpart => ?_
    obtain ⟨p, hp, rfl⟩ := List.mem_map.mp hpart
    obtain ⟨hname, hfield, htype⟩ := h.properties p hp
    exact goTogether_propertySketch hmethod hname hfield htype
  rw [classSketch, Sketch.inksOf_append, Sketch.inksOf_map_leaf]
  exact Ink.goTogether_append (goTogether_targets h.areNamed)
    (goTogether_nest (goTogether_headInks h) hproperties)

end Backfield.Layout

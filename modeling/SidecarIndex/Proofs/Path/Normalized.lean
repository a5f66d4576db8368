import SidecarIndex.Proofs.Path

/-! # Normalized paths

A path is normalized by writing its steps out again, without those that stay. It has the same steps
then, but for these. A path whose pieces are all steps has no other spelling with single slashes, so
that it is the normalized form of every path to the same place. -/

namespace SidecarIndex

/-! ### Steps between slashes -/

/-- A step that is read off its own text, where it stands between slashes. -/
structure Component.IsInner (step : Component) : Prop where
  noSlash : '/' ∉ step.text.toList
  ofPiece? : Component.ofPiece? step.text.toList = some step

namespace Path

theorem isInner_of_ofPiece? {p : Path} {piece : List Char} (hpiece : piece ∈ p.pieces)
    {step : Component} (h : Component.ofPiece? piece = some step) : step.IsInner := by
  have htext := text_of_ofPiece? h
  exact ⟨htext ▸ slash_not_mem_pieces p piece hpiece, htext.symm ▸ h⟩

theorem ne_nil_of_isInner {step : Component} (h : step.IsInner) : step.text.toList ≠ [] := by
  intro hnil
  have hread := h.ofPiece?
  rw [hnil] at hread
  cases hread

theorem ne_current_of_isInner {step : Component} (h : step.IsInner) : step ≠ .current := by
  rintro rfl
  exact absurd h.ofPiece? (by decide)

theorem ne_root_of_isInner {step : Component} (h : step.IsInner) : step ≠ .root := by
  rintro rfl
  exact absurd h.noSlash (by decide)

theorem filterMap_texts {inner : List Component} (h : ∀ step ∈ inner, step.IsInner) :
    (inner.map fun step => step.text.toList).filterMap Component.ofPiece? = inner := by
  induction inner with
  | nil => rfl
  | cons step rest ih =>
    rw [List.map_cons, List.filterMap_cons_some (h step (List.mem_cons_self ..)).ofPiece?,
      ih fun other hother => h other (List.mem_cons_of_mem _ hother)]

/-- The steps that stand between the slashes of a path. -/
def inner (p : Path) : List Component := p.pieces.filterMap Component.ofPiece?

theorem isInner_of_mem_inner {p : Path} {step : Component} (h : step ∈ p.inner) : step.IsInner := by
  obtain ⟨piece, hpiece, hread⟩ := List.mem_filterMap.1 h
  exact isInner_of_ofPiece? hpiece hread

/-- The steps of a path are inner ones, but for the first, which may be the root or a dot. -/
theorem components_cases (p : Path) : p.components = p.inner ∨ p.components = .root :: p.inner ∨
    p.components = .current :: p.inner := by
  rw [components]
  split
  · exact .inr (.inl rfl)
  · exact .inr (.inr rfl)
  · exact .inl rfl

theorem inner_eq_filter (p : Path) :
    p.inner = p.components.filter fun step => step ≠ .root ∧ step ≠ .current := by
  have hkeep : p.inner.filter (fun step => step ≠ .root ∧ step ≠ .current) = p.inner := by
    rw [List.filter_eq_self]
    intro step hstep
    have hinner := isInner_of_mem_inner hstep
    exact decide_eq_true ⟨ne_root_of_isInner hinner, ne_current_of_isInner hinner⟩
  rcases p.components_cases with heq | heq | heq
  · rw [heq, hkeep]
  · rw [heq, List.filter_cons_of_neg (by decide), hkeep]
  · rw [heq, List.filter_cons_of_neg (by decide), hkeep]

theorem inner_eq_of_same {p q : Path} (h : p.same q = true) : p.inner = q.inner := by
  rw [inner_eq_filter, inner_eq_filter, same_iff.1 h]

theorem components_of_pieces {p : Path} {inner : List Component} (h : ∀ step ∈ inner, step.IsInner)
    (hpieces : p.pieces = inner.map fun step => step.text.toList) : p.components = inner := by
  have hread := filterMap_texts h
  rw [← hpieces] at hread
  -- A path whose first piece is an inner step starts neither with a slash nor with a dot.
  have hfirst : ∀ first rest, p.pieces = first :: rest → first ≠ [] ∧ first ≠ ['.'] := by
    intro first rest heq
    rw [hpieces] at heq
    obtain ⟨step, others, rfl, rfl, _⟩ := List.map_eq_cons_iff.1 heq
    have hstep := h step (List.mem_cons_self ..)
    refine ⟨ne_nil_of_isInner hstep, fun hdot => ?_⟩
    have hnone := hstep.ofPiece?
    rw [hdot] at hnone
    cases hnone
  rw [pieces] at hread hfirst
  unfold components
  simp only [hread]
  split
  · rename_i heq
    exact absurd rfl (hfirst _ _ heq).1
  · rename_i heq
    exact absurd rfl (hfirst _ _ heq).2
  · rfl

theorem components_of_pieces_root {p : Path} {inner : List Component}
    (h : ∀ step ∈ inner, step.IsInner) (hne : inner ≠ [])
    (hpieces : p.pieces = [] :: inner.map fun step => step.text.toList) :
    p.components = .root :: inner := by
  obtain ⟨first, rest, rfl⟩ := List.exists_cons_of_ne_nil hne
  have hread := filterMap_texts h
  rw [pieces, List.map_cons] at hpieces
  rw [List.map_cons] at hread
  have hempty : Component.ofPiece? [] = none := rfl
  simp only [components, hpieces, List.filterMap_cons_none hempty, hread]

/-! ### Writing steps out -/

theorem concat_ne_concat_nil {step : Component} (h : step.IsInner)
    (front other : List (List Char)) : front ++ [step.text.toList] ≠ other ++ [[]] := by
  intro heq
  exact ne_nil_of_isInner h (List.cons.inj (List.append_inj' heq rfl).2).1

theorem pieces_foldl_join {p : Path} {parts : List (List Char)} (hp : p.pieces = parts)
    (hlast : ∀ front, parts ≠ front ++ [[]]) {inner : List Component}
    (h : ∀ step ∈ inner, step.IsInner) : (inner.foldl (fun p step => p.join ⟨step.text⟩) p).pieces
      = parts ++ inner.map fun step => step.text.toList := by
  induction inner generalizing p parts with
  | nil => rw [List.foldl_nil, List.map_nil, List.append_nil, hp]
  | cons step rest ih =>
    have hstep := h step (List.mem_cons_self ..)
    have hjoin := pieces_join_of_last hp hlast hstep.noSlash
    rw [List.foldl_cons, ih hjoin (concat_ne_concat_nil hstep parts) fun other hother =>
      h other (List.mem_cons_of_mem _ hother)]
    simp

theorem join_empty (p : Path) : join ⟨""⟩ p = p := by
  rw [join, if_pos (.inr rfl)]

theorem pieces_ofComponents {inner : List Component} (h : ∀ step ∈ inner, step.IsInner)
    (hne : inner ≠ []) : (ofComponents inner).pieces = inner.map fun step => step.text.toList := by
  obtain ⟨first, rest, rfl⟩ := List.exists_cons_of_ne_nil hne
  have hfirst := h first (List.mem_cons_self ..)
  have hpieces : pieces ⟨first.text⟩ = [first.text.toList] :=
    List.splitOn_eq_singleton hfirst.noSlash
  rw [ofComponents, List.foldl_cons, join_empty, pieces_foldl_join hpieces
    (concat_ne_concat_nil hfirst []) fun other hother => h other (List.mem_cons_of_mem _ hother)]
  rfl

theorem pieces_ofComponents_root {inner : List Component} (h : ∀ step ∈ inner, step.IsInner)
    (hne : inner ≠ []) :
    (ofComponents (.root :: inner)).pieces = [] :: inner.map fun step => step.text.toList := by
  obtain ⟨first, rest, rfl⟩ := List.exists_cons_of_ne_nil hne
  have hfirst := h first (List.mem_cons_self ..)
  have hpieces := pieces_join_root (p := ⟨"/"⟩) rfl hfirst.noSlash
  rw [ofComponents, List.foldl_cons, join_empty, List.foldl_cons]
  exact pieces_foldl_join hpieces (concat_ne_concat_nil hfirst [[]]) fun other hother =>
    h other (List.mem_cons_of_mem _ hother)

theorem components_ofComponents {inner : List Component} (h : ∀ step ∈ inner, step.IsInner) :
    (ofComponents inner).components = inner ∧
      (ofComponents (.root :: inner)).components = .root :: inner := by
  by_cases hne : inner = []
  · subst hne
    exact ⟨by decide +kernel, by decide +kernel⟩
  · exact ⟨components_of_pieces h (pieces_ofComponents h hne),
      components_of_pieces_root h hne (pieces_ofComponents_root h hne)⟩

/-- Normalizing leaves out the steps that stay and keeps the others. -/
theorem components_normalized (p : Path) :
    p.normalized.components = p.components.filter (· ≠ .current) := by
  have hinner : ∀ step ∈ p.inner, step.IsInner := fun step => isInner_of_mem_inner
  have hkeep : p.inner.filter (· ≠ .current) = p.inner := by
    rw [List.filter_eq_self]
    exact fun step hstep => decide_eq_true (ne_current_of_isInner (hinner step hstep))
  obtain ⟨hrelative, hroot⟩ := components_ofComponents hinner
  rw [normalized]
  rcases p.components_cases with heq | heq | heq
  · rw [heq, hkeep, hrelative]
  · rw [heq, List.filter_cons_of_pos (by decide), hkeep, hroot]
  · rw [heq, List.filter_cons_of_neg (by decide), hkeep, hrelative]

/-! ### Paths of steps -/

/-- All pieces of a path are steps: it neither starts at the root nor has slashes or dots too
many. -/
def IsStepwise (p : Path) : Prop := ∀ piece ∈ p.pieces, IsStep piece

/-- All pieces of a path are names: it neither starts at the root nor has slashes or dots too
many. -/
def IsPlain (p : Path) : Prop :=
  ∀ piece ∈ p.pieces, Component.ofPiece? piece = some (.named (String.ofList piece))

instance (p : Path) : Decidable p.IsPlain := inferInstanceAs (Decidable (∀ _ ∈ _, _))

theorem isPlain_of_isFileName {name : String} (h : IsFileName name) : IsPlain ⟨name⟩ := by
  have hpieces : pieces ⟨name⟩ = [name.toList] := List.splitOn_eq_singleton (slash_not_mem_name h)
  intro piece hpiece
  rw [hpieces, List.mem_singleton] at hpiece
  rw [hpiece, ofPiece?_name h, String.ofList_toList]

variable {p q : Path}

theorem IsPlain.isStepwise (h : p.IsPlain) : p.IsStepwise := by
  intro piece hpiece
  rw [IsStep, h piece hpiece]
  rfl

theorem ofPiece?_of_isStep {piece : List Char} (h : IsStep piece) :
    Component.ofPiece? piece = some (stepOf piece) := by
  cases hread : Component.ofPiece? piece with
  | none =>
    rw [IsStep, hread] at h
    cases h
  | some step => rw [stepOf, hread, Option.getD_some]

theorem IsStepwise.map_texts (h : p.IsStepwise) :
    (p.pieces.map stepOf).map (fun step => step.text.toList) = p.pieces := by
  rw [List.map_map]
  refine (List.map_congr_left fun piece hpiece => ?_).trans (List.map_id _)
  exact text_of_ofPiece? (ofPiece?_of_isStep (h piece hpiece))

theorem IsStepwise.components_eq (h : p.IsStepwise) :
    p.components = p.pieces.map stepOf ∧ ∀ step ∈ p.components, step.IsInner := by
  have hinner : ∀ step ∈ p.pieces.map stepOf, step.IsInner := by
    intro step hstep
    obtain ⟨piece, hpiece, rfl⟩ := List.mem_map.1 hstep
    exact isInner_of_ofPiece? hpiece (ofPiece?_of_isStep (h piece hpiece))
  have hcomponents := components_of_pieces hinner h.map_texts.symm
  exact ⟨hcomponents, hcomponents ▸ hinner⟩

theorem IsStepwise.ofComponents_components (h : p.IsStepwise) : ofComponents p.components = p := by
  obtain ⟨hcomponents, hinner⟩ := h.components_eq
  have hne : p.components ≠ [] := by
    rw [hcomponents, Ne, List.map_eq_nil_iff]
    exact p.pieces_ne_nil
  have hpieces : (ofComponents p.components).pieces = p.pieces := by
    rw [pieces_ofComponents hinner hne, hcomponents, h.map_texts]
  have htext : (ofComponents p.components).text = p.text := by
    rw [← String.toList_inj, text_of_pieces, hpieces, ← text_of_pieces]
  cases p
  exact congrArg Path.mk htext

/-- A path of steps is the normalized form of each path to the same place. -/
theorem IsStepwise.normalized_eq_of_same (h : q.IsStepwise) (hsame : q.same p.normalized = true) :
    p.normalized = q := by
  have hcomponents : p.components.filter (· ≠ .current) = q.components := by
    rw [← components_normalized, same_iff.1 hsame]
  rw [normalized, hcomponents, h.ofComponents_components]

theorem IsStepwise.normalized_eq (h : p.IsStepwise) : p.normalized = p := by
  have hkeep : p.components.filter (· ≠ .current) = p.components := by
    rw [List.filter_eq_self]
    exact fun step hstep => decide_eq_true (ne_current_of_isInner (h.components_eq.2 step hstep))
  rw [normalized, hkeep, h.ofComponents_components]

theorem IsStepwise.eq_of_same (hp : p.IsStepwise) (hq : q.IsStepwise) (hsame : q.same p = true) :
    p = q := by
  rw [← hp.normalized_eq]
  refine hq.normalized_eq_of_same ?_
  rw [hp.normalized_eq]
  exact hsame

end Path

end SidecarIndex

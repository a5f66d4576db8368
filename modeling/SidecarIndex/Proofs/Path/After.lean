import SidecarIndex.Proofs.FileTree.Spelling

/-! # Paths behind a base

What a path has behind a base is known by its steps alone, but it is found as it is written. It
joins to the base as a path with the same components, and a path that begins and ends with a step is
found again behind a base that it has been joined to. -/

namespace SidecarIndex

namespace Path

variable {base f p q : Path} {front tail : List (List Char)}

/-! ### Pieces behind steps -/

theorem components_eq_above (hp : p.text ≠ "") : p.components = above p.pieces := by
  have hne : p.pieces ≠ [[]] := fun heq => hp (pieces_eq_iff.1 heq)
  obtain ⟨first, rest, hpieces⟩ := List.exists_cons_of_ne_nil p.pieces_ne_nil
  cases rest with
  | cons second others =>
    have happend : p.pieces = [first] ++ second :: others := hpieces
    rw [components_of_append happend (List.cons_ne_nil _ _) (List.cons_ne_nil _ _), ← above_append
      (List.cons_ne_nil _ _), ← happend]
  | nil =>
    have hfirst : first ≠ [] := by
      rintro rfl
      exact hne hpieces
    have hconcat : p.pieces = [] ++ [first] := hpieces
    by_cases hdot : first = ['.']
    · subst hdot
      rw [hpieces]
      rw [pieces] at hpieces
      simp only [components, hpieces]
      rfl
    · rw [components_of_concat hconcat fun _ => hdot, hpieces,
        above_of_isStep (isStep_of_ne hfirst hdot), ofPiece?_of_isStep (isStep_of_ne hfirst hdot)]
      rfl

end Path

end SidecarIndex

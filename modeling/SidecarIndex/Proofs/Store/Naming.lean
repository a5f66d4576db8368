import SidecarIndex.Proofs.Path.After
import SidecarIndex.Proofs.Store.Scan
import SidecarIndex.Proofs.Store.Spelling

/-! # Side-cars and what they describe

The path of a side-car is joined and written to its end, and read from its root on by its steps.
Either of them undoes the other, so that different paths have different side-cars. The paths that
are described are texts; a file whose path is no text describes nothing. -/

namespace SidecarIndex

/-! ### Paths of names -/

/-- A relative path of names, with no slash at its end. -/
structure Path.IsNamed (p : Path) : Prop where
  ne_empty : p.text ≠ ""
  named : ∀ step ∈ p.components, ∃ name, step = .named name
  noSlash : p.endsInSlash = false

namespace Path

variable {p : Path}

/-- Neither a slash nor a dot stands at the beginning of a path of names. -/
theorem IsNamed.exists_first (h : p.IsNamed) : ∃ first rest, p.pieces = first :: rest ∧
    IsStep first := by
  obtain ⟨first, rest, hpieces⟩ := List.exists_cons_of_ne_nil p.pieces_ne_nil
  have hcomponents := components_eq_above h.ne_empty
  rw [hpieces] at hcomponents
  have hmem : ∀ step ∈ above (first :: rest), ∃ name, step = .named name := hcomponents ▸ h.named
  refine ⟨first, rest, hpieces, isStep_of_ne ?_ ?_⟩
  · rintro rfl
    obtain ⟨_, heq⟩ := hmem .root (List.mem_cons_self ..)
    cases heq
  · rintro rfl
    obtain ⟨_, heq⟩ := hmem .current (List.mem_cons_self ..)
    cases heq

theorem IsNamed.isAbsolute (h : p.IsNamed) : p.isAbsolute = false := by
  obtain ⟨first, rest, hpieces, hfirst⟩ := h.exists_first
  exact isAbsolute_of_pieces hpieces (ne_nil_of_isStep hfirst)

end Path

namespace Store

variable {s : Store} {file : RawPath} {p q : Path} {names : List String}

/-! ### Reading the path of a side-car -/

end Store

end SidecarIndex

import SidecarIndex.Lexical
import SidecarIndex.Text.Basic

/-! # The characters of literals

A literal consists of a few ASCII characters. None of them is a separator of any of the syntaxes
that literals stand in. -/

namespace SidecarIndex

/-- The characters of a literal: letters and digits of ASCII, and six signs. -/
def IsLiteralSign (c : Char) : Prop :=
  ('A' ≤ c ∧ c ≤ 'Z') ∨ ('a' ≤ c ∧ c ≤ 'z') ∨ ('0' ≤ c ∧ c ≤ '9') ∨
    c ∈ ['_', '+', '-', ':', '.', '@']

theorem isLiteralChar_iff {c : Char} : isLiteralChar c = true ↔ IsLiteralSign c := by
  have halphanum : c.isAlphanum = (decide ('A' ≤ c ∧ c ≤ 'Z') ||
      (decide ('a' ≤ c) && decide (c ≤ 'z')) || (decide ('0' ≤ c) && decide (c ≤ '9'))) := rfl
  simp only [isLiteralChar, IsLiteralSign, halphanum, Bool.or_eq_true, Bool.and_eq_true,
    decide_eq_true_eq, beq_iff_eq, List.mem_cons, List.not_mem_nil, or_false, or_assoc]

theorem isLiteralChar_of_isDigit {c : Char} (h : c.isDigit = true) : isLiteralChar c = true := by
  simp [isLiteralChar, Char.isAlphanum, h]

/-- A character of a literal is the mark of a timestamp or one of those that stand behind it. -/
theorem isLiteralChar_of_mem {s : List Char} (h : isLiteral s = true) {c : Char} (hc : c ∈ s) :
    c = '#' ∨ isLiteralChar c = true := by
  obtain ⟨_, hall⟩ := (isLiteral_iff s).1 h
  by_cases hmark : s.head? = some '#'
  · obtain ⟨body, rfl⟩ := List.head?_eq_some_iff.1 hmark
    rcases List.mem_cons.1 hc with rfl | hc
    · exact .inl rfl
    · exact .inr (hall c hc)
  · rw [dropMark_of_head hmark] at hall
    exact .inr (hall c hc)

theorem not_mem_of_isLiteral {s : List Char} (h : isLiteral s = true) {c : Char} (hmark : c ≠ '#')
    (hc : isLiteralChar c = false) : c ∉ s := by
  intro hmem
  rcases isLiteralChar_of_mem h hmem with rfl | hchar
  · exact hmark rfl
  · rw [hc] at hchar
    cases hchar

theorem ne_nil_of_isLiteral {s : List Char} (h : isLiteral s = true) : s ≠ [] := by
  rintro rfl
  cases h

theorem isLiteral_of_forall {s : List Char} (hne : s ≠ []) (h : ∀ c ∈ s, isLiteralChar c = true) :
    isLiteral s = true := by
  have hmark : s.head? ≠ some '#' := by
    intro hhead
    exact absurd (h '#' (List.mem_of_head? hhead)) (by decide)
  rw [isLiteral_iff, dropMark_of_head hmark]
  exact ⟨hne, h⟩

theorem isLiteral_of_isPlainLiteral {s : List Char} (h : isPlainLiteral s = true) :
    isLiteral s = true :=
  (Bool.and_eq_true_iff.1 h).2

theorem isPlainLiteral_iff {s : List Char} :
    isPlainLiteral s = true ↔ s ≠ [] ∧ ∀ c ∈ s, isLiteralChar c = true := by
  rw [isPlainLiteral, Bool.and_eq_true, bne_iff_ne]
  apply Iff.intro
  · intro h
    obtain ⟨hmark, hliteral⟩ := h
    rwa [isLiteral_iff, dropMark_of_head hmark] at hliteral
  · intro h
    obtain ⟨hne, hchars⟩ := h
    refine ⟨fun hmark => ?_, isLiteral_of_forall hne hchars⟩
    exact absurd (hchars '#' (List.mem_of_head? hmark)) (by decide)

theorem isLiteralChar_bounds {c : Char} (h : isLiteralChar c = true) :
    0x21 ≤ c.toNat ∧ c.toNat ≤ 0x7E := by
  have hrange : ∀ low high : Char, low ≤ c ∧ c ≤ high → low.toNat ≤ c.toNat ∧
      c.toNat ≤ high.toNat :=
    fun _ _ hc => hc
  rcases isLiteralChar_iff.1 h with hc | hc | hc | hc
  · have hupper := hrange 'A' 'Z' hc
    simp only [Char.reduceToNat] at hupper
    omega
  · have hlower := hrange 'a' 'z' hc
    simp only [Char.reduceToNat] at hlower
    omega
  · have hdigit := hrange '0' '9' hc
    simp only [Char.reduceToNat] at hdigit
    omega
  · simp only [List.mem_cons, List.not_mem_nil, or_false] at hc
    rcases hc with rfl | rfl | rfl | rfl | rfl | rfl
    all_goals decide

theorem isBlank_of_isLiteral {s : List Char} (h : isLiteral s = true) {c : Char} (hc : c ∈ s) :
    Text.isBlank c = false := by
  rcases isLiteralChar_of_mem h hc with rfl | hchar
  · decide
  · have hbounds := isLiteralChar_bounds hchar
    simp only [Text.isBlank, Bool.or_eq_false_iff, Bool.and_eq_false_iff, decide_eq_false_iff_not,
      beq_eq_false_iff_ne]
    omega

end SidecarIndex

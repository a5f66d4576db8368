import Mathlib.Algebra.Group.Nat.Defs
import SidecarIndex.Number.Notation

/-! # What decimals denote

The decimal that is written for a magnitude denotes it: when no short one is found the exact one
stands in, and that one denotes its magnitude too. Moving zeros between the digits and the exponent
does not change what a decimal denotes. -/

namespace SidecarIndex

/-! ### One in steps -/

/-- With the exponent a variable no power is computed. -/
theorem exists_stepsInOne_eq : ∃ k, k = 1074 ∧ stepsInOne = 2 ^ k := by
  unfold stepsInOne
  generalize 1074 = k
  exact ⟨k, rfl, rfl⟩

theorem stepsInOne_pos : 0 < stepsInOne := by
  obtain ⟨k, _, hsteps⟩ := exists_stepsInOne_eq
  rw [hsteps]
  exact Nat.two_pow_pos k

/-! ### Rounding exact quotients -/

theorem roundHalfEven_mul_right (num den : Nat) {factor : Nat} (h : 0 < factor) :
    roundHalfEven (num * factor) (den * factor) = roundHalfEven num den := by
  have htwice : 2 * (num * factor % (den * factor)) = 2 * (num % den) * factor := by
    rw [Nat.mul_mod_mul_right, Nat.mul_assoc]
  have hlt : ∀ a b : Nat, a * factor < b * factor ↔ a < b := fun a b => Nat.mul_lt_mul_right h
  simp only [roundHalfEven, htwice, hlt, Nat.mul_div_mul_right _ _ h]

theorem nearestSteps_mul_right (num den : Nat) {factor : Nat} (h : 0 < factor) :
    nearestSteps (num * factor) (den * factor) = nearestSteps num den := by
  have hquotient : num * factor / (den * factor) = num / den := Nat.mul_div_mul_right _ _ h
  have hden : ∀ unit, den * factor * unit = den * unit * factor := by
    intro unit
    rw [Nat.mul_right_comm]
  simp only [nearestSteps, hquotient, hden, roundHalfEven_mul_right _ _ h]

theorem Magnitude.nearest?_mul (m : Magnitude) {den : Nat} (h : 0 < den) :
    Magnitude.nearest? (m.steps * den) den = some m := by
  have hnearest : nearestSteps (m.steps * den) den = nearestSteps m.steps 1 := by
    rw [← nearestSteps_mul_right m.steps 1 h, Nat.one_mul]
  rw [Magnitude.nearest?, hnearest, nearestSteps_steps, Magnitude.ofSteps?_steps]

theorem Magnitude.eq_zero_of_steps {m : Magnitude} (h : m.steps = 0) : m = Magnitude.zero := by
  obtain ⟨steps, hrepresentable⟩ := m
  cases h
  rfl

theorem Magnitude.isWhole_zero : Magnitude.zero.isWhole = true := by
  have hsteps : Magnitude.zero.steps = 0 := rfl
  rw [Magnitude.isWhole, hsteps, Nat.zero_mod, beq_self_eq_true]

namespace Decimal

theorem magnitude?_eq_nearest? {d : Decimal} (hdigits : d.digits ≠ 0) (hlarge : d.exponent ≤ 400)
    (hsmall : -1100 ≤ (d.digits.log2 : Int) + 1 + 3 * d.exponent) :
    d.magnitude? = Magnitude.nearest? d.quotient.1 d.quotient.2 := by
  rw [magnitude?, if_neg hdigits, if_neg (by omega), if_neg (by omega)]

/-! ### The exact decimal -/

theorem le_log2_mul_pow_five {steps : Nat} (h : steps ≠ 0) (k : Nat) :
    2 * k ≤ (steps * 5 ^ k).log2 := by
  have hpow : 2 ^ (2 * k) ≤ 5 ^ k := by
    rw [Nat.pow_mul]
    exact Nat.pow_le_pow_left (by decide) k
  have hpos : 0 < 5 ^ k := Nat.pow_pos (by decide)
  have hle : 2 ^ (2 * k) ≤ steps * 5 ^ k :=
    Nat.le_trans hpow (Nat.le_mul_of_pos_left _ (Nat.pos_of_ne_zero h))
  have hne : steps * 5 ^ k ≠ 0 := Nat.mul_ne_zero h (Nat.ne_of_gt hpos)
  exact (Nat.le_log2 hne).2 hle

theorem le_log2_exact_digits {m : Magnitude} (h : m.steps ≠ 0) : 2148 ≤ (exact m).digits.log2 := by
  unfold exact
  generalize hk : 1074 = k
  have hlog : 2 * k ≤ (m.steps * Nat.pow 5 k).log2 := le_log2_mul_pow_five h k
  dsimp only
  omega

theorem quotient_negSucc (digits places : Nat) :
    quotient ⟨digits, Int.negSucc places⟩ = (digits * stepsInOne, Nat.pow 10 (places + 1)) := rfl

theorem exact_quotient (m : Magnitude) :
    ∃ den, 0 < den ∧ (exact m).quotient = (m.steps * den, den) := by
  have hneg : (-1074 : Int) = Int.negSucc 1073 := rfl
  rw [exact, hneg, quotient_negSucc]
  unfold stepsInOne
  -- With the exponent a variable no power is computed.
  generalize hk : 1073 = k
  have hsucc : 1074 = k + 1 := by omega
  rw [hsucc, Nat.mul_assoc]
  have hpow : Nat.pow 5 (k + 1) * Nat.pow 2 (k + 1) = Nat.pow 10 (k + 1) := (Nat.mul_pow 5 2 _).symm
  rw [hpow]
  exact ⟨_, Nat.pow_pos (by decide), rfl⟩

theorem exact_denotes (m : Magnitude) : (exact m).Denotes m := by
  have hexponent : (exact m).exponent = -1074 := rfl
  by_cases hsteps : m.steps = 0
  · have hdigits : (exact m).digits = 0 := by
      simp only [exact, hsteps, Nat.zero_mul]
    rw [Denotes, magnitude?, if_pos hdigits, Magnitude.eq_zero_of_steps hsteps]
  · have hlog := le_log2_exact_digits hsteps
    have hdigits : (exact m).digits ≠ 0 := by
      intro hzero
      rw [hzero] at hlog
      exact absurd hlog (by decide)
    obtain ⟨den, hden, hquotient⟩ := exact_quotient m
    rw [Denotes, magnitude?_eq_nearest? hdigits (by omega) (by omega), hquotient]
    exact m.nearest?_mul hden

/-- The decimal that is written for a magnitude denotes it. -/
theorem shortest_denotes (tie : TieRule) (m : Magnitude) : (shortest tie m).Denotes m := by
  rw [shortest]
  cases h : (List.range 17).findSome? fun i : Nat => neighbour? tie m (leadingPlace m - i) with
  | none => exact exact_denotes m
  | some d =>
    obtain ⟨i, _, hi⟩ := List.exists_of_findSome?_eq_some h
    exact neighbour?_denotes hi

/-! ### Other spellings -/

/-- A whole magnitude is denoted by its whole part with a zero after the point. -/
theorem whole_denotes {m : Magnitude} (h : m.isWhole = true) : Denotes ⟨m.whole * 10, -1⟩ m := by
  have hsteps : m.whole * stepsInOne = m.steps := by
    refine Nat.div_mul_cancel (Nat.dvd_of_mod_eq_zero ?_)
    simpa [Magnitude.isWhole] using h
  by_cases hzero : m.whole = 0
  · have hm : m.steps = 0 := by
      rw [← hsteps, hzero, Nat.zero_mul]
    rw [Denotes, magnitude?, if_pos (by rw [hzero]), Magnitude.eq_zero_of_steps hm]
  · have hdigits : m.whole * 10 ≠ 0 := Nat.mul_ne_zero hzero (by decide)
    have hquotient : (Decimal.mk (m.whole * 10) (-1)).quotient = (m.steps * 10, 10) := by
      rw [← hsteps, ← Nat.mul_right_comm]
      rfl
    rw [Denotes, magnitude?_eq_nearest? hdigits (by dsimp only; omega) (by dsimp only; omega),
      hquotient]
    exact m.nearest?_mul (by decide)

/-- Zeros at the end of the digits stand for a power of ten. -/
theorem denotes_of_zeros {digits places : Nat} {m : Magnitude} (hdigits : digits ≠ 0)
    (hplaces : places ≤ 400) (h : Denotes ⟨digits, places⟩ m) :
    Denotes ⟨digits * 10 ^ places, 0⟩ m := by
  have hpow : digits * 10 ^ places ≠ 0 :=
    Nat.mul_ne_zero hdigits (Nat.ne_of_gt (Nat.pow_pos (by decide)))
  have hleft : (Decimal.mk (digits * 10 ^ places) 0).magnitude?
      = Magnitude.nearest? (digits * 10 ^ places * stepsInOne) 1 := by
    rw [magnitude?_eq_nearest? hpow (by dsimp only; omega) (by dsimp only; omega)]
    simp only [quotient, Nat.pow_eq, Nat.pow_zero, Nat.mul_one]
  have hright : (Decimal.mk digits places).magnitude?
      = Magnitude.nearest? (digits * 10 ^ places * stepsInOne) 1 :=
    magnitude?_eq_nearest? hdigits (by dsimp only; omega) (by dsimp only; omega)
  rw [Denotes, hleft, ← hright]
  exact h

end Decimal

end SidecarIndex

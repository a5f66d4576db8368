import SidecarIndex.Number.Basic

/-! # Rounding to the nearest number

An exact quotient of whole numbers is rounded to the nearest magnitude; a quotient half-way between
two goes to the one whose last bit is even. -/

namespace SidecarIndex

/-- The whole number nearest to `num / den`, a half going to the even neighbour. -/
def roundHalfEven (num den : Nat) : Nat :=
  let floor := num / den
  let twice := 2 * (num % den)
  if twice < den then floor
  else if den < twice then floor + 1
  else floor + floor % 2

theorem roundHalfEven_bounds (num den : Nat) (h : 0 < den) :
    2 * num ≤ (2 * roundHalfEven num den + 1) * den ∧
      2 * (roundHalfEven num den * den) ≤ 2 * num + den := by
  have hdiv := Nat.div_add_mod num den
  have hmod := Nat.mod_lt num h
  have hcomm : num / den * den = den * (num / den) := Nat.mul_comm ..
  simp only [roundHalfEven]
  split
  · constructor
    · rw [Nat.add_mul, Nat.mul_assoc, hcomm]; omega
    · rw [hcomm]; omega
  · split
    · constructor
      · rw [Nat.add_mul, Nat.mul_assoc, Nat.add_mul, hcomm]; omega
      · rw [Nat.add_mul, hcomm]; omega
    · have hhalf : 2 * (num % den) = den := by omega
      rcases Nat.mod_two_eq_zero_or_one (num / den) with hpar | hpar <;> rw [hpar]
      · constructor
        · rw [Nat.add_mul, Nat.mul_assoc, Nat.add_zero, hcomm]; omega
        · rw [Nat.add_zero, hcomm]; omega
      · constructor
        · rw [Nat.add_mul, Nat.mul_assoc, Nat.add_mul, hcomm]; omega
        · rw [Nat.add_mul, hcomm]; omega

/-- The count of steps nearest to `num / den` that has at most 53 significant bits. -/
def nearestSteps (num den : Nat) : Nat :=
  let unit := spacing (num / den)
  roundHalfEven num (den * unit) * unit

def Magnitude.nearest? (num den : Nat) : Option Magnitude :=
  Magnitude.ofSteps? (nearestSteps num den)

theorem roundHalfEven_of_mul (k den : Nat) (h : 0 < den) : roundHalfEven (k * den) den = k := by
  simp [roundHalfEven, Nat.mul_div_cancel k h, h]

theorem nearestSteps_steps (m : Magnitude) : nearestSteps m.steps 1 = m.steps := by
  have hdvd : spacing m.steps ∣ m.steps := Nat.dvd_of_mod_eq_zero m.representable.1
  obtain ⟨k, hk⟩ := hdvd
  have hpos : 0 < spacing m.steps := Nat.two_pow_pos _
  have hround : roundHalfEven m.steps (spacing m.steps) = k := by
    have := roundHalfEven_of_mul k (spacing m.steps) hpos
    rwa [Nat.mul_comm k, ← hk] at this
  simp only [nearestSteps, Nat.div_one, Nat.one_mul, hround]
  rw [Nat.mul_comm]; exact hk.symm

end SidecarIndex

import Mathlib.Algebra.Order.Field.Power
import Mathlib.Algebra.Order.Ring.Abs
import Mathlib.Data.Rat.Cast.Order
import Mathlib.Tactic.FieldSimp
import Mathlib.Tactic.Linarith
import Mathlib.Tactic.Qify
import SidecarIndex.Proofs.Number.Denotation

/-! # Correct rounding

The count of steps to which a quotient is rounded is the nearest one with at most 53 significant
bits, and the even one of two that are equally near. No other count is that. What lies between a
value and the count that it is rounded to is rounded to the same count, and so is whatever is closer
to a count than half of what separates it from any other. -/

namespace SidecarIndex

/-- Whether a count of steps has at most 53 significant bits. -/
def Precise (k : Nat) : Prop := k % spacing k = 0

/-- The correct rounding of a value in steps: to nearest, a half to even. -/
structure RoundsTo (x : ℚ) (n : Nat) : Prop where
  precise : Precise n
  nearest : ∀ k, Precise k → |(n : ℚ) - x| ≤ |(k : ℚ) - x|
  even : ∀ k, Precise k → k ≠ n → |(n : ℚ) - x| = |(k : ℚ) - x| → n / spacing n % 2 = 0

/-! ### Counts with 53 bits -/

theorem spacing_eq (k : Nat) : spacing k = 2 ^ (k.log2 - 52) := rfl

theorem spacing_pos (k : Nat) : 0 < spacing k := Nat.two_pow_pos _

theorem spacing_dvd_spacing {j k : Nat} (h : j.log2 ≤ k.log2) : spacing j ∣ spacing k :=
  Nat.pow_dvd_pow 2 (by omega)

theorem log2_le_log2 {j k : Nat} (h : j ≤ k) : j.log2 ≤ k.log2 := by
  by_cases hj : j = 0
  · rw [hj, Nat.log2_zero]
    exact Nat.zero_le _
  · exact (Nat.le_log2 (by omega)).2 (Nat.le_trans (Nat.log2_self_le hj) h)

theorem Precise.dvd {k : Nat} (h : Precise k) : spacing k ∣ k := Nat.dvd_of_mod_eq_zero h

theorem precise_of_dvd {n unit : Nat} (hunit : spacing n ∣ unit) (h : unit ∣ n) : Precise n :=
  Nat.mod_eq_zero_of_dvd (hunit.trans h)

theorem precise_two_pow (e : Nat) : Precise (2 ^ e) := by
  have hspacing : spacing (2 ^ e) ∣ 2 ^ e := by
    rw [spacing_eq, Nat.log2_two_pow]
    exact Nat.pow_dvd_pow 2 (Nat.sub_le e 52)
  exact precise_of_dvd hspacing dvd_rfl

theorem Magnitude.precise (m : Magnitude) : Precise m.steps := m.representable.1

/-- What has more bits than a precise count is far from it. -/
theorem Precise.lt_gap {j k : Nat} (hj : Precise j) (hk : Precise k) (h : j < k) :
    j < 2 ^ 53 * (k - j) := by
  have hdvd : spacing j ∣ k - j :=
    Nat.dvd_sub ((spacing_dvd_spacing (log2_le_log2 (Nat.le_of_lt h))).trans hk.dvd) hj.dvd
  have hgap : spacing j ≤ k - j := Nat.le_of_dvd (by omega) hdvd
  have hbits : j < 2 ^ (j.log2 + 1) := Nat.lt_log2_self
  calc j < 2 ^ (j.log2 + 1) := hbits
    _ ≤ 2 ^ (53 + (j.log2 - 52)) := Nat.pow_le_pow_right (by decide) (by omega)
    _ = 2 ^ 53 * spacing j := Nat.pow_add 2 53 _
    _ ≤ 2 ^ 53 * (k - j) := Nat.mul_le_mul_left _ hgap

theorem Precise.le_gap {n k : Nat} (hn : Precise n) (hk : Precise k) (hne : k ≠ n) :
    (n : ℚ) ≤ (2 ^ 53 + 1) * |(k : ℚ) - n| := by
  rcases Nat.lt_or_gt_of_ne hne with hlt | hgt
  · have hgap := hk.lt_gap hn hlt
    have hcast : (k : ℚ) < 2 ^ 53 * ((n - k : Nat) : ℚ) := by exact_mod_cast hgap
    rw [Nat.cast_sub (Nat.le_of_lt hlt)] at hcast
    rw [abs_sub_comm, abs_of_pos (sub_pos.2 (Nat.cast_lt.2 hlt))]
    linarith
  · have hgap := hn.lt_gap hk hgt
    have hcast : (n : ℚ) < 2 ^ 53 * ((k - n : Nat) : ℚ) := by exact_mod_cast hgap
    rw [Nat.cast_sub (Nat.le_of_lt hgt)] at hcast
    rw [abs_of_pos (sub_pos.2 (Nat.cast_lt.2 hgt))]
    linarith

theorem spacing_dvd_two_pow {n e : Nat} (h : n.log2 ≤ e) : spacing n ∣ 2 ^ e :=
  Nat.pow_dvd_pow 2 (by omega)

/-- One spacing further the bits are as many as before, or a power of two is reached. -/
theorem Precise.next_cases {n : Nat} (h : Precise n) :
    n + spacing n = 2 ^ (n.log2 + 1) ∨ (n + spacing n).log2 = n.log2 := by
  have hlt : n < 2 ^ (n.log2 + 1) := Nat.lt_log2_self
  have hgap : spacing n ≤ 2 ^ (n.log2 + 1) - n :=
    Nat.le_of_dvd (by omega) (Nat.dvd_sub (spacing_dvd_two_pow (Nat.le_succ _)) h.dvd)
  rcases Nat.lt_or_ge (n + spacing n) (2 ^ (n.log2 + 1)) with hbits | hbits
  · have hne : n + spacing n ≠ 0 := by
      have hpos := spacing_pos n
      omega
    have hupper := (Nat.log2_lt hne).2 hbits
    have hlower : n.log2 ≤ (n + spacing n).log2 := log2_le_log2 (Nat.le_add_right _ _)
    exact .inr (by omega)
  · exact .inl (by omega)

theorem Precise.next {n : Nat} (h : Precise n) : Precise (n + spacing n) := by
  rcases h.next_cases with hpow | hbits
  · rw [hpow]
    exact precise_two_pow _
  · exact precise_of_dvd (spacing_dvd_spacing (Nat.le_of_eq hbits)) (Nat.dvd_add h.dvd dvd_rfl)

/-- Neighbours are not both even. -/
theorem Precise.next_odd {n : Nat} (h : Precise n) (heven : n / spacing n % 2 = 0) :
    (n + spacing n) / spacing (n + spacing n) % 2 = 1 := by
  have hquotient : (n + spacing n) / spacing n = n / spacing n + 1 :=
    Nat.add_div_right n (spacing_pos n)
  rcases h.next_cases with hpow | hbits
  · -- A power of two is an even number of spacings before it.
    have hbelow : n.log2 + 1 = (n.log2 - (n.log2 - 52)) + 1 + (n.log2 - 52) := by omega
    rw [hpow, spacing_eq n, hbelow, Nat.pow_add, Nat.mul_div_cancel _ (Nat.two_pow_pos _),
      Nat.pow_succ]
      at hquotient
    rw [spacing_eq n] at heven
    omega
  · have hspacing : spacing (n + spacing n) = spacing n :=
      congrArg (fun bits => 2 ^ (bits - 52)) hbits
    rw [hspacing, hquotient]
    omega

/-! ### The correct rounding -/

namespace RoundsTo

variable {x y : ℚ} {n : Nat}

/-- From a value to what it is rounded to everything is rounded alike. -/
theorem between (h : RoundsTo x n) (hy : |(n : ℚ) - y| + |y - x| = |(n : ℚ) - x|) :
    RoundsTo y n where
  precise := h.precise
  nearest := by
    intro k hk
    have hnear := h.nearest k hk
    have hdetour := abs_sub_le (k : ℚ) y x
    linarith
  even := by
    intro k hk hne htie
    have hnear := h.nearest k hk
    have hdetour := abs_sub_le (k : ℚ) y x
    exact h.even k hk hne (by linarith)

/-- What is closer to a count than half of what separates it from others is rounded to it. -/
theorem of_close (h : Precise n) (hclose : 2 * (2 ^ 53 + 1) * |(n : ℚ) - x| < n) :
    RoundsTo x n := by
  have hfar : ∀ k, Precise k → k ≠ n → |(n : ℚ) - x| < |(k : ℚ) - x| := by
    intro k hk hne
    have hgap := h.le_gap hk hne
    have hdetour := abs_sub_le (k : ℚ) x n
    rw [abs_sub_comm x n] at hdetour
    linarith
  refine ⟨h, fun k hk => ?_, fun k hk hne htie => ?_⟩
  · by_cases hne : k = n
    · rw [hne]
    · exact Rat.le_of_lt (hfar k hk hne)
  · exact absurd htie (ne_of_lt (hfar k hk hne))

theorem unique_of_le {m : Nat} (hm : RoundsTo x m) (hn : RoundsTo x n) (hle : m ≤ n) : m = n := by
  by_contra hne
  have hlt : m < n := Nat.lt_of_le_of_ne hle hne
  have hdistance : |(m : ℚ) - x| = |(n : ℚ) - x| :=
    le_antisymm (hm.nearest n hn.precise) (hn.nearest m hm.precise)
  have hgap : spacing m ≤ n - m := by
    refine Nat.le_of_dvd (by omega) (Nat.dvd_sub ?_ hm.precise.dvd)
    exact (spacing_dvd_spacing (log2_le_log2 hle)).trans hn.precise.dvd
  have hpos := spacing_pos m
  have hwidth : (m : ℚ) < n := Nat.cast_lt.2 hlt
  have hmiddle : x = (m + n) / 2 := by
    rcases abs_eq_abs.1 hdistance with heq | heq
    all_goals linarith
  have hnext : m + spacing m = n := by
    by_contra hbefore
    have hnear := hm.nearest _ hm.precise.next
    have hinside : ((m + spacing m : Nat) : ℚ) < n := by
      rw [Nat.cast_lt]
      omega
    have hbeyond : (m : ℚ) < ((m + spacing m : Nat) : ℚ) := by
      rw [Nat.cast_lt]
      omega
    have hcloser : |((m + spacing m : Nat) : ℚ) - x| < |(m : ℚ) - x| := by
      rw [hmiddle, abs_sub_comm (m : ℚ), abs_of_pos (by linarith : 0 < ((m : ℚ) + n) / 2 - m)]
      exact abs_lt.2 ⟨by linarith, by linarith⟩
    exact absurd hcloser (not_lt_of_ge hnear)
  have hodd := hm.precise.next_odd (hm.even n hn.precise (Ne.symm hne) hdistance)
  rw [hnext, hn.even m hm.precise hne hdistance.symm] at hodd
  exact absurd hodd (by decide)

/-- Only one count is the correct rounding of a value. -/
theorem unique {m : Nat} (hm : RoundsTo x m) (hn : RoundsTo x n) : m = n := by
  rcases Nat.le_total m n with hle | hle
  · exact hm.unique_of_le hn hle
  · exact (hn.unique_of_le hm hle).symm

end RoundsTo

/-! ### Rounding a quotient -/

section Quotient

variable {num den : Nat}

theorem roundHalfEven_even_or (num : Nat) (h : 0 < den) : roundHalfEven num den % 2 = 0 ∨
    (2 * num < (2 * roundHalfEven num den + 1) * den ∧
      2 * (roundHalfEven num den * den) < 2 * num + den) := by
  have hdiv := Nat.div_add_mod num den
  have hmod := Nat.mod_lt num h
  have hcomm : num / den * den = den * (num / den) := Nat.mul_comm ..
  simp only [roundHalfEven]
  split
  · refine .inr ⟨?_, ?_⟩
    · rw [Nat.add_mul, Nat.mul_assoc, hcomm]
      omega
    · rw [hcomm]
      omega
  · split
    · refine .inr ⟨?_, ?_⟩
      · rw [Nat.add_mul, Nat.mul_assoc, Nat.add_mul, hcomm]
        omega
      · rw [Nat.add_mul, hcomm]
        omega
    · exact .inl (by omega)

theorem abs_roundHalfEven_sub_le (num : Nat) (h : 0 < den) :
    |(roundHalfEven num den : ℚ) - num / den| ≤ 1 / 2 := by
  obtain ⟨hupper, hlower⟩ := roundHalfEven_bounds num den h
  have hden : (0 : ℚ) < den := Nat.cast_pos.2 h
  qify at hupper hlower
  have hbelow : (num : ℚ) / den ≤ roundHalfEven num den + 1 / 2 :=
    (div_le_iff₀ hden).2 (by linarith)
  have habove : (roundHalfEven num den : ℚ) - 1 / 2 ≤ num / den :=
    (le_div_iff₀ hden).2 (by linarith)
  exact abs_le.2 ⟨by linarith, by linarith⟩

theorem roundHalfEven_even (h : 0 < den)
    (hhalf : 1 / 2 ≤ |(roundHalfEven num den : ℚ) - num / den|) :
    roundHalfEven num den % 2 = 0 := by
  rcases roundHalfEven_even_or num h with heven | ⟨hupper, hlower⟩
  · exact heven
  · have hden : (0 : ℚ) < den := Nat.cast_pos.2 h
    qify at hupper hlower
    have hbelow : (num : ℚ) / den < roundHalfEven num den + 1 / 2 :=
      (div_lt_iff₀ hden).2 (by linarith)
    have habove : (roundHalfEven num den : ℚ) - 1 / 2 < num / den :=
      (lt_div_iff₀ hden).2 (by linarith)
    exact absurd (abs_lt.2 ⟨by linarith, by linarith⟩) (not_lt_of_ge hhalf)

theorem nearestSteps_sub_eq (num : Nat) (h : 0 < den) : (nearestSteps num den : ℚ) - num / den =
    (roundHalfEven num (den * spacing (num / den)) - num / (den * spacing (num / den) : Nat)) *
      spacing (num / den) := by
  have hden : (den : ℚ) ≠ 0 := Nat.cast_ne_zero.2 (Nat.ne_of_gt h)
  have hunit : (spacing (num / den) : ℚ) ≠ 0 := Nat.cast_ne_zero.2 (Nat.ne_of_gt (spacing_pos _))
  rw [nearestSteps, Nat.cast_mul, Nat.cast_mul]
  field_simp

theorem abs_nearestSteps_sub_le (num : Nat) (h : 0 < den) :
    2 * |(nearestSteps num den : ℚ) - num / den| ≤ spacing (num / den) := by
  have hunit : (0 : ℚ) < spacing (num / den) := Nat.cast_pos.2 (spacing_pos _)
  have hround := abs_roundHalfEven_sub_le num (Nat.mul_pos h (spacing_pos (num / den)))
  rw [nearestSteps_sub_eq num h, abs_mul, abs_of_pos hunit]
  have hscaled := mul_le_mul_of_nonneg_right hround (le_of_lt hunit)
  linarith

theorem dvd_nearestSteps (num den : Nat) : spacing (num / den) ∣ nearestSteps num den :=
  Nat.dvd_mul_left _ _

theorem le_abs_sub_of_dvd {unit j k : Nat} (hj : unit ∣ j) (hk : unit ∣ k) (hne : j ≠ k) :
    (unit : ℚ) ≤ |(j : ℚ) - k| := by
  rcases Nat.lt_or_gt_of_ne hne with hlt | hgt
  · have hgap : unit ≤ k - j := Nat.le_of_dvd (by omega) (Nat.dvd_sub hk hj)
    rw [abs_sub_comm, ← Nat.cast_sub (Nat.le_of_lt hlt), Nat.abs_cast, Nat.cast_le]
    exact hgap
  · have hgap : unit ≤ j - k := Nat.le_of_dvd (by omega) (Nat.dvd_sub hj hk)
    rw [← Nat.cast_sub (Nat.le_of_lt hgt), Nat.abs_cast, Nat.cast_le]
    exact hgap

/-- Of the multiples of the unit none is nearer, and one that is as near lies a whole unit away. -/
theorem abs_nearestSteps_sub_le_of_dvd (h : 0 < den) {k : Nat} (hk : spacing (num / den) ∣ k) :
    |(nearestSteps num den : ℚ) - num / den| ≤ |(k : ℚ) - num / den| := by
  by_cases hne : k = nearestSteps num den
  · rw [hne]
  · have hhalf := abs_nearestSteps_sub_le num h
    have hapart := le_abs_sub_of_dvd hk (dvd_nearestSteps num den) hne
    have hdetour := abs_sub_le (k : ℚ) (num / den) (nearestSteps num den)
    rw [abs_sub_comm ((num : ℚ) / den)] at hdetour
    linarith

/-- A precise count that is no multiple of the unit has fewer bits than the quotient, so that the
power of two which the quotient begins with is closer. -/
theorem abs_nearestSteps_sub_lt_of_not_dvd (h : 0 < den) {k : Nat} (hk : Precise k)
    (hdvd : ¬ spacing (num / den) ∣ k) :
    |(nearestSteps num den : ℚ) - num / den| < |(k : ℚ) - num / den| := by
  have hbits : k.log2 < (num / den).log2 := by
    refine Nat.lt_of_not_le fun hle => hdvd ?_
    exact (spacing_dvd_spacing hle).trans hk.dvd
  have hlt : k < 2 ^ (num / den).log2 :=
    Nat.lt_of_lt_of_le Nat.lt_log2_self (Nat.pow_le_pow_right (by decide) hbits)
  have hfloor : 2 ^ (num / den).log2 ≤ num / den := by
    refine Nat.log2_self_le fun hzero => ?_
    rw [hzero, Nat.log2_zero] at hbits
    omega
  have hnear : |(nearestSteps num den : ℚ) - num / den|
      ≤ |((2 ^ (num / den).log2 : Nat) : ℚ) - num / den| :=
    abs_nearestSteps_sub_le_of_dvd h (spacing_dvd_two_pow (Nat.le_refl _))
  generalize 2 ^ (num / den).log2 = power at hlt hfloor hnear
  have hquotient : (power : ℚ) ≤ num / den := by
    rw [le_div_iff₀ (Nat.cast_pos.2 h)]
    exact_mod_cast (Nat.le_div_iff_mul_le h).1 hfloor
  have hbelow : (k : ℚ) < power := Nat.cast_lt.2 hlt
  rw [abs_of_nonpos (by linarith : (power : ℚ) - num / den ≤ 0)] at hnear
  rw [abs_of_neg (by linarith : (k : ℚ) - num / den < 0)]
  linarith

theorem nearestSteps_le (num : Nat) (h : 0 < den) :
    nearestSteps num den ≤ 2 ^ ((num / den).log2 + 1) := by
  have hbits : num / den < 2 ^ ((num / den).log2 + 1) := Nat.lt_log2_self
  have hnear : |(nearestSteps num den : ℚ) - num / den| ≤
      |((2 ^ ((num / den).log2 + 1) : Nat) : ℚ) - num / den| :=
    abs_nearestSteps_sub_le_of_dvd h (spacing_dvd_two_pow (Nat.le_succ _))
  generalize 2 ^ ((num / den).log2 + 1) = power at hbits hnear ⊢
  have hquotient : (num : ℚ) / den < power := by
    rw [div_lt_iff₀ (Nat.cast_pos.2 h)]
    exact_mod_cast (Nat.div_lt_iff_lt_mul h).1 hbits
  rw [abs_of_pos (by linarith : 0 < (power : ℚ) - num / den)] at hnear
  have habove := (abs_le.1 hnear).2
  exact_mod_cast (by linarith : (nearestSteps num den : ℚ) ≤ power)

/-- A multiple of the unit that has at most one bit more than the quotient is precise, and it is
even when it is an even number of units. -/
theorem precise_of_multiple {n bits : Nat} (hle : n ≤ 2 ^ (bits + 1)) (hdvd : 2 ^ (bits - 52) ∣ n) :
    Precise n ∧ (n / 2 ^ (bits - 52) % 2 = 0 → n / spacing n % 2 = 0) := by
  by_cases hpower : n = 2 ^ (bits + 1)
  · subst hpower
    refine ⟨precise_two_pow _, fun _ => ?_⟩
    have hspacing : spacing (2 ^ (bits + 1)) = 2 ^ (bits + 1 - 52) := by
      rw [spacing_eq, Nat.log2_two_pow]
    have hsplit : 2 ^ (bits + 1) = 2 ^ (bits - (bits + 1 - 52) + 1) * 2 ^ (bits + 1 - 52) := by
      rw [← Nat.pow_add]
      exact congrArg (2 ^ ·) (by omega)
    rw [hspacing, hsplit, Nat.mul_div_cancel _ (Nat.two_pow_pos _), Nat.pow_succ, Nat.mul_mod_left]
  · have hlog : n.log2 ≤ bits := by
      by_cases hzero : n = 0
      · rw [hzero, Nat.log2_zero]
        exact Nat.zero_le bits
      · exact Nat.le_of_lt_succ ((Nat.log2_lt hzero).2 (by omega))
    have hunit : spacing n ∣ 2 ^ (bits - 52) := Nat.pow_dvd_pow 2 (by omega)
    refine ⟨precise_of_dvd hunit hdvd, fun heven => ?_⟩
    have hsplit : n / spacing n = 2 ^ (bits - 52) / spacing n * (n / 2 ^ (bits - 52)) := by
      rw [Nat.div_mul_div_comm hunit hdvd, Nat.mul_comm (spacing n),
        Nat.mul_div_mul_left _ _ (Nat.two_pow_pos _)]
    rw [hsplit, Nat.mul_mod, heven, Nat.mul_zero, Nat.zero_mod]

/-- A quotient is rounded correctly. -/
theorem roundsTo_nearestSteps (num : Nat) (h : 0 < den) :
    RoundsTo (num / den) (nearestSteps num den) := by
  obtain ⟨hprecise, heven⟩ := precise_of_multiple (nearestSteps_le num h) (dvd_nearestSteps num den)
  refine ⟨hprecise, fun k hk => ?_, fun k hk hne htie => heven ?_⟩
  · by_cases hdvd : spacing (num / den) ∣ k
    · exact abs_nearestSteps_sub_le_of_dvd h hdvd
    · exact le_of_lt (abs_nearestSteps_sub_lt_of_not_dvd h hk hdvd)
  · have hdvd : spacing (num / den) ∣ k :=
      Classical.not_not.1 fun hnot => ne_of_lt (abs_nearestSteps_sub_lt_of_not_dvd h hk hnot) htie
    have hunits : nearestSteps num den / 2 ^ ((num / den).log2 - 52) =
        roundHalfEven num (den * spacing (num / den)) := Nat.mul_div_cancel _ (spacing_pos _)
    rw [hunits]
    refine roundHalfEven_even (Nat.mul_pos h (spacing_pos _)) ?_
    have hunit : (0 : ℚ) < spacing (num / den) := Nat.cast_pos.2 (spacing_pos _)
    have hapart := le_abs_sub_of_dvd hdvd (dvd_nearestSteps num den) hne
    have hdetour := abs_sub_le (k : ℚ) (num / den) (nearestSteps num den)
    rw [abs_sub_comm ((num : ℚ) / den), ← htie, nearestSteps_sub_eq num h, abs_mul,
      abs_of_pos hunit]
      at hdetour
    refine le_of_mul_le_mul_right ?_ hunit
    linarith

end Quotient

-- Behind `2 ^ 53` every second count is half-way between its neighbours.
example : nearestSteps (2 ^ 53 + 1) 1 = 2 ^ 53 ∧ nearestSteps (2 ^ 53 + 3) 1 = 2 ^ 53 + 4 := by
  decide +kernel

/-! ### Reading a decimal -/

theorem exists_stepLimit_eq : ∃ k, k = 2098 ∧ stepLimit = 2 ^ k := by
  unfold stepLimit
  generalize 2098 = k
  exact ⟨k, rfl, rfl⟩

theorem precise_stepLimit : Precise stepLimit := by
  obtain ⟨k, _, hlimit⟩ := exists_stepLimit_eq
  rw [hlimit]
  exact precise_two_pow k

theorem two_pow_le_ten_pow {k n : Nat} (h : k ≤ 3 * n) : 2 ^ k ≤ 10 ^ n :=
  calc 2 ^ k ≤ 2 ^ (3 * n) := Nat.pow_le_pow_right (by decide) h
    _ = 8 ^ n := Nat.pow_mul 2 3 n
    _ ≤ 10 ^ n := Nat.pow_le_pow_left (by decide) n

/-- What is at most half a step is rounded to zero. -/
theorem RoundsTo.zero_of_le_half {x : ℚ} (hpos : 0 ≤ x) (hhalf : x ≤ 1 / 2) : RoundsTo x 0 where
  precise := Nat.zero_mod _
  nearest := by
    intro k _
    rw [Nat.cast_zero, zero_sub, abs_neg, abs_of_nonneg hpos]
    by_cases hk : k = 0
    · rw [hk, Nat.cast_zero, zero_sub, abs_neg, abs_of_nonneg hpos]
    · have hone : (1 : ℚ) ≤ k := Nat.one_le_cast.2 (Nat.pos_of_ne_zero hk)
      rw [abs_of_nonneg (by linarith)]
      linarith
  even := by
    intro k _ _ _
    rw [Nat.zero_div]

/-- What is beyond all magnitudes is rounded to a count beyond them. -/
theorem RoundsTo.stepLimit_le {x : ℚ} {n : Nat} (h : RoundsTo x n) (hlarge : (stepLimit : ℚ) ≤ x) :
    stepLimit ≤ n := by
  have hnear := h.nearest _ precise_stepLimit
  rw [abs_of_nonpos (by linarith : (stepLimit : ℚ) - x ≤ 0)] at hnear
  have hbelow := (abs_le.1 hnear).1
  exact Nat.cast_le.1 (by linarith : (stepLimit : ℚ) ≤ n)

namespace Decimal

/-- The value of a decimal in steps. -/
def inSteps (d : Decimal) : ℚ := d.digits * 10 ^ d.exponent * stepsInOne

theorem quotient_pos (d : Decimal) : 0 < d.quotient.2 := by
  obtain ⟨digits, exponent⟩ := d
  cases exponent with
  | ofNat e => exact Nat.one_pos
  | negSucc e => exact Nat.pow_pos (by decide)

theorem inSteps_eq (d : Decimal) : d.inSteps = d.quotient.1 / d.quotient.2 := by
  obtain ⟨digits, exponent⟩ := d
  cases exponent with
  | ofNat e =>
    simp only [inSteps, quotient, Nat.pow_eq, Int.ofNat_eq_natCast, zpow_natCast, Nat.cast_mul,
      Nat.cast_pow, Nat.cast_ofNat, Nat.cast_one, div_one]
  | negSucc e =>
    simp only [inSteps, quotient, Nat.pow_eq, zpow_negSucc, Nat.cast_mul, Nat.cast_pow,
      Nat.cast_ofNat]
    rw [mul_right_comm, div_eq_mul_inv]

theorem inSteps_nonneg (d : Decimal) : 0 ≤ d.inSteps := by
  rw [inSteps_eq]
  exact div_nonneg (Nat.cast_nonneg _) (Nat.cast_nonneg _)

theorem stepLimit_le_inSteps {d : Decimal} (hdigits : d.digits ≠ 0) (hlarge : 400 < d.exponent) :
    (stepLimit : ℚ) ≤ d.inSteps := by
  obtain ⟨n, hn⟩ := Int.eq_ofNat_of_zero_le (by omega : 0 ≤ d.exponent)
  obtain ⟨k, hk, hsteps⟩ := exists_stepsInOne_eq
  obtain ⟨l, hl, hlimit⟩ := exists_stepLimit_eq
  have hpower : 2 ^ (l - k) ≤ 10 ^ n := two_pow_le_ten_pow (by omega)
  have hsplit : l = l - k + k := by omega
  have hle : stepLimit ≤ d.digits * 10 ^ n * stepsInOne := by
    rw [hlimit, hsteps, hsplit, Nat.pow_add]
    exact Nat.mul_le_mul_right _
      (Nat.le_trans hpower (Nat.le_mul_of_pos_left _ (Nat.pos_of_ne_zero hdigits)))
  rw [inSteps, hn, zpow_natCast]
  exact_mod_cast hle

theorem inSteps_le_half {d : Decimal}
    (hsmall : (d.digits.log2 : Int) + 1 + 3 * d.exponent < -1100) : d.inSteps ≤ 1 / 2 := by
  obtain ⟨n, hn⟩ := Int.eq_ofNat_of_zero_le (by omega : 0 ≤ -d.exponent)
  obtain ⟨k, hk, hsteps⟩ := exists_stepsInOne_eq
  have hbits : d.digits ≤ 2 ^ (d.digits.log2 + 1) := Nat.le_of_lt Nat.lt_log2_self
  have hle : d.digits * stepsInOne * 2 ≤ 10 ^ n := by
    calc d.digits * stepsInOne * 2 ≤ 2 ^ (d.digits.log2 + 1) * 2 ^ k * 2 := by
          rw [hsteps]
          exact Nat.mul_le_mul_right _ (Nat.mul_le_mul_right _ hbits)
      _ = 2 ^ (d.digits.log2 + 1 + k + 1) := by rw [← Nat.pow_add, ← Nat.pow_succ]
      _ ≤ 10 ^ n := two_pow_le_ten_pow (by omega)
  have hexponent : d.exponent = -n := by omega
  have hten : (0 : ℚ) < 10 ^ n := pow_pos (by norm_num) n
  rw [inSteps, hexponent, zpow_neg, zpow_natCast, mul_right_comm, ← div_eq_mul_inv,
    div_le_div_iff₀ hten two_pos, one_mul]
  exact_mod_cast hle

/-- A decimal is read as its value is rounded, also where the power of ten is not computed. -/
theorem exists_roundsTo (d : Decimal) : ∃ n, RoundsTo d.inSteps n ∧
    d.magnitude? = Magnitude.ofSteps? n := by
  have hrounds : RoundsTo d.inSteps (nearestSteps d.quotient.1 d.quotient.2) := by
    rw [inSteps_eq]
    exact roundsTo_nearestSteps _ d.quotient_pos
  have hzero : some Magnitude.zero = Magnitude.ofSteps? 0 :=
    (Magnitude.ofSteps?_steps Magnitude.zero).symm
  by_cases hdigits : d.digits = 0
  · have hvalue : d.inSteps = 0 := by
      rw [inSteps, hdigits, Nat.cast_zero, zero_mul, zero_mul]
    refine ⟨0, .zero_of_le_half d.inSteps_nonneg (by rw [hvalue]; norm_num), ?_⟩
    rw [magnitude?, if_pos hdigits, hzero]
  by_cases hlarge : 400 < d.exponent
  · refine ⟨_, hrounds, ?_⟩
    have hbeyond := hrounds.stepLimit_le (stepLimit_le_inSteps hdigits hlarge)
    rw [magnitude?, if_neg hdigits, if_pos hlarge, Magnitude.ofSteps?,
      dif_neg fun hrepresentable => Nat.not_lt.2 hbeyond hrepresentable.2]
  by_cases hsmall : (d.digits.log2 : Int) + 1 + 3 * d.exponent < -1100
  · refine ⟨0, .zero_of_le_half d.inSteps_nonneg (inSteps_le_half hsmall), ?_⟩
    rw [magnitude?, if_neg hdigits, if_neg hlarge, if_pos hsmall, hzero]
  · refine ⟨_, hrounds, ?_⟩
    rw [magnitude?, if_neg hdigits, if_neg hlarge, if_neg hsmall, Magnitude.nearest?]

theorem denotes_iff {d : Decimal} {m : Magnitude} : d.Denotes m ↔ RoundsTo d.inSteps m.steps := by
  obtain ⟨n, hrounds, hread⟩ := d.exists_roundsTo
  rw [Denotes, hread]
  apply Iff.intro
  · intro h
    have hsteps : m.steps = n := by
      unfold Magnitude.ofSteps? at h
      split at h
      · cases h
        rfl
      · cases h
    rwa [hsteps]
  · intro h
    rw [hrounds.unique h, Magnitude.ofSteps?_steps]

end Decimal

end SidecarIndex

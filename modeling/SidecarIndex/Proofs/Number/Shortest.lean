import Mathlib.Tactic.Ring
import SidecarIndex.Proofs.Number.Rounding

/-! # Shortest decimals

The decimal that is written for a magnitude has the fewest digits of all that denote it, never more
than seventeen, and of those with as many digits none is nearer. On the grid of one place only the
neighbours of the magnitude have to be tried: whatever is shorter than the grid allows lies outside
of them, and a neighbour that stands between a decimal and the magnitude denotes the magnitude if
the decimal does. -/

namespace SidecarIndex

namespace Decimal

/-- The decimal has the fewest digits of all that denote the magnitude and is the nearest of
these. -/
structure IsShortest (d : Decimal) (m : Magnitude) : Prop where
  denotes : d.Denotes m
  fewest : ∀ e : Decimal, e.Denotes m → digitCount d.digits ≤ digitCount e.digits
  nearest : ∀ e : Decimal, e.Denotes m → digitCount e.digits = digitCount d.digits →
    |d.inSteps - m.steps| ≤ |e.inSteps - m.steps|

/-! ### Counting digits -/

theorem digitCount_pos (n : Nat) : 0 < digitCount n := Nat.length_toDigits_pos

theorem digitCount_le_iff {n k : Nat} (hk : 0 < k) : digitCount n ≤ k ↔ n < 10 ^ k :=
  Nat.length_toDigits_le_iff (by decide) hk

theorem lt_pow_digitCount (n : Nat) : n < 10 ^ digitCount n :=
  (digitCount_le_iff (digitCount_pos n)).1 (Nat.le_refl _)

theorem pow_digitCount_le {n : Nat} (h : n ≠ 0) : 10 ^ (digitCount n - 1) ≤ n := by
  refine Nat.le_of_not_lt fun hlt => ?_
  by_cases hone : digitCount n - 1 = 0
  · rw [hone, Nat.pow_zero] at hlt
    omega
  · have hle := (digitCount_le_iff (Nat.pos_of_ne_zero hone)).2 hlt
    have hpos := digitCount_pos n
    omega

/-! ### Powers of ten -/

def tenInSteps (place : Int) : ℚ := 10 ^ place * stepsInOne

theorem inSteps_eq_mul (d : Decimal) : d.inSteps = d.digits * tenInSteps d.exponent :=
  mul_assoc _ _ _

theorem tenInSteps_pos (place : Int) : 0 < tenInSteps place :=
  mul_pos (zpow_pos (by norm_num) place) (Nat.cast_pos.2 stepsInOne_pos)

theorem tenInSteps_natCast (k : Nat) : tenInSteps k = (10 ^ k * stepsInOne : Nat) := by
  rw [tenInSteps, zpow_natCast]
  norm_cast

theorem tenInSteps_neg_natCast (k : Nat) : tenInSteps (-k) = stepsInOne / (10 ^ k : Nat) := by
  rw [tenInSteps, zpow_neg, zpow_natCast, mul_comm, ← div_eq_mul_inv]
  norm_cast

theorem tenInSteps_add (place : Int) (k : Nat) :
    tenInSteps (place + k) = 10 ^ k * tenInSteps place := by
  rw [tenInSteps, zpow_add₀ (by norm_num), zpow_natCast, mul_comm ((10 : ℚ) ^ place), mul_assoc,
    tenInSteps]

theorem tenInSteps_le {place later : Int} (h : place ≤ later) :
    tenInSteps place ≤ tenInSteps later :=
  mul_le_mul_of_nonneg_right (zpow_le_zpow_right₀ (by norm_num) h) (Nat.cast_nonneg _)

/-! ### Zeros at the end -/

theorem inSteps_trimmed (d : Decimal) : d.trimmed.inSteps = d.inSteps := by
  fun_induction trimmed d with
  | case1 d hzero => simp only [inSteps, hzero, Nat.cast_zero, zero_mul]
  | case2 d _ hdvd ih =>
    have hten : (d.digits : ℚ) = (d.digits / 10 : Nat) * 10 := by
      exact_mod_cast (Nat.div_mul_cancel (Nat.dvd_of_mod_eq_zero hdvd.1)).symm
    have hplace := tenInSteps_add d.exponent 1
    rw [Nat.cast_one, pow_one] at hplace
    rw [ih, inSteps_eq_mul, inSteps_eq_mul, hplace, hten, mul_assoc]
  | case3 d _ _ => rfl

theorem trimmed_digits_le (d : Decimal) : d.trimmed.digits ≤ d.digits := by
  fun_induction trimmed d with
  | case1 d _ => exact Nat.zero_le _
  | case2 d _ _ ih => exact Nat.le_trans ih (Nat.div_le_self _ _)
  | case3 d _ _ => exact Nat.le_refl _

theorem trimmed_cases (d : Decimal) : d.trimmed = ⟨0, 0⟩ ∨ d.trimmed.digits % 10 ≠ 0 := by
  fun_induction trimmed d with
  | case1 d _ => exact .inl rfl
  | case2 d _ _ ih => exact ih
  | case3 d hne hstop => exact .inr fun hzero => hstop ⟨hzero, hne⟩

/-- A power of ten has one digit left. -/
theorem trimmed_digits_lt {d : Decimal} {k : Nat} (hk : 0 < k) (h : d.digits ≤ 10 ^ k) :
    d.trimmed.digits < 10 ^ k := by
  refine Nat.lt_of_le_of_ne (Nat.le_trans d.trimmed_digits_le h) fun heq => ?_
  have hten : 10 ^ k % 10 = 0 := Nat.mod_eq_zero_of_dvd (dvd_pow_self 10 (Nat.ne_of_gt hk))
  rcases d.trimmed_cases with hzero | hmod
  · rw [hzero] at heq
    exact absurd heq.symm (Nat.ne_of_gt (Nat.pow_pos (by decide)))
  · rw [heq] at hmod
    exact hmod hten

theorem denotes_trimmed_iff {d : Decimal} {m : Magnitude} : d.trimmed.Denotes m ↔ d.Denotes m := by
  rw [denotes_iff, denotes_iff, inSteps_trimmed]

/-! ### The first digit -/

theorem leadingPlace_bounds_of_le {m : Magnitude} (hone : stepsInOne ≤ m.steps) :
    tenInSteps (leadingPlace m) ≤ m.steps ∧ m.steps < tenInSteps (leadingPlace m + 1) := by
  have hwhole : m.whole ≠ 0 := Nat.ne_of_gt (Nat.div_pos hone stepsInOne_pos)
  have hlower : 10 ^ (digitCount m.whole - 1) * stepsInOne ≤ m.steps :=
    Nat.le_trans (Nat.mul_le_mul_right _ (pow_digitCount_le hwhole)) (Nat.div_mul_le_self _ _)
  have hupper : m.steps < 10 ^ digitCount m.whole * stepsInOne :=
    (Nat.div_lt_iff_lt_mul stepsInOne_pos).1 (lt_pow_digitCount _)
  have hpos := digitCount_pos m.whole
  have hplace : leadingPlace m = (digitCount m.whole - 1 : Nat) := by
    rw [leadingPlace, if_pos hone]
    omega
  have hnext : leadingPlace m + 1 = digitCount m.whole := by omega
  rw [hnext, hplace, tenInSteps_natCast, tenInSteps_natCast, Nat.cast_le, Nat.cast_lt]
  exact ⟨hlower, hupper⟩

theorem leadingPlace_bounds_of_lt {m : Magnitude} (h : m.steps ≠ 0) (hone : m.steps < stepsInOne) :
    tenInSteps (leadingPlace m) ≤ m.steps ∧ m.steps < tenInSteps (leadingPlace m + 1) := by
  have hsteps : 0 < m.steps := Nat.pos_of_ne_zero h
  have hquotient : (stepsInOne - 1) / m.steps ≠ 0 := Nat.ne_of_gt (Nat.div_pos (by omega) hsteps)
  have hlower : stepsInOne ≤ m.steps * 10 ^ digitCount ((stepsInOne - 1) / m.steps) := by
    have hlt := (Nat.div_lt_iff_lt_mul hsteps).1 (lt_pow_digitCount ((stepsInOne - 1) / m.steps))
    rw [Nat.mul_comm] at hlt
    omega
  have hupper : m.steps * 10 ^ (digitCount ((stepsInOne - 1) / m.steps) - 1) < stepsInOne := by
    have hle := (Nat.le_div_iff_mul_le hsteps).1 (pow_digitCount_le hquotient)
    rw [Nat.mul_comm] at hle
    omega
  have hcount := digitCount_pos ((stepsInOne - 1) / m.steps)
  have hplace : leadingPlace m = -(digitCount ((stepsInOne - 1) / m.steps) : Int) :=
    if_neg (Nat.not_le.2 hone)
  have hnext : leadingPlace m + 1
      = -((digitCount ((stepsInOne - 1) / m.steps) - 1 : Nat) : Int) := by omega
  rw [hnext, hplace, tenInSteps_neg_natCast, tenInSteps_neg_natCast]
  refine ⟨(div_le_iff₀ (Nat.cast_pos.2 (Nat.pow_pos (by decide)))).2 ?_,
    (lt_div_iff₀ (Nat.cast_pos.2 (Nat.pow_pos (by decide)))).2 ?_⟩
  · exact_mod_cast hlower
  · exact_mod_cast hupper

/-- The first digit of a magnitude stands at its leading place. -/
theorem leadingPlace_bounds {m : Magnitude} (h : m.steps ≠ 0) :
    tenInSteps (leadingPlace m) ≤ m.steps ∧ m.steps < tenInSteps (leadingPlace m + 1) := by
  rcases Nat.lt_or_ge m.steps stepsInOne with hlt | hge
  · exact leadingPlace_bounds_of_lt h hlt
  · exact leadingPlace_bounds_of_le hge

/-! ### The grid of one place -/

section Grid

variable (m : Magnitude) (place : Int)

/-- The last decimal of the grid that is not above a magnitude. -/
def below : Decimal := ⟨(unitsAt m place).1 / (unitsAt m place).2, place⟩

/-- The first decimal of the grid that is above a magnitude. -/
def above : Decimal := ⟨(below m place).digits + 1, place⟩

theorem unitsAt_pos : 0 < (unitsAt m place).2 := by
  have hpos := stepsInOne_pos
  cases place with
  | ofNat e => simpa only [unitsAt, Nat.pow_eq] using Nat.mul_pos hpos (Nat.pow_pos (by decide))
  | negSucc e => simpa only [unitsAt] using hpos

theorem unitsAt_mul_tenInSteps :
    ((unitsAt m place).1 : ℚ) * tenInSteps place = m.steps * (unitsAt m place).2 := by
  cases place with
  | ofNat e =>
    have hten := tenInSteps_natCast e
    rw [Nat.mul_comm, ← Nat.pow_eq] at hten
    rw [unitsAt, Int.ofNat_eq_natCast, hten]
  | negSucc e =>
    have hten := tenInSteps_neg_natCast (e + 1)
    have hpower : ((10 ^ (e + 1) : Nat) : ℚ) ≠ 0 :=
      Nat.cast_ne_zero.2 (Nat.ne_of_gt (Nat.pow_pos (by decide)))
    rw [unitsAt, Int.negSucc_eq, ← Nat.cast_succ, hten, Nat.cast_mul, Nat.pow_eq, mul_assoc,
      ← mul_div_assoc, mul_div_cancel_left₀ _ hpower]

theorem inSteps_above : (above m place).inSteps = (below m place).inSteps + tenInSteps place := by
  rw [inSteps_eq_mul, inSteps_eq_mul, above, Nat.cast_add, Nat.cast_one, add_mul, one_mul, below]

/-- How far a magnitude is from the grid below it. -/
theorem sub_inSteps_below : (m.steps - (below m place).inSteps) * (unitsAt m place).2 =
    ((unitsAt m place).1 % (unitsAt m place).2 : Nat) * tenInSteps place := by
  have hdivision : ((unitsAt m place).1 : ℚ) = (unitsAt m place).2 * (below m place).digits +
      ((unitsAt m place).1 % (unitsAt m place).2 : Nat) := by
    exact_mod_cast (Nat.div_add_mod (unitsAt m place).1 (unitsAt m place).2).symm
  have hvalue : (below m place).inSteps = (below m place).digits * tenInSteps place :=
    inSteps_eq_mul _
  rw [sub_mul, ← unitsAt_mul_tenInSteps, hvalue, hdivision]
  ring

theorem inSteps_below_le : (below m place).inSteps ≤ m.steps := by
  have hsub := sub_inSteps_below m place
  have hpos : (0 : ℚ) < (unitsAt m place).2 := Nat.cast_pos.2 (unitsAt_pos m place)
  have hnonneg := mul_nonneg (Nat.cast_nonneg ((unitsAt m place).1 % (unitsAt m place).2))
    (le_of_lt (tenInSteps_pos place))
  rw [← hsub] at hnonneg
  exact sub_nonneg.1 (nonneg_of_mul_nonneg_left hnonneg hpos)

theorem lt_inSteps_above : m.steps < (above m place).inSteps := by
  have hsub := sub_inSteps_below m place
  have hpos : (0 : ℚ) < (unitsAt m place).2 := Nat.cast_pos.2 (unitsAt_pos m place)
  have hmod : (((unitsAt m place).1 % (unitsAt m place).2 : Nat) : ℚ) < (unitsAt m place).2 :=
    Nat.cast_lt.2 (Nat.mod_lt _ (unitsAt_pos m place))
  have hlt := mul_lt_mul_of_pos_right hmod (tenInSteps_pos place)
  rw [← hsub, mul_comm] at hlt
  rw [inSteps_above]
  have hgap := lt_of_mul_lt_mul_left hlt (le_of_lt hpos)
  linarith

theorem neighbours_eq (tie : TieRule) : neighbours tie m place =
    if 2 * ((unitsAt m place).1 % (unitsAt m place).2) < (unitsAt m place).2 ∨
        (2 * ((unitsAt m place).1 % (unitsAt m place).2) = (unitsAt m place).2 ∧ tie = .even ∧
          (below m place).digits % 2 = 0)
    then [(below m place).trimmed, (above m place).trimmed]
    else [(above m place).trimmed, (below m place).trimmed] := rfl

/-- The neighbours are tried in the order of their distance. -/
theorem neighbours_cases (tie : TieRule) :
    (neighbours tie m place = [(below m place).trimmed, (above m place).trimmed] ∧
      |(below m place).inSteps - m.steps| ≤ |(above m place).inSteps - m.steps|) ∨
    (neighbours tie m place = [(above m place).trimmed, (below m place).trimmed] ∧
      |(above m place).inSteps - m.steps| ≤ |(below m place).inSteps - m.steps|) := by
  have hsub := sub_inSteps_below m place
  have hlower := inSteps_below_le m place
  have hupper := lt_inSteps_above m place
  have hten := tenInSteps_pos place
  have hpos : (0 : ℚ) < (unitsAt m place).2 := Nat.cast_pos.2 (unitsAt_pos m place)
  rw [abs_of_nonpos (by linarith : (below m place).inSteps - m.steps ≤ 0),
    abs_of_pos (by linarith : 0 < (above m place).inSteps - m.steps), inSteps_above, neighbours_eq]
  split
  · rename_i hfirst
    have htwice : (2 * ((unitsAt m place).1 % (unitsAt m place).2 : Nat) : ℚ)
        ≤ (unitsAt m place).2 := by
      exact_mod_cast
        (by omega : 2 * ((unitsAt m place).1 % (unitsAt m place).2) ≤ (unitsAt m place).2)
    have hscaled := mul_le_mul_of_nonneg_right htwice (le_of_lt hten)
    rw [mul_assoc, ← hsub, ← mul_assoc, mul_comm] at hscaled
    have hdistance := le_of_mul_le_mul_left hscaled hpos
    exact .inl ⟨rfl, by linarith⟩
  · rename_i hsecond
    have htwice :
        ((unitsAt m place).2 : ℚ) ≤ 2 * ((unitsAt m place).1 % (unitsAt m place).2 : Nat) := by
      exact_mod_cast
        (by omega : (unitsAt m place).2 ≤ 2 * ((unitsAt m place).1 % (unitsAt m place).2))
    have hscaled := mul_le_mul_of_nonneg_right htwice (le_of_lt hten)
    rw [mul_assoc 2, ← hsub, ← mul_assoc, mul_comm _ ((unitsAt m place).2 : ℚ)] at hscaled
    have hdistance := le_of_mul_le_mul_left hscaled hpos
    exact .inr ⟨rfl, by linarith⟩

variable {m place}

theorem outside_neighbours_of_le {e : Decimal} (h : place ≤ e.exponent) :
    e.inSteps ≤ (below m place).inSteps ∨ (above m place).inSteps ≤ e.inSteps := by
  have hten := tenInSteps_pos place
  obtain ⟨k, hk⟩ := Int.eq_ofNat_of_zero_le (by omega : 0 ≤ e.exponent - place)
  have hexponent : e.exponent = place + k := by omega
  have hvalue : e.inSteps = ((e.digits * 10 ^ k : Nat) : ℚ) * tenInSteps place := by
    rw [inSteps_eq_mul, hexponent, tenInSteps_add, Nat.cast_mul, Nat.cast_pow, Nat.cast_ofNat,
      mul_assoc]
  have hbelow : (below m place).inSteps = (below m place).digits * tenInSteps place :=
    inSteps_eq_mul _
  rw [inSteps_above, hbelow, hvalue]
  rcases Nat.lt_or_ge (below m place).digits (e.digits * 10 ^ k) with hgt | hle
  · refine .inr ?_
    have hnext : ((below m place).digits : ℚ) + 1
        ≤ (e.digits * 10 ^ k : Nat) := by exact_mod_cast hgt
    have hscaled := mul_le_mul_of_nonneg_right hnext (le_of_lt hten)
    rwa [add_mul, one_mul] at hscaled
  · exact .inl (mul_le_mul_of_nonneg_right (Nat.cast_le.2 hle) (le_of_lt hten))

/-- A neighbour is taken if one denotes the magnitude. It does, and no neighbour that does is
nearer. -/
theorem exists_neighbour? (tie : TieRule) {c : Decimal} (hc : c = below m place ∨ c = above m place)
    (hdenotes : c.Denotes m) : ∃ d, neighbour? tie m place = some d := by
  refine Option.isSome_iff_exists.1 (List.find?_isSome.2 ⟨c.trimmed, ?_, ?_⟩)
  · rcases neighbours_cases m place tie with ⟨hlist, _⟩ | ⟨hlist, _⟩
    all_goals
      rw [hlist]
      rcases hc with rfl | rfl
      all_goals simp
  · exact decide_eq_true (denotes_trimmed_iff.2 hdenotes)

theorem find?_nearer {a b d : Decimal} (hnear : |a.inSteps - m.steps| ≤ |b.inSteps - m.steps|)
    (h : [a.trimmed, b.trimmed].find? (fun d => d.Denotes m) = some d) :
    (d = a.trimmed ∨ d = b.trimmed) ∧ ∀ c : Decimal, (c = a ∨ c = b) → c.Denotes m →
      |d.inSteps - m.steps| ≤ |c.inSteps - m.steps| := by
  by_cases ha : a.trimmed.Denotes m
  · rw [List.find?_cons_of_pos (p := fun d : Decimal => d.Denotes m) (by simpa using ha)] at h
    cases h
    refine ⟨.inl rfl, fun c hc _ => ?_⟩
    rw [inSteps_trimmed]
    rcases hc with rfl | rfl
    · exact le_rfl
    · exact hnear
  · rw [List.find?_cons_of_neg (by simpa using ha), List.find?_singleton] at h
    split at h
    · cases h
      refine ⟨.inr rfl, fun c hc hdenotes => ?_⟩
      rw [inSteps_trimmed]
      rcases hc with rfl | rfl
      · exact absurd (denotes_trimmed_iff.2 hdenotes) ha
      · exact le_rfl
    · cases h

theorem neighbour?_cases {tie : TieRule} {d : Decimal} (h : neighbour? tie m place = some d) :
    (d = (below m place).trimmed ∨ d = (above m place).trimmed) ∧
    ∀ c : Decimal, (c = below m place ∨ c = above m place) → c.Denotes m →
      |d.inSteps - m.steps| ≤ |c.inSteps - m.steps| := by
  rw [neighbour?] at h
  rcases neighbours_cases m place tie with ⟨hlist, hnear⟩ | ⟨hlist, hnear⟩
  · rw [hlist] at h
    exact find?_nearer hnear h
  · rw [hlist] at h
    obtain ⟨hd, hall⟩ := find?_nearer hnear h
    exact ⟨hd.symm, fun c hc => hall c hc.symm⟩

end Grid

/-! ### The shortest decimal -/

section Shortest

variable {m : Magnitude} {i : Nat}

theorem below_digits_lt (h : m.steps ≠ 0) :
    (below m (leadingPlace m - i)).digits < 10 ^ (i + 1) := by
  have hlower := inSteps_below_le m (leadingPlace m - i)
  have hupper := (leadingPlace_bounds h).2
  have hplace : leadingPlace m + 1 = leadingPlace m - i + (i + 1 : Nat) := by omega
  rw [hplace, tenInSteps_add] at hupper
  rw [inSteps_eq_mul] at hlower
  have hlt := lt_of_mul_lt_mul_right (lt_of_le_of_lt hlower hupper) (le_of_lt (tenInSteps_pos _))
  exact_mod_cast hlt

/-- A decimal that goes on behind the grid, and has no more digits than the grid allows, does not
reach the first digit of the magnitude. -/
theorem inSteps_le_below_of_lt (h : m.steps ≠ 0) {e : Decimal} (he : e.digits < 10 ^ (i + 1))
    (hlt : e.exponent < leadingPlace m - i) :
    e.inSteps ≤ (below m (leadingPlace m - i)).inSteps := by
  have hten := tenInSteps_pos (leadingPlace m - i)
  have hbelow : (below m (leadingPlace m - i)).inSteps =
      (below m (leadingPlace m - i)).digits * tenInSteps (leadingPlace m - i) := inSteps_eq_mul _
  have habove := inSteps_above m (leadingPlace m - i)
  have hupper := lt_inSteps_above m (leadingPlace m - i)
  have hleading := (leadingPlace_bounds h).1
  generalize hplace : leadingPlace m - i = place at *
  generalize (below m place).digits = floor at hbelow
  have hfirst : leadingPlace m = place + i := by omega
  rw [hfirst, tenInSteps_add] at hleading
  rw [habove, hbelow, ← add_one_mul] at hupper
  have hfloor : (10 : ℚ) ^ i < floor + 1 :=
    lt_of_mul_lt_mul_right (lt_of_le_of_lt hleading hupper) (le_of_lt hten)
  calc e.inSteps = e.digits * tenInSteps e.exponent := inSteps_eq_mul e
    _ ≤ 10 ^ (i + 1) * tenInSteps e.exponent := by
        refine mul_le_mul_of_nonneg_right ?_ (le_of_lt (tenInSteps_pos _))
        exact_mod_cast Nat.le_of_lt he
    _ = tenInSteps (e.exponent + (i + 1 : Nat)) := (tenInSteps_add _ _).symm
    _ ≤ tenInSteps (place + i) := tenInSteps_le (by omega)
    _ = 10 ^ i * tenInSteps place := tenInSteps_add _ _
    _ ≤ (below m place).inSteps := by
        rw [hbelow]
        refine mul_le_mul_of_nonneg_right ?_ (le_of_lt hten)
        exact_mod_cast Nat.le_of_lt_succ (by exact_mod_cast hfloor)

/-- A decimal with as many digits as the grid allows is not between the neighbours on it. -/
theorem outside_neighbours (h : m.steps ≠ 0) {e : Decimal} (he : e.digits < 10 ^ (i + 1)) :
    e.inSteps ≤ (below m (leadingPlace m - i)).inSteps ∨
      (above m (leadingPlace m - i)).inSteps ≤ e.inSteps := by
  rcases Int.lt_or_le e.exponent (leadingPlace m - i) with hlt | hle
  · exact .inl (inSteps_le_below_of_lt h he hlt)
  · exact outside_neighbours_of_le hle

theorem exists_nearer_neighbour (h : m.steps ≠ 0) {e : Decimal} (he : e.digits < 10 ^ (i + 1))
    (hdenotes : e.Denotes m) : ∃ c : Decimal,
      (c = below m (leadingPlace m - i) ∨ c = above m (leadingPlace m - i)) ∧ c.Denotes m ∧
      |c.inSteps - m.steps| ≤ |e.inSteps - m.steps| := by
  have hlower := inSteps_below_le m (leadingPlace m - i)
  have hupper := lt_inSteps_above m (leadingPlace m - i)
  have hrounds := denotes_iff.1 hdenotes
  rcases outside_neighbours h he with hle | hle
  · refine ⟨_, .inl rfl, denotes_iff.2 (hrounds.between ?_), ?_⟩
    · rw [abs_of_nonneg (by linarith), abs_of_nonneg (by linarith), abs_of_nonneg (by linarith)]
      ring
    · rw [abs_of_nonpos (by linarith), abs_of_nonpos (by linarith)]
      linarith
  · refine ⟨_, .inr rfl, denotes_iff.2 (hrounds.between ?_), ?_⟩
    · rw [abs_of_nonpos (by linarith), abs_of_nonpos (by linarith), abs_of_nonpos (by linarith)]
      ring
    · rw [abs_of_nonneg (by linarith), abs_of_nonneg (by linarith)]
      linarith

/-- On the grid of seventeen digits the nearer neighbour is close enough. -/
theorem exists_neighbour_seventeen (h : m.steps ≠ 0) : ∃ c : Decimal,
    (c = below m (leadingPlace m - 16) ∨ c = above m (leadingPlace m - 16)) ∧ c.Denotes m := by
  have hlower := inSteps_below_le m (leadingPlace m - 16)
  have hupper := lt_inSteps_above m (leadingPlace m - 16)
  have habove := inSteps_above m (leadingPlace m - 16)
  have hten := tenInSteps_pos (leadingPlace m - 16)
  have hleading := (leadingPlace_bounds h).1
  have hplaces := tenInSteps_add (leadingPlace m - 16) 16
  rw [Nat.cast_ofNat, Int.sub_add_cancel] at hplaces
  rw [hplaces] at hleading
  rcases le_total (m.steps - (below m (leadingPlace m - 16)).inSteps)
    ((above m (leadingPlace m - 16)).inSteps - m.steps) with hnear | hnear
  · refine ⟨_, .inl rfl, denotes_iff.2 (.of_close m.precise ?_)⟩
    rw [abs_of_nonneg (by linarith)]
    linarith
  · refine ⟨_, .inr rfl, denotes_iff.2 (.of_close m.precise ?_)⟩
    rw [abs_of_nonpos (by linarith)]
    linarith

/-- The shortest decimal is the neighbour on the first grid that has one. -/
theorem shortest_cases (tie : TieRule) (h : m.steps ≠ 0) :
    ∃ i : Nat, i < 17 ∧ neighbour? tie m (leadingPlace m - i) = some (shortest tie m) ∧
      ∀ j : Nat, j < i → neighbour? tie m (leadingPlace m - j) = none := by
  obtain ⟨c, hc, hdenotes⟩ := exists_neighbour_seventeen h
  obtain ⟨d, hd⟩ := exists_neighbour? tie hc hdenotes
  have hsome : ((List.range 17).findSome? fun i : Nat =>
      neighbour? tie m (leadingPlace m - i)).isSome :=
    List.findSome?_isSome_iff.2 ⟨16, List.mem_range.2 (by decide),
      Option.isSome_iff_exists.2 ⟨d, hd⟩⟩
  obtain ⟨first, hfirst⟩ := Option.isSome_iff_exists.1 hsome
  have hshortest : shortest tie m = first := by
    rw [shortest, hfirst, Option.getD_some]
  obtain ⟨earlier, i, later, hrange, hi, hearlier⟩ := List.findSome?_eq_some_iff.1 hfirst
  rw [List.range_eq_range'] at hrange
  obtain ⟨k, _, rfl, hlater⟩ := List.range'_eq_append_iff.1 hrange
  obtain ⟨hindex, hlt, _⟩ := List.range'_eq_cons_iff.1 hlater.symm
  have hk : k = i := by omega
  subst hk
  refine ⟨k, by omega, ?_, fun j hj => ?_⟩
  · rw [hshortest]
    exact hi
  · exact hearlier j (List.mem_range'_1.2 ⟨Nat.zero_le j, by omega⟩)

theorem shortest_digits_lt {tie : TieRule} (h : m.steps ≠ 0)
    (hi : neighbour? tie m (leadingPlace m - i) = some (shortest tie m)) :
    (shortest tie m).digits < 10 ^ (i + 1) := by
  have hbelow := below_digits_lt (i := i) h
  rcases (neighbour?_cases hi).1 with heq | heq
  · rw [heq]
    exact trimmed_digits_lt (Nat.succ_pos i) (Nat.le_of_lt hbelow)
  · rw [heq]
    exact trimmed_digits_lt (Nat.succ_pos i) hbelow

theorem neighbour?_zero (tie : TieRule) (place : Int) :
    neighbour? tie Magnitude.zero place = some ⟨0, 0⟩ := by
  have hnum : (unitsAt Magnitude.zero place).1 = 0 := by
    cases place with
    | ofNat e => rfl
    | negSucc e => exact Nat.zero_mul _
  have hbelow : (below Magnitude.zero place).trimmed = ⟨0, 0⟩ := by
    rw [below, hnum, Nat.zero_div, trimmed, if_pos rfl]
  have hfirst : 2 * ((unitsAt Magnitude.zero place).1 % (unitsAt Magnitude.zero place).2) <
      (unitsAt Magnitude.zero place).2 := by
    rw [hnum, Nat.zero_mod]
    exact unitsAt_pos _ _
  have hzero : Denotes ⟨0, 0⟩ Magnitude.zero := rfl
  rw [neighbour?, neighbours_eq, if_pos (.inl hfirst), hbelow,
    List.find?_cons_of_pos (p := fun d : Decimal => d.Denotes Magnitude.zero)
    (decide_eq_true hzero)]

theorem shortest_zero (tie : TieRule) : shortest tie Magnitude.zero = ⟨0, 0⟩ := by
  have hfirst : (List.range 17).findSome? (fun i : Nat =>
      neighbour? tie Magnitude.zero (leadingPlace Magnitude.zero - i)) = some ⟨0, 0⟩ :=
    List.findSome?_eq_some_iff.2 ⟨[], 0, _, rfl, neighbour?_zero tie _, fun _ h => nomatch h⟩
  rw [shortest, hfirst, Option.getD_some]

/-- The shortest decimal has the fewest digits and is the nearest of those with as many. -/
theorem isShortest_shortest (tie : TieRule) (m : Magnitude) : IsShortest (shortest tie m) m := by
  by_cases h : m.steps = 0
  · rw [Magnitude.eq_zero_of_steps h, shortest_zero]
    refine ⟨rfl, fun e _ => digitCount_pos e.digits, fun e _ _ => ?_⟩
    have hvalue : inSteps ⟨0, 0⟩ - Magnitude.zero.steps = 0 := by
      simp only [inSteps, Magnitude.zero, Nat.cast_zero, zero_mul, sub_zero]
    rw [hvalue, abs_zero]
    exact abs_nonneg _
  · obtain ⟨i, hlt, hi, hearlier⟩ := shortest_cases tie h
    have hcount : digitCount (shortest tie m).digits ≤ i + 1 :=
      (digitCount_le_iff (Nat.succ_pos i)).2 (shortest_digits_lt h hi)
    refine ⟨shortest_denotes tie m, fun e he => ?_, fun e he hsame => ?_⟩
    · -- A decimal with fewer digits would have a neighbour on an earlier grid.
      refine Nat.le_trans hcount (Nat.le_of_not_lt fun hfewer => ?_)
      have hpos := digitCount_pos e.digits
      have hdigits : e.digits < 10 ^ (digitCount e.digits - 1 + 1) := by
        rw [Nat.sub_add_cancel hpos]
        exact lt_pow_digitCount _
      obtain ⟨c, hc, hdenotes, _⟩ := exists_nearer_neighbour h hdigits he
      obtain ⟨d, hd⟩ := exists_neighbour? tie hc hdenotes
      rw [hearlier _ (by omega)] at hd
      cases hd
    · have hdigits : e.digits < 10 ^ (i + 1) := by
        refine (digitCount_le_iff (Nat.succ_pos i)).1 ?_
        rw [hsame]
        exact hcount
      obtain ⟨c, hc, hdenotes, hnear⟩ := exists_nearer_neighbour h hdigits he
      exact le_trans ((neighbour?_cases hi).2 c hc hdenotes) hnear

theorem digitCount_shortest_le (tie : TieRule) (m : Magnitude) :
    digitCount (shortest tie m).digits ≤ 17 := by
  by_cases h : m.steps = 0
  · rw [Magnitude.eq_zero_of_steps h, shortest_zero]
    decide
  · obtain ⟨i, hlt, hi, _⟩ := shortest_cases tie h
    have hcount := (digitCount_le_iff (Nat.succ_pos i)).2 (shortest_digits_lt h hi)
    omega

/-- No zero stands behind the digits of a shortest decimal. -/
theorem shortest_digits_mod (tie : TieRule) (h : m.steps ≠ 0) :
    (shortest tie m).digits % 10 ≠ 0 := by
  obtain ⟨i, _, hi, _⟩ := shortest_cases tie h
  obtain ⟨c, hc⟩ : ∃ c : Decimal, shortest tie m = c.trimmed := by
    rcases (neighbour?_cases hi).1 with heq | heq
    · exact ⟨_, heq⟩
    · exact ⟨_, heq⟩
  have hdenotes := shortest_denotes tie m
  rw [hc] at hdenotes ⊢
  rcases c.trimmed_cases with hzero | hmod
  · rw [hzero] at hdenotes
    cases Option.some.inj hdenotes
    exact absurd rfl h
  · exact hmod

end Shortest

end Decimal

end SidecarIndex

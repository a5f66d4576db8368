import SidecarIndex.Proofs.Editing
import SidecarIndex.Proofs.Number.Shortest

/-! # Shown numbers

A finite number is shown exactly: whole numbers below `10 ^ 16` with all their digits and a zero
after the point, all others as their shortest decimal, which never ends in a zero after a point.
Either text is a literal without an exponent and is read as the number that it shows. -/

namespace SidecarIndex

/-! ### The last place -/

theorem getLast?_toDigits (n : Nat) :
    (Nat.toDigits 10 n).getLast? = some (Nat.digitChar (n % 10)) := by
  rcases Nat.lt_or_ge n 10 with hlt | hge
  · rw [Nat.toDigits_of_lt_base hlt, Nat.mod_eq_of_lt hlt, List.getLast?_singleton]
  · rw [Nat.toDigits_of_base_le (by decide) hge, List.getLast?_concat]

theorem digitChar_ne_zero {n : Nat} (hlt : n < 10) (h : n ≠ 0) : Nat.digitChar n ≠ '0' := by
  revert n
  decide

theorem mem_and_getLast?_of_suffix {s : List Char} (h : ".0".toList <:+ s) :
    '.' ∈ s ∧ s.getLast? = some '0' := by
  obtain ⟨front, rfl⟩ := h
  have hpoint : '.' ∈ ".0".toList := by decide
  have hlast : ".0".toList.getLast? = some '0' := by decide
  exact ⟨List.mem_append_right front hpoint, by rw [List.getLast?_append, hlast, Option.some_or]⟩

namespace Decimal

/-- Where digits are written after the point the last one is the last of all. -/
theorem getLast?_positional (digits places : Nat) :
    (positional ⟨digits, Int.negSucc places⟩).getLast? = some (Nat.digitChar (digits % 10)) := by
  have hlast := getLast?_toDigits digits
  rw [positional, digitsText]
  generalize Nat.toDigits 10 digits = run at hlast ⊢
  dsimp only
  split
  · rename_i hinside
    have hpoint : run.drop (run.length - (places + 1)) ≠ [] := by
      rw [Ne, List.drop_eq_nil_iff]
      omega
    rw [List.getLast?_append_of_ne_nil _ (List.cons_ne_nil _ _),
      List.getLast?_cons_of_ne_nil hpoint, List.getLast?_drop, if_neg (by omega), hlast]
  · rw [List.getLast?_cons_cons, ← List.cons_append, List.getLast?_append, hlast, Option.some_or]

/-- Where no zero stands behind the digits none is written after a point. -/
theorem not_suffix_positional {d : Decimal} (h : d.digits % 10 ≠ 0) {front : List Char}
    (hfront : '.' ∉ front) : ¬ ".0".toList <:+ front ++ d.positional := by
  intro hsuffix
  obtain ⟨hpoint, hlast⟩ := mem_and_getLast?_of_suffix hsuffix
  obtain ⟨digits, exponent⟩ := d
  cases exponent with
  | ofNat e =>
    have hdigits : AllDigits (positional ⟨digits, Int.ofNat e⟩) :=
      allDigits_append (allDigits_toDigits digits) (allDigits_zeros e)
    rcases List.mem_append.1 hpoint with hmem | hmem
    · exact hfront hmem
    · exact absurd (hdigits _ hmem) (by decide)
  | negSucc places =>
    rw [List.getLast?_append, getLast?_positional, Option.some_or] at hlast
    exact digitChar_ne_zero (Nat.mod_lt digits (by decide)) h (Option.some.inj hlast)

end Decimal

/-! ### The two ways of showing -/

/-- The least positive magnitude. -/
def Magnitude.least : Magnitude where
  steps := 1
  representable := by
    obtain ⟨k, hk, hlimit⟩ := exists_stepLimit_eq
    refine ⟨Nat.mod_one 1, ?_⟩
    rw [hlimit]
    exact Nat.one_lt_two_pow (by omega)

namespace NumberLayout

theorem isPointed_iff (m : Magnitude) : (m.isWhole && shown.pointed m) = true ↔
    ∃ k < 10 ^ 16, m.steps = k * stepsInOne := by
  have hone := stepsInOne_pos
  simp only [Magnitude.isWhole, shown, Bool.and_eq_true, beq_iff_eq, decide_eq_true_eq, Nat.pow_eq]
  generalize stepsInOne = one at hone
  apply Iff.intro
  · intro h
    obtain ⟨hdvd, hlt⟩ := h
    obtain ⟨k, hk⟩ := Nat.dvd_of_mod_eq_zero hdvd
    rw [Nat.mul_comm] at hk
    rw [hk] at hlt
    exact ⟨k, Nat.lt_of_mul_lt_mul_right hlt, hk⟩
  · intro h
    obtain ⟨k, hk, heq⟩ := h
    rw [heq]
    exact ⟨Nat.mul_mod_left k one, Nat.mul_lt_mul_of_pos_right hk hone⟩

theorem magnitudeText_shown (m : Magnitude) : shown.magnitudeText m =
    if m.isWhole && shown.pointed m then Nat.toDigits 10 m.whole ++ ".0".toList
    else (Decimal.shortest .up m).positional := rfl

theorem magnitudeText_whole {m : Magnitude} {k : Nat} (hk : k < 10 ^ 16)
    (h : m.steps = k * stepsInOne) : shown.magnitudeText m = Nat.toDigits 10 k ++ ".0".toList := by
  have hwhole : m.whole = k := by
    rw [Magnitude.whole, h, Nat.mul_div_cancel k stepsInOne_pos]
  rw [magnitudeText_shown, if_pos ((isPointed_iff m).2 ⟨k, hk, h⟩), hwhole]

theorem magnitudeText_other {m : Magnitude} (h : ¬ ∃ k < 10 ^ 16, m.steps = k * stepsInOne) :
    shown.magnitudeText m = (Decimal.shortest .up m).positional := by
  rw [magnitudeText_shown, if_neg (mt (isPointed_iff m).1 h)]

end NumberLayout

namespace Number

theorem suffix_shownText_iff (negative : Bool) (m : Magnitude) :
    ".0".toList <:+ (finite negative m).shownText ↔ ∃ k < 10 ^ 16, m.steps = k * stepsInOne := by
  rw [shownText]
  apply Iff.intro
  · intro hsuffix
    by_contra hother
    have hsteps : m.steps ≠ 0 := fun hzero => hother ⟨0, by decide, by rw [hzero, Nat.zero_mul]⟩
    have hsign : '.' ∉ signText negative := by
      cases negative
      all_goals decide
    rw [NumberLayout.magnitudeText_other hother] at hsuffix
    exact Decimal.not_suffix_positional (Decimal.shortest_digits_mod .up hsteps) hsign hsuffix
  · intro h
    obtain ⟨k, hk, hwhole⟩ := h
    rw [NumberLayout.magnitudeText_whole hk hwhole, ← List.append_assoc]
    exact List.suffix_append _ _

theorem sign_of_mem_shownText {negative : Bool} {m : Magnitude} {c : Char}
    (hc : c ∈ (finite negative m).shownText) : c.isDigit = true ∨ c = '.' ∨ c = '-' := by
  obtain ⟨whole, fraction, hspells, htext⟩ := exists_spells_shown m
  rw [shownText, htext] at hc
  rcases List.mem_append.1 hc with hc | hc
  · cases negative with
    | false => cases hc
    | true => exact .inr (.inr (List.mem_singleton.1 hc))
  · rcases hspells.mem_placesText hc with hdigit | hpoint
    · exact .inl hdigit
    · exact .inr (.inl hpoint)

/-- Every finite number is shown as a literal without separators and without an exponent, which ends
in `.0` exactly for whole numbers below `10 ^ 16` and is read as the number itself, the sign of zero
included. Those whole numbers are shown with all their digits, all others as a shortest decimal that
is read as they are, of at most seventeen digits; and what is read of a decimal is always its
correct rounding. -/
theorem shownText_exact :
    (∀ negative m,
      isLiteral (finite negative m).shownText = true ∧
      (∀ c ∈ (finite negative m).shownText, c ∉ [',', '[', ']', 'e', 'E'] ∧
        Text.isBlank c = false) ∧
      (".0".toList <:+ (finite negative m).shownText ↔ ∃ k < 10 ^ 16, m.steps = k * stepsInOne) ∧
      ofText? (finite negative m).shownText = some (finite negative m) ∧
      (∀ k < 10 ^ 16, m.steps = k * stepsInOne →
        (finite negative m).shownText = signText negative ++ (Nat.toDigits 10 k ++ ".0".toList)) ∧
      ((¬ ∃ k < 10 ^ 16, m.steps = k * stepsInOne) →
        ∃ d : Decimal, d.IsShortest m ∧ Decimal.digitCount d.digits ≤ 17 ∧
          (finite negative m).shownText = signText negative ++ d.positional)) ∧
    ∀ d : Decimal, ∃ n, RoundsTo d.inSteps n ∧ d.magnitude? = Magnitude.ofSteps? n := by
  refine ⟨fun negative m => ⟨isLiteral_shownText rfl, fun c hc => ⟨fun hmem => ?_, ?_⟩,
    suffix_shownText_iff negative m, ofText?_shownText rfl, fun k hk hwhole => ?_,
    fun hother => ?_⟩,
    Decimal.exists_roundsTo⟩
  · have hsign := sign_of_mem_shownText hc
    simp only [List.mem_cons, List.not_mem_nil, or_false] at hmem
    rcases hmem with rfl | rfl | rfl | rfl | rfl
    all_goals exact absurd hsign (by decide)
  · exact isBlank_of_isLiteral (isLiteral_shownText rfl) hc
  · rw [shownText, NumberLayout.magnitudeText_whole hk hwhole]
  · refine ⟨_, Decimal.isShortest_shortest .up m, Decimal.digitCount_shortest_le .up m, ?_⟩
    rw [shownText, NumberLayout.magnitudeText_other hother]

/-- Both ways of showing at the lower end of the line. -/
theorem shownText_of_zero_and_least :
    (finite true Magnitude.zero).shownText = "-0.0".toList ∧
    ofText? "-0.0".toList = some (finite true Magnitude.zero) ∧
    ∃ d : Decimal, d.IsShortest Magnitude.least ∧ Decimal.digitCount d.digits ≤ 17 ∧
      (finite false Magnitude.least).shownText = d.positional := by
  obtain ⟨hshown, _⟩ := shownText_exact
  obtain ⟨_, _, _, hread, hwhole, _⟩ := hshown true Magnitude.zero
  obtain ⟨_, _, _, _, _, hother⟩ := hshown false Magnitude.least
  have hzero : (finite true Magnitude.zero).shownText = "-0.0".toList :=
    hwhole 0 (by decide) (Nat.zero_mul _).symm
  have hfraction : ¬ ∃ k < 10 ^ 16, Magnitude.least.steps = k * stepsInOne := by
    rintro ⟨k, _, hk⟩
    obtain ⟨e, he, hsteps⟩ := exists_stepsInOne_eq
    have hone : stepsInOne = 1 := Nat.eq_one_of_mul_eq_one_left hk.symm
    have htwo := Nat.one_lt_two_pow (by omega : e ≠ 0)
    omega
  rw [hzero] at hread
  exact ⟨hzero, hread, hother hfraction⟩

end Number

end SidecarIndex

import SidecarIndex.Proofs.Lexical
import SidecarIndex.Proofs.Timestamp.Accepted

/-! # Timestamps are read back

The text of a timestamp with a year of four digits has a documented form, which denotes what the
text shows. A timestamp that some text denotes has such a year, no leap second and an offset of
whole minutes, and its own text denotes it again, with its offset. The text of any timestamp is a
value literal. -/

namespace SidecarIndex

/-- A timestamp whose text says everything about it: its year has four digits, its second is no leap
second, and its offset is a whole number of minutes. -/
structure Timestamp.IsPlain (t : Timestamp) : Prop where
  year_nonneg : 0 ≤ t.date.year
  year_le : t.date.year ≤ 9999
  nanosecond_lt : t.clock.nanosecond < 1000000000
  offset_mod : t.offset.seconds % 60 = 0

theorem Date.day_le_31 (d : Date) : d.day ≤ 31 := by
  have hle := d.day_le
  have hfebruary : (if isLeapYear d.year = true then 29 else 28) ≤ 31 := by
    split
    all_goals decide
  unfold daysInMonth at hle
  split at hle
  all_goals omega

theorem Timestamp.isPlain_of_ofText? {s : List Char} {t : Timestamp}
    (h : Timestamp.ofText? s = some t) : t.IsPlain := by
  obtain ⟨f, _, _, hparts⟩ := ofText?_eq_some_iff_form.1 h
  have hyear := hparts.year
  have hlt := f.year_parts_lt
  have hoffset := hparts.offset
  refine ⟨by omega, by omega, hparts.nanosecond ▸ f.nanosecond_parts_lt, ?_⟩
  unfold TimestampParts.offsetSeconds at hoffset
  split at hoffset
  all_goals omega

/-! ### What a text shows -/

/-- The second as it is written: a leap second counts as one more. -/
def Clock.shownSecond (c : Clock) : Nat :=
  if 1000000000 ≤ c.nanosecond then c.second + 1 else c.second

def Clock.shownNanosecond (c : Clock) : Nat :=
  if 1000000000 ≤ c.nanosecond then c.nanosecond - 1000000000 else c.nanosecond

/-- The whole minutes of an offset as they are written, without the sign. -/
def Offset.shownMinutes (o : Offset) : Nat := (o.seconds.natAbs + 30) / 60

theorem Clock.shownSecond_lt (c : Clock) : c.shownSecond < 100 := by
  have hsecond := c.second_lt
  rw [shownSecond]
  split
  all_goals omega

theorem Clock.shownNanosecond_lt (c : Clock) : c.shownNanosecond < 1000000000 := by
  have hlt := c.nanosecond_lt
  rw [shownNanosecond]
  split at hlt
  all_goals
    split
    all_goals omega

theorem Clock.shownSecond_eq_60 {c : Clock} (h : 1000000000 ≤ c.nanosecond) :
    c.shownSecond = 60 := by
  have hlt := c.nanosecond_lt
  rw [shownSecond, if_pos h]
  split at hlt
  all_goals omega

theorem Clock.shown_of_lt {c : Clock} (h : c.nanosecond < 1000000000) :
    c.shownSecond = c.second ∧ c.shownNanosecond = c.nanosecond := by
  have hnot : ¬ 1000000000 ≤ c.nanosecond := by omega
  rw [shownSecond, shownNanosecond, if_neg hnot, if_neg hnot]
  exact ⟨rfl, rfl⟩

/-! ### The form of a text -/

theorem exists_run_padded {least width n : Nat} (hleast : least ≤ width) (hwidth : 0 < width)
    (h : n < 10 ^ width) : ∃ run : DigitRun least width, run.digits = padded width n ∧
    run.value = n ∧
      run.digits.length = width := by
  have hlength := length_padded hwidth h
  exact ⟨⟨padded width n, allDigits_padded width n, by omega, by omega⟩, rfl,
    valueOfDigits_padded width n, hlength⟩

theorem exists_fraction_padded {width n : Nat} (hwidth : 0 < width) (hmost : width ≤ 9)
    (h : n < 10 ^ width) : ∃ f : SecondFraction, f.text = '.' :: padded width n ∧
      f.nanoseconds = n * 10 ^ (9 - width) := by
  have hlength := length_padded hwidth h
  have htake : (padded width n ++ List.replicate 9 '0').take 9
      = padded width n ++ List.replicate (9 - width) '0' := by
    rw [List.take_append, hlength, List.take_of_length_le (by omega), List.take_replicate]
    congr 2
    omega
  refine ⟨⟨false, padded width n, allDigits_padded width n, ?_⟩, rfl, ?_⟩
  · exact List.ne_nil_of_length_pos (by omega)
  · rw [SecondFraction.nanoseconds, htake, Decimal.valueOfDigits_append_zeros, valueOfDigits_padded]

theorem exists_fraction {n : Nat} (h : n < 1000000000) : ∃ f : Option SecondFraction,
    fractionText? f = Timestamp.fractionText n ∧ nanoseconds? f = n := by
  rw [Timestamp.fractionText]
  by_cases hzero : n = 0
  · rw [if_pos hzero]
    exact ⟨none, rfl, hzero.symm⟩
  · rw [if_neg hzero]
    by_cases hmilli : n % 1000000 = 0
    · have hvalue : n / 1000000 * 10 ^ (9 - 3) = n := by omega
      rw [if_pos hmilli]
      have hlt : n / 1000000 < 10 ^ 3 := by omega
      obtain ⟨f, htext, hnano⟩ := exists_fraction_padded (by decide) (by decide) hlt
      exact ⟨some f, htext, hnano.trans hvalue⟩
    · rw [if_neg hmilli]
      by_cases hmicro : n % 1000 = 0
      · have hvalue : n / 1000 * 10 ^ (9 - 6) = n := by omega
        rw [if_pos hmicro]
        have hlt : n / 1000 < 10 ^ 6 := by omega
        obtain ⟨f, htext, hnano⟩ := exists_fraction_padded (by decide) (by decide) hlt
        exact ⟨some f, htext, hnano.trans hvalue⟩
      · have hvalue : n * 10 ^ (9 - 9) = n := by omega
        rw [if_neg hmicro]
        have hlt : n < 10 ^ 9 := h
        obtain ⟨f, htext, hnano⟩ := exists_fraction_padded (by decide) (by decide) hlt
        exact ⟨some f, htext, hnano.trans hvalue⟩

namespace Timestamp

/-- The parts that the text of a timestamp shows. -/
def shownParts (t : Timestamp) : TimestampParts :=
  ⟨t.date.year.toNat, t.date.month, t.date.day, t.clock.hour, t.clock.minute, t.clock.shownSecond,
    t.clock.shownNanosecond, decide (t.offset.seconds < 0), t.offset.shownMinutes / 60,
    t.offset.shownMinutes % 60⟩

theorem offsetSeconds_shownParts (t : Timestamp) : t.shownParts.offsetSeconds
    = if t.offset.seconds < 0 then -(60 * (t.offset.shownMinutes : Int))
      else 60 * (t.offset.shownMinutes : Int) := by
  simp only [shownParts, TimestampParts.offsetSeconds, decide_eq_true_eq]
  split
  all_goals omega

/-- The written offset is the offset exactly when that is a whole number of minutes. -/
theorem offsetSeconds_shownParts_eq_iff (t : Timestamp) :
    t.shownParts.offsetSeconds = t.offset.seconds ↔ t.offset.seconds % 60 = 0 := by
  rw [offsetSeconds_shownParts, Offset.shownMinutes]
  split
  all_goals omega

/-- The text of a timestamp with a year of four digits has a documented form, which denotes the
parts that the text shows. -/
theorem exists_form_of_text {t : Timestamp} (hnonneg : 0 ≤ t.date.year) (hle : t.date.year ≤ 9999) :
    ∃ f : TimestampForm, f.IsDocumented ∧ f.text = t.text ∧ f.parts = t.shownParts := by
  obtain ⟨_, hmonthLe⟩ := t.date.month_bounds
  have hdayLe := t.date.day_le_31
  have hhourLt := t.clock.hour_lt
  have hminuteLt := t.clock.minute_lt
  have hlower := t.offset.lower
  have hupper := t.offset.upper
  have hoffset : t.offset.shownMinutes = (t.offset.seconds.natAbs + 30) / 60 := rfl
  obtain ⟨year, hyear, hyearValue, _⟩ := exists_run_padded (Nat.le_refl 4) (by decide)
    (show t.date.year.toNat < 10 ^ 4 by omega)
  obtain ⟨month, hmonth, hmonthValue, _⟩ := exists_run_padded (show 1 ≤ 2 by decide) (by decide)
    (show t.date.month < 10 ^ 2 by omega)
  obtain ⟨day, hday, hdayValue, _⟩ := exists_run_padded (show 1 ≤ 2 by decide) (by decide)
    (show t.date.day < 10 ^ 2 by omega)
  obtain ⟨hour, hhour, hhourValue, _⟩ := exists_run_padded (Nat.le_refl 2) (by decide)
    (show t.clock.hour < 10 ^ 2 by omega)
  obtain ⟨minute, hminute, hminuteValue, _⟩ := exists_run_padded (Nat.le_refl 2) (by decide)
    (show t.clock.minute < 10 ^ 2 by omega)
  obtain ⟨second, hsecond, hsecondValue, hsecondLength⟩ := exists_run_padded (show 1 ≤ 2 by decide)
    (by decide) t.clock.shownSecond_lt
  obtain ⟨hours, hhours, hhoursValue, _⟩ := exists_run_padded (Nat.le_refl 2) (by decide)
    (show t.offset.shownMinutes / 60 < 10 ^ 2 by omega)
  obtain ⟨minutes, hminutes, hminutesValue, _⟩ := exists_run_padded (Nat.le_refl 2) (by decide)
    (show t.offset.shownMinutes % 60 < 10 ^ 2 by omega)
  obtain ⟨fraction, hfraction, hnano⟩ := exists_fraction t.clock.shownNanosecond_lt
  refine ⟨.moment (.extended year month day) false (.second hour true minute true second fraction)
    (some (.minutes (decide (t.offset.seconds < 0)) hours true minutes)), ?_, ?_, ?_⟩
  · exact ⟨trivial, ⟨rfl, fun _ => hsecondLength⟩, fun _ ho => Option.some.inj ho ▸ trivial⟩
  · have hyearText : yearText t.date.year = padded 4 t.date.year.toNat := if_pos ⟨hnonneg, hle⟩
    simp [TimestampForm.text, DayForm.text, ClockForm.text, offsetText?, OffsetForm.text,
      signText, text, dateText, clockText, offsetText, hyear, hmonth, hday, hhour, hminute, hsecond,
      hhours, hminutes,
      hfraction, hyearText, Clock.shownSecond, Clock.shownNanosecond, Offset.shownMinutes]
  · simp [TimestampForm.parts, DayForm.parts, TimestampParts.ofDay, ClockForm.fill, OffsetForm.fill,
      shownParts, hyearValue, hmonthValue, hdayValue, hhourValue, hminuteValue, hsecondValue,
      hhoursValue, hminutesValue, hnano]

/-- The text of a timestamp with a year of four digits is read as the parts it shows. -/
theorem partsOfText?_text {t : Timestamp} (hnonneg : 0 ≤ t.date.year) (hle : t.date.year ≤ 9999) :
    TimestampParts.ofText? t.text = some t.shownParts := by
  obtain ⟨f, _, htext, hparts⟩ := exists_form_of_text hnonneg hle
  exact TimestampParts.ofText?_eq_some_iff.2 ⟨f, htext, hparts⟩

/-- A year that does not have four digits is written with a sign, and no text starts with one. -/
theorem partsOfText?_text_eq_none {t : Timestamp} (h : ¬ (0 ≤ t.date.year ∧ t.date.year ≤ 9999)) :
    TimestampParts.ofText? t.text = none := by
  have hsign : ∀ (c : Char) (s : List Char), c.isDigit = false →
      TimestampParts.ofText? (c :: s) = none := by
    intro c s hc
    have hnone : Scan.digits? 4 4 (c :: s) = none := by
      simp [Scan.digits?, hc]
    simp only [TimestampParts.ofText?, hnone, Option.bind_eq_bind, Option.bind_none]
  have htext : ∃ c s, t.text = c :: s ∧ c.isDigit = false := by
    rw [text, dateText, yearText, if_neg h]
    refine ⟨_, _, rfl, ?_⟩
    split
    all_goals decide
  obtain ⟨c, s, hcons, hc⟩ := htext
  rw [hcons, hsign c s hc]

theorem hasParts_shownParts {t : Timestamp} (h : t.IsPlain) : t.HasParts t.shownParts := by
  obtain ⟨hsecond, hnanosecond⟩ := Clock.shown_of_lt h.nanosecond_lt
  exact ⟨(Int.toNat_of_nonneg h.year_nonneg).symm, rfl, rfl, rfl, rfl, hsecond.symm,
    hnanosecond.symm, ((offsetSeconds_shownParts_eq_iff t).2 h.offset_mod).symm⟩

theorem ofText?_text {t : Timestamp} (h : t.IsPlain) : ofText? t.text = some t := by
  rw [ofText?, partsOfText?_text h.year_nonneg h.year_le, Option.bind_some,
    TimestampParts.toTimestamp?_eq_some_iff]
  exact ⟨Nat.mod_lt _ (by decide), t.clock.shownNanosecond_lt, hasParts_shownParts h⟩

/-- What the text of a timestamp is read as has its date, time of day and offset as they are
written. -/
theorem hasParts_of_ofText?_text {t u : Timestamp} (h : ofText? t.text = some u) :
    (0 ≤ t.date.year ∧ t.date.year ≤ 9999) ∧ u.HasParts t.shownParts := by
  by_cases hyear : 0 ≤ t.date.year ∧ t.date.year ≤ 9999
  · rw [ofText?, partsOfText?_text hyear.1 hyear.2, Option.bind_some,
      TimestampParts.toTimestamp?_eq_some_iff] at h
    exact ⟨hyear, h.2.2⟩
  · rw [ofText?, partsOfText?_text_eq_none hyear] at h
    cases h

/-- Reading the text of a timestamp gives the same instant only where the text says everything about
it. Then it gives the timestamp itself. -/
theorem ofText?_text_same_iff {t : Timestamp} :
    (∃ u, ofText? t.text = some u ∧ t.same u = true) ↔ t.IsPlain := by
  apply Iff.intro
  · intro h
    obtain ⟨u, hread, hsame⟩ := h
    obtain ⟨⟨hnonneg, hle⟩, hparts⟩ := hasParts_of_ofText?_text hread
    -- A leap second is written as second 60, which no time of day has.
    have hlt : t.clock.nanosecond < 1000000000 := by
      have hsecond : u.clock.second = t.clock.shownSecond := hparts.second
      have hbound := u.clock.second_lt
      by_contra hleap
      rw [hsecond, Clock.shownSecond_eq_60 (by omega)] at hbound
      omega
    have hyear : u.date.year = t.date.year := hparts.year.trans (Int.toNat_of_nonneg hnonneg)
    have hdate : u.date = t.date :=
      Date.ext_parts hyear hparts.month hparts.day
    have hsecond : u.clock.secondOfDay = t.clock.secondOfDay := by
      simp only [Clock.secondOfDay, hparts.hour, hparts.minute, hparts.second, shownParts,
        (Clock.shown_of_lt hlt).1]
    -- The local times are equal, so equal instants have equal offsets.
    simp only [same, unixSeconds, hdate, hsecond, Bool.and_eq_true, beq_iff_eq] at hsame
    have hoffset := hparts.offset
    refine ⟨hnonneg, hle, hlt, (offsetSeconds_shownParts_eq_iff t).1 ?_⟩
    omega
  · intro h
    exact ⟨t, ofText?_text h, (t.compare_eq_iff_same t).1 (by simp [compare])⟩

/-! ### The text is a literal -/

theorem isLiteralChar_of_mem_padded {width n : Nat} {c : Char} (hc : c ∈ padded width n) :
    isLiteralChar c = true :=
  isLiteralChar_of_isDigit (allDigits_padded width n c hc)

theorem isLiteralChar_sign (negative : Prop) [Decidable negative] :
    isLiteralChar (if negative then '-' else '+') = true := by
  split
  all_goals decide

theorem isLiteralChar_of_mem_yearText {year : Int} {c : Char} (hc : c ∈ yearText year) :
    isLiteralChar c = true := by
  unfold yearText at hc
  split at hc
  · exact isLiteralChar_of_mem_padded hc
  · rcases List.mem_cons.1 hc with rfl | hc
    · exact isLiteralChar_sign _
    · exact isLiteralChar_of_mem_padded hc

theorem isLiteralChar_of_mem_fractionText {n : Nat} {c : Char} (hc : c ∈ fractionText n) :
    isLiteralChar c = true := by
  have hpoint : ∀ width m, c ∈ '.' :: padded width m → isLiteralChar c = true := by
    intro width m hc
    rcases List.mem_cons.1 hc with rfl | hc
    · decide
    · exact isLiteralChar_of_mem_padded hc
  unfold fractionText at hc
  split at hc
  · cases hc
  · split at hc
    · exact hpoint _ _ hc
    · split at hc
      · exact hpoint _ _ hc
      · exact hpoint _ _ hc

theorem text_isLiteralChar (t : Timestamp) : ∀ c ∈ t.text, isLiteralChar c = true := by
  have hpadded : ∀ width n, ∀ c ∈ padded width n, isLiteralChar c = true :=
    fun _ _ _ hc => isLiteralChar_of_mem_padded hc
  have hyear : ∀ c ∈ yearText t.date.year, isLiteralChar c = true :=
    fun _ hc => isLiteralChar_of_mem_yearText hc
  have hfraction : ∀ n, ∀ c ∈ fractionText n, isLiteralChar c = true :=
    fun _ _ hc => isLiteralChar_of_mem_fractionText hc
  have hhyphen : isLiteralChar '-' = true := by decide
  have hcolon : isLiteralChar ':' = true := by decide
  have htime : isLiteralChar 'T' = true := by decide
  have hsign := isLiteralChar_sign (t.offset.seconds < 0)
  simp only [text, dateText, clockText, offsetText, List.forall_mem_append, List.forall_mem_cons]
  exact ⟨⟨⟨⟨hyear, hhyphen, hpadded _ _⟩, hhyphen, hpadded _ _⟩, htime, ⟨⟨hpadded _ _, hcolon,
    hpadded _ _⟩, hcolon, hpadded _ _⟩, hfraction _⟩, ⟨hsign, hpadded _ _⟩, hcolon, hpadded _ _⟩

/-- Behind the mark of a timestamp its text makes a value literal. -/
theorem isLiteral_text (t : Timestamp) : isLiteral ('#' :: t.text) = true := by
  refine (isLiteral_iff _).2 ⟨?_, t.text_isLiteralChar⟩
  have hclock : 'T' ∈ dropMark ('#' :: t.text) := by
    simp [dropMark, text]
  exact List.ne_nil_of_mem hclock

end Timestamp

end SidecarIndex

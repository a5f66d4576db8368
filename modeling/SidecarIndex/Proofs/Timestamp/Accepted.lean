import SidecarIndex.Proofs.Timestamp.Unambiguous

/-! # Which texts are timestamps

A text is read as a timestamp exactly when it has a form whose parts are in range, and then as the
timestamp with the parts that the form denotes. The documented forms are not all: a few more are
read, among them seconds that follow the hours. -/

namespace SidecarIndex

namespace TimestampParts

/-! ### Parts in range -/

def offsetSeconds (p : TimestampParts) : Int :=
  if p.west then -((p.offsetHours : Int) * 3600 + p.offsetMinutes * 60)
  else p.offsetHours * 3600 + p.offsetMinutes * 60

/-- The calendar has the day, the clock has the time, and the offset is less than a day. -/
structure InRange (p : TimestampParts) : Prop where
  month : 1 ≤ p.month ∧ p.month ≤ 12
  day : 1 ≤ p.day ∧ p.day ≤ daysInMonth p.year p.month
  hour : p.hour < 24
  minute : p.minute < 60
  second : p.second < 60
  offsetHours : p.offsetHours < 24
  offsetMinutes : p.offsetMinutes < 60

end TimestampParts

/-- The timestamp has the local date and time and the offset of the parts. -/
structure Timestamp.HasParts (t : Timestamp) (p : TimestampParts) : Prop where
  year : t.date.year = p.year
  month : t.date.month = p.month
  day : t.date.day = p.day
  hour : t.clock.hour = p.hour
  minute : t.clock.minute = p.minute
  second : t.clock.second = p.second
  nanosecond : t.clock.nanosecond = p.nanosecond
  offset : t.offset.seconds = p.offsetSeconds

theorem Date.month_bounds (d : Date) : 1 ≤ d.month ∧ d.month ≤ 12 := by
  have hpos := d.day_pos
  have hle := d.day_le
  unfold daysInMonth at hle
  split at hle
  all_goals omega

theorem Date.ext_parts {d e : Date} (hyear : d.year = e.year) (hmonth : d.month = e.month)
    (hday : d.day = e.day) : d = e := by
  obtain ⟨_, _, _, _, _⟩ := d
  obtain ⟨_, _, _, _, _⟩ := e
  cases hyear
  cases hmonth
  cases hday
  rfl

theorem Date.of?_eq_some_iff {year : Int} {month day : Nat} {d : Date} :
    Date.of? year month day = some d ↔ d.year = year ∧ d.month = month ∧ d.day = day := by
  apply Iff.intro
  · intro h
    unfold Date.of? at h
    split at h
    · cases h
      exact ⟨rfl, rfl, rfl⟩
    · cases h
  · intro h
    obtain ⟨rfl, rfl, rfl⟩ := h
    exact dif_pos ⟨d.day_pos, d.day_le⟩

theorem Clock.of?_eq_some_iff {hour minute second nanosecond : Nat} {c : Clock} :
    Clock.of? hour minute second nanosecond = some c ↔ nanosecond < 1000000000 ∧ c.hour = hour ∧
      c.minute = minute ∧ c.second = second ∧ c.nanosecond = nanosecond := by
  apply Iff.intro
  · intro h
    unfold Clock.of? at h
    split at h
    · rename_i hbounds
      cases h
      exact ⟨hbounds.2.2.2, rfl, rfl, rfl, rfl⟩
    · cases h
  · intro h
    obtain ⟨hlt, rfl, rfl, rfl, rfl⟩ := h
    exact dif_pos ⟨c.hour_lt, c.minute_lt, c.second_lt, hlt⟩

theorem Offset.of?_eq_some_iff {seconds : Int} {o : Offset} :
    Offset.of? seconds = some o ↔ o.seconds = seconds := by
  apply Iff.intro
  · intro h
    unfold Offset.of? at h
    split at h
    · cases h
      rfl
    · cases h
  · intro h
    cases h
    exact dif_pos ⟨o.lower, o.upper⟩

namespace TimestampParts

theorem toTimestamp?_eq_some_iff {p : TimestampParts} {t : Timestamp} :
    p.toTimestamp? = some t ↔
      p.offsetMinutes < 60 ∧ p.nanosecond < 1000000000 ∧ t.HasParts p := by
  by_cases hminutes : 60 ≤ p.offsetMinutes
  · have hnone : p.toTimestamp? = none := by
      simp only [toTimestamp?, hminutes, if_true, Option.bind_eq_bind, Option.bind_none]
    rw [hnone]
    apply Iff.intro
    · intro h
      cases h
    · intro h
      omega
  · simp only [toTimestamp?, hminutes, if_false, Option.bind_eq_bind, Option.bind_eq_some_iff,
      Date.of?_eq_some_iff, Clock.of?_eq_some_iff, Offset.of?_eq_some_iff]
    apply Iff.intro
    · intro h
      obtain ⟨offset, hoffset, date, ⟨hyear, hmonth, hday⟩, clock,
          ⟨hlt, hhour, hminute, hsecond, hnano⟩,
        h⟩ := h
      cases h
      exact ⟨by omega, hlt, hyear, hmonth, hday, hhour, hminute, hsecond, hnano, hoffset⟩
    · intro h
      obtain ⟨_, hlt, h⟩ := h
      exact ⟨t.offset, h.offset, t.date, ⟨h.year, h.month, h.day⟩, t.clock,
        ⟨hlt, h.hour, h.minute, h.second, h.nanosecond⟩, rfl⟩

theorem InRange.offsetSeconds_bounds {p : TimestampParts} (h : p.InRange) :
    -86400 < p.offsetSeconds ∧ p.offsetSeconds < 86400 := by
  have hhours := h.offsetHours
  have hminutes := h.offsetMinutes
  unfold offsetSeconds
  split
  all_goals omega

theorem inRange_of_hasParts {p : TimestampParts} {t : Timestamp} (hminutes : p.offsetMinutes < 60)
    (h : t.HasParts p) : p.InRange where
  month := h.month ▸ t.date.month_bounds
  day := by
    have hpos := t.date.day_pos
    have hle := t.date.day_le
    rw [h.year, h.month, h.day] at hle
    rw [h.day] at hpos
    exact ⟨hpos, hle⟩
  hour := h.hour ▸ t.clock.hour_lt
  minute := h.minute ▸ t.clock.minute_lt
  second := h.second ▸ t.clock.second_lt
  offsetHours := by
    have hoffset := h.offset
    have hlower := t.offset.lower
    have hupper := t.offset.upper
    unfold offsetSeconds at hoffset
    split at hoffset
    all_goals omega
  offsetMinutes := hminutes

/-- Parts make a timestamp exactly when they are in range. -/
theorem exists_toTimestamp?_iff {p : TimestampParts} (hnano : p.nanosecond < 1000000000) :
    (∃ t, p.toTimestamp? = some t) ↔ p.InRange := by
  apply Iff.intro
  · intro h
    obtain ⟨t, ht⟩ := h
    obtain ⟨hminutes, _, hparts⟩ := toTimestamp?_eq_some_iff.1 ht
    exact inRange_of_hasParts hminutes hparts
  · intro h
    have hoffset := h.offsetSeconds_bounds
    have hlt : p.nanosecond < if p.second = 59 then 2000000000 else 1000000000 := by
      split
      all_goals omega
    let t : Timestamp := ⟨⟨p.year, p.month, p.day, h.day.1, h.day.2⟩,
      ⟨p.hour, p.minute, p.second, p.nanosecond, h.hour, h.minute, h.second, hlt⟩,
      ⟨p.offsetSeconds, hoffset.1, hoffset.2⟩⟩
    exact ⟨t, toTimestamp?_eq_some_iff.2 ⟨h.offsetMinutes, hnano,
      ⟨rfl, rfl, rfl, rfl, rfl, rfl, rfl, rfl⟩⟩⟩

end TimestampParts

/-! ### The parts of a form -/

theorem DigitRun.value_lt {least most : Nat} (run : DigitRun least most) : run.value < 10 ^ most :=
  Nat.lt_of_lt_of_le (Decimal.valueOfDigits_lt run.allDigits)
    (Nat.pow_le_pow_right (by decide) run.le_most)

theorem nanoseconds?_lt (f : Option SecondFraction) : nanoseconds? f < 1000000000 := by
  cases f with
  | none => decide
  | some f =>
    have hall : AllDigits ((f.digits ++ List.replicate 9 '0').take 9) := by
      intro c hc
      exact allDigits_append f.allDigits (allDigits_zeros 9) c (List.mem_of_mem_take hc)
    have hlength : ((f.digits ++ List.replicate 9 '0').take 9).length = 9 := by
      rw [List.length_take, List.length_append, List.length_replicate]
      omega
    have hlt := Decimal.valueOfDigits_lt hall
    rw [hlength] at hlt
    exact hlt

namespace TimestampForm

theorem year_parts_lt (f : TimestampForm) : f.parts.year < 10000 := by
  have hday : ∀ d : DayForm, d.parts.year < 10000 := by
    intro d
    cases d
    all_goals exact DigitRun.value_lt _
  cases f with
  | year y => exact y.value_lt
  | month y m => exact y.value_lt
  | day d => exact hday d
  | moment d space c o =>
    have hclock : (c.fill d.parts).year = d.parts.year := by
      cases c
      all_goals rfl
    have hoffset : (moment d space c o).parts.year = (c.fill d.parts).year := by
      cases o with
      | none => rfl
      | some o =>
        cases o
        all_goals rfl
    rw [hoffset, hclock]
    exact hday d

theorem nanosecond_parts_lt (f : TimestampForm) : f.parts.nanosecond < 1000000000 := by
  have hzero : 0 < 1000000000 := by decide
  cases f with
  | year y => exact hzero
  | month y m => exact hzero
  | day d =>
    cases d
    all_goals exact hzero
  | moment d space c o =>
    have hclock : (c.fill d.parts).nanosecond < 1000000000 := by
      cases c with
      | hour h => exact hzero
      | minute h colon m => exact hzero
      | second h minuteColon m secondColon s f => exact nanoseconds?_lt f
      | loneSecond h colon s f => exact nanoseconds?_lt f
    cases o with
    | none => exact hclock
    | some o =>
      cases o
      all_goals exact hclock

end TimestampForm

namespace Timestamp

theorem ofText?_eq_some_iff_form {s : List Char} {t : Timestamp} : ofText? s = some t ↔
    ∃ f : TimestampForm, f.text = s ∧ f.parts.InRange ∧ t.HasParts f.parts := by
  rw [ofText?, Option.bind_eq_some_iff]
  apply Iff.intro
  · intro h
    obtain ⟨p, hread, ht⟩ := h
    obtain ⟨f, htext, rfl⟩ := TimestampParts.ofText?_eq_some_iff.1 hread
    obtain ⟨hminutes, _, hparts⟩ := TimestampParts.toTimestamp?_eq_some_iff.1 ht
    exact ⟨f, htext, TimestampParts.inRange_of_hasParts hminutes hparts, hparts⟩
  · intro h
    obtain ⟨f, htext, hrange, hparts⟩ := h
    exact ⟨f.parts, TimestampParts.ofText?_eq_some_iff.2 ⟨f, htext, rfl⟩,
      TimestampParts.toTimestamp?_eq_some_iff.2 ⟨hrange.offsetMinutes, f.nanosecond_parts_lt,
      hparts⟩⟩

theorem exists_ofText?_form (f : TimestampForm) :
    (∃ t, ofText? f.text = some t) ↔ f.parts.InRange := by
  rw [← TimestampParts.exists_toTimestamp?_iff f.nanosecond_parts_lt, ofText?,
    TimestampParts.ofText?_text, Option.bind_some]

/-- The text of a form, documented or not, is read exactly when the calendar has its date, the clock
its time, and its offset has less than 24 hours and less than 60 minutes. What is read is the
timestamp with the local date and time and the offset that the form denotes. -/
theorem ofText?_form (f : TimestampForm) :
    ((∃ t, ofText? f.text = some t) ↔ f.parts.InRange) ∧
    ∀ t, ofText? f.text = some t ↔ f.parts.InRange ∧ t.HasParts f.parts := by
  refine ⟨exists_ofText?_form f, ?_⟩
  intro t
  rw [ofText?_eq_some_iff_form]
  apply Iff.intro
  · intro h
    obtain ⟨g, htext, hparts⟩ := h
    rw [← TimestampForm.text_injective htext]
    exact hparts
  · intro h
    exact ⟨f, rfl, h⟩

example : TimestampParts.ofText? "2016-2-29 23:59:5,1234567899-0330".toList
    = some ⟨2016, 2, 29, 23, 59, 5, 123456789, true, 3, 30⟩ := by decide

/-- A text is read exactly when it has a form with parts in range. It is ASCII then and has no other
form; and the form is documented unless it has one hyphen in the date, uneven seconds, seconds
without minutes, or an offset that ends in a colon. -/
theorem read_iff_form (s : List Char) :
    ((∃ t, ofText? s = some t) ↔ ∃ f : TimestampForm, f.text = s ∧ f.parts.InRange) ∧
    ∀ t, ofText? s = some t → IsAscii s ∧ ∃ f : TimestampForm, f.text = s ∧
      (∀ g : TimestampForm, g.text = s → g = f) ∧ t.HasParts f.parts ∧
      (f.IsDocumented ↔
        ¬ f.HasOneHyphen ∧ ¬ f.HasUnevenSeconds ∧ ¬ f.OmitsMinutes ∧ ¬ f.EndsInColon) := by
  refine ⟨⟨?_, ?_⟩, ?_⟩
  · intro h
    obtain ⟨t, ht⟩ := h
    obtain ⟨f, htext, hrange, _⟩ := ofText?_eq_some_iff_form.1 ht
    exact ⟨f, htext, hrange⟩
  · intro h
    obtain ⟨f, rfl, hrange⟩ := h
    exact (exists_ofText?_form f).2 hrange
  · intro t ht
    obtain ⟨f, rfl, _, hparts⟩ := ofText?_eq_some_iff_form.1 ht
    exact ⟨f.isAscii_text, f, rfl, fun g hg => TimestampForm.text_injective hg, hparts,
      f.isDocumented_iff⟩

/-- The form of `2016-0229 2359:5,25+02:`, with one hyphen, uneven seconds and a colon at the
end. -/
def mixedForm : TimestampForm :=
  .moment (.monthHyphen ⟨['2', '0', '1', '6'], by decide, by decide, by decide⟩
      ⟨['0', '2'], by decide, by decide, by decide⟩
      ⟨['2', '9'], by decide, by decide, by decide⟩) true
    (.second ⟨['2', '3'], by decide, by decide, by decide⟩ false
      ⟨['5', '9'], by decide, by decide, by decide⟩ true ⟨['5'], by decide, by decide, by decide⟩
      (some ⟨true, ['2', '5'], by decide, by decide⟩))
    (some (.openColon false ⟨['0', '2'], by decide, by decide, by decide⟩))

theorem read_of_mixed_form : ∃ t, ofText? "2016-0229 2359:5,25+02:".toList = some t ∧
    IsAscii "2016-0229 2359:5,25+02:".toList ∧ t.HasParts mixedForm.parts ∧
    (∀ g : TimestampForm, g.text = "2016-0229 2359:5,25+02:".toList → g = mixedForm) ∧
    ¬ mixedForm.IsDocumented := by
  obtain ⟨hread, hall⟩ := read_iff_form "2016-0229 2359:5,25+02:".toList
  have htext : mixedForm.text = "2016-0229 2359:5,25+02:".toList := by decide
  have hrange : mixedForm.parts.InRange := by
    constructor
    all_goals decide
  obtain ⟨t, ht⟩ := hread.2 ⟨mixedForm, htext, hrange⟩
  obtain ⟨hascii, f, _, hunique, hparts, hdocumented⟩ := hall t ht
  have hsame := hunique mixedForm htext
  rw [← hsame] at hunique hparts hdocumented
  exact ⟨t, ht, hascii, hparts, hunique, fun h => (hdocumented.1 h).1 trivial⟩

/-- The form of `2016-02-01T12:5`. -/
def hourAndSecond : TimestampForm :=
  .moment (.extended ⟨['2', '0', '1', '6'], by decide, by decide, by decide⟩
      ⟨['0', '2'], by decide, by decide, by decide⟩
      ⟨['0', '1'], by decide, by decide, by decide⟩) false
    (.loneSecond ⟨['1', '2'], by decide, by decide, by decide⟩ true
      ⟨['5'], by decide, by decide, by decide⟩ none) none

/-- A single digit behind the hour is read as seconds, though no documented form has seconds
there. -/
theorem second_read_without_minute :
    (∃ t, ofText? "2016-02-01T12:5".toList = some t ∧ t.clock.hour = 12 ∧ t.clock.minute = 0 ∧
      t.clock.second = 5) ∧
    ¬ ∃ f : TimestampForm, f.IsDocumented ∧ f.text = "2016-02-01T12:5".toList := by
  have htext : hourAndSecond.text = "2016-02-01T12:5".toList := by decide
  have hrange : hourAndSecond.parts.InRange := by
    constructor
    all_goals decide
  rw [← htext]
  refine ⟨?_, ?_⟩
  · obtain ⟨t, ht⟩ := (exists_ofText?_form hourAndSecond).2 hrange
    obtain ⟨f, hf, _, hparts⟩ := ofText?_eq_some_iff_form.1 ht
    rw [TimestampForm.text_injective hf] at hparts
    exact ⟨t, ht, hparts.hour, hparts.minute, hparts.second⟩
  · intro h
    obtain ⟨f, hdocumented, hf⟩ := h
    rw [TimestampForm.text_injective hf] at hdocumented
    exact hdocumented.2.1

end Timestamp

end SidecarIndex

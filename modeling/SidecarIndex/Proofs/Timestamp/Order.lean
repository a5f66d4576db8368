import Mathlib.Logic.Function.Iterate
import SidecarIndex.Proofs.Timestamp.Printer
import SidecarIndex.Value.Basic

/-! # The order of timestamps

The days of the calendar are numbered in order and without gaps. So local times are ordered part by
part, from the year down to the nanosecond, and timestamps by their local times less their
offsets. -/

namespace SidecarIndex

section

variable {α : Type} [Ord α] [LE α] [LT α] [Std.LawfulOrderOrd α] [Std.LawfulOrderLT α]
  [Std.LawfulEqOrd α] {a b : α} {x y : Int}

/-- The order of two numbers is that of their leading parts `a` and `b`, then that of what
remains. -/
theorem compare_eq_then {o : Ordering} (hlt : a < b → x < y) (hgt : b < a → y < x)
    (heq : a = b → compare x y = o) : compare x y = (compare a b).then o := by
  cases h : compare a b with
  | lt => exact Int.compare_eq_lt.2 (hlt (Std.compare_eq_lt.1 h))
  | eq => exact heq (Std.LawfulEqOrd.eq_of_compare h)
  | gt => exact Int.compare_eq_gt.2 (hgt (Std.compare_eq_gt.1 h))

theorem compare_eq_compare (hlt : a < b → x < y) (hgt : b < a → y < x) (heq : a = b → x = y) :
    compare x y = compare a b := by
  rw [← @Ordering.then_eq (compare a b)]
  exact compare_eq_then hlt hgt fun h => Int.compare_eq_eq.2 (heq h)

end

namespace Date

/-! ### Days are numbered in order -/

theorem daysBeforeMonth_mono (year : Int) {m n : Nat} (h : m ≤ n) :
    daysBeforeMonth year m ≤ daysBeforeMonth year n := by
  induction h with
  | refl => exact Nat.le_refl _
  | step _ ih => exact Nat.le_trans ih (Nat.le_add_right _ _)

theorem daysBeforeYear_mono {m n : Int} (h : m ≤ n) : daysBeforeYear m ≤ daysBeforeYear n := by
  simp only [daysBeforeYear]
  omega

/-- A day stands before the first day of every later month. -/
theorem daysBeforeMonth_add_day_le (d : Date) {month : Nat} (h : d.month < month) :
    daysBeforeMonth d.year d.month + d.day ≤ daysBeforeMonth d.year month :=
  Nat.le_trans (Nat.add_le_add_left d.day_le _) (daysBeforeMonth_mono d.year h)

theorem dayNumber_lt_of_year {d e : Date} (h : d.year < e.year) : d.dayNumber < e.dayNumber := by
  have hmonth : daysBeforeMonth d.year d.month + d.day ≤ daysBeforeMonth d.year 13 :=
    d.daysBeforeMonth_add_day_le (Nat.lt_succ_of_le d.month_bounds.2)
  have hnext := daysBeforeYear_succ d.year
  have hyear := daysBeforeYear_mono (Int.add_one_le_of_lt h)
  have hpos := e.day_pos
  unfold dayNumber
  omega

theorem dayNumber_lt_of_month {d e : Date} (hyear : d.year = e.year) (h : d.month < e.month) :
    d.dayNumber < e.dayNumber := by
  have hmonth := d.daysBeforeMonth_add_day_le h
  have hpos := e.day_pos
  unfold dayNumber
  rw [hyear] at hmonth ⊢
  omega

theorem compare_dayNumber (d e : Date) : compare d.dayNumber e.dayNumber =
    (compare d.year e.year).then ((compare d.month e.month).then (compare d.day e.day)) := by
  refine compare_eq_then dayNumber_lt_of_year dayNumber_lt_of_year ?_
  intro hyear
  refine compare_eq_then (dayNumber_lt_of_month hyear) (dayNumber_lt_of_month hyear.symm) ?_
  intro hmonth
  have hday : d.dayNumber - d.day = e.dayNumber - e.day := by
    unfold dayNumber
    rw [hyear, hmonth]
    omega
  exact compare_eq_compare (by omega) (by omega) (by omega)

theorem eq_of_dayNumber {d e : Date} (h : d.dayNumber = e.dayNumber) : d = e := by
  have hparts := d.compare_dayNumber e
  rw [Int.compare_eq_eq.2 h] at hparts
  obtain ⟨hyear, hrest⟩ := Ordering.then_eq_eq.1 hparts.symm
  obtain ⟨hmonth, hday⟩ := Ordering.then_eq_eq.1 hrest
  exact ext_parts (Int.compare_eq_eq.1 hyear) (Nat.compare_eq_eq.1 hmonth)
    (Nat.compare_eq_eq.1 hday)

/-! ### Days are numbered without gaps -/

theorem daysInMonth_pos (year : Int) {month : Nat} (hpos : 1 ≤ month) (hle : month ≤ 12) :
    1 ≤ daysInMonth year month := by
  unfold daysInMonth
  split
  all_goals grind

/-- The following day: in the same month, on the first of the next month, or on New Year's Day. -/
def next (d : Date) : Date :=
  if hday : d.day < daysInMonth d.year d.month then
    ⟨d.year, d.month, d.day + 1, Nat.le_add_left 1 d.day, hday⟩
  else if hmonth : d.month < 12 then
    ⟨d.year, d.month + 1, 1, Nat.le_refl 1,
      daysInMonth_pos d.year (Nat.le_add_left 1 d.month) hmonth⟩
  else ⟨d.year + 1, 1, 1, Nat.le_refl 1, daysInMonth_pos (d.year + 1) (Nat.le_refl 1) (by decide)⟩

theorem dayNumber_next (d : Date) : d.next.dayNumber = d.dayNumber + 1 := by
  have hle := d.day_le
  have hsucc : daysBeforeMonth d.year (d.month + 1)
      = daysBeforeMonth d.year d.month + daysInMonth d.year d.month := rfl
  unfold next
  by_cases hday : d.day < daysInMonth d.year d.month
  · rw [dif_pos hday]
    simp only [dayNumber]
    omega
  · rw [dif_neg hday]
    split
    · simp only [dayNumber]
      omega
    · have hmonth : d.month = 12 := by
        have hbounds := d.month_bounds
        omega
      have hyear : daysBeforeYear (d.year + 1)
          = daysBeforeYear d.year + daysBeforeMonth d.year (12 + 1) :=
        daysBeforeYear_succ d.year
      have hfirst : daysBeforeMonth (d.year + 1) 1 = 0 := rfl
      rw [hmonth] at hsucc hle hday
      simp only [dayNumber, hmonth, hfirst]
      omega

theorem dayNumber_iterate_next (d : Date) (days : Nat) :
    (next^[days] d).dayNumber = d.dayNumber + days := by
  induction days with
  | zero => exact (Int.add_zero _).symm
  | succ days ih =>
    rw [Function.iterate_succ_apply', dayNumber_next, ih]
    omega

/-- The numbers of two days tell how many days lie between them. -/
theorem eq_iterate_next_iff {d e : Date} {days : Nat} :
    e = next^[days] d ↔ e.dayNumber = d.dayNumber + days := by
  apply Iff.intro
  · intro h
    rw [h, dayNumber_iterate_next]
  · intro h
    exact eq_of_dayNumber (h.trans (d.dayNumber_iterate_next days).symm)

end Date

/-! ### Local times -/

theorem Clock.compare_secondOfDay (c d : Clock) : compare (c.secondOfDay : Int) d.secondOfDay =
    (compare c.hour d.hour).then
      ((compare c.minute d.minute).then (compare c.second d.second)) := by
  have hminute := c.minute_lt
  have hminute' := d.minute_lt
  have hsecond := c.second_lt
  have hsecond' := d.second_lt
  unfold secondOfDay
  refine compare_eq_then (by omega) (by omega) ?_
  intro hsameHour
  refine compare_eq_then (by omega) (by omega) ?_
  intro hsameMinute
  exact compare_eq_compare (by omega) (by omega) (by omega)

theorem Clock.secondOfDay_lt (c : Clock) : c.secondOfDay < 86400 := by
  have hhour := c.hour_lt
  have hminute := c.minute_lt
  have hsecond := c.second_lt
  unfold secondOfDay
  omega

def Clock.nanosecondOfDay (c : Clock) : Nat := c.secondOfDay * 1000000000 + c.nanosecond

namespace Timestamp

/-- Nanoseconds of local time since 1970-01-01T00:00:00. -/
def localTime (t : Timestamp) : Int := t.date.dayNumber * 86400000000000 + t.clock.nanosecondOfDay

/-- The order of the local times, part by part. -/
def compareParts (a b : Timestamp) : Ordering :=
  (Ord.compare a.date.year b.date.year).then <| (Ord.compare a.date.month b.date.month).then <|
  (Ord.compare a.date.day b.date.day).then <| (Ord.compare a.clock.hour b.clock.hour).then <|
  (Ord.compare a.clock.minute b.clock.minute).then <|
  (Ord.compare a.clock.second b.clock.second).then <|
  Ord.compare a.clock.nanosecond b.clock.nanosecond

theorem compare_localTime {a b : Timestamp} (ha : a.clock.nanosecond < 1000000000)
    (hb : b.clock.nanosecond < 1000000000) :
    Ord.compare a.localTime b.localTime = a.compareParts b := by
  have hsecond := a.clock.secondOfDay_lt
  have hsecond' := b.clock.secondOfDay_lt
  have hparts : a.compareParts b = (Ord.compare a.date.dayNumber b.date.dayNumber).then
      ((Ord.compare (a.clock.secondOfDay : Int) b.clock.secondOfDay).then
        (Ord.compare a.clock.nanosecond b.clock.nanosecond)) := by
    rw [Date.compare_dayNumber, Clock.compare_secondOfDay]
    simp only [compareParts, Ordering.then_assoc]
  rw [hparts]
  unfold localTime Clock.nanosecondOfDay
  refine compare_eq_then (by omega) (by omega) ?_
  intro hsameDay
  refine compare_eq_then (by omega) (by omega) ?_
  intro hsameSecond
  exact compare_eq_compare (by omega) (by omega) (by omega)

/-- The instant of a timestamp: its local time less its offset, in nanoseconds. -/
def instant (t : Timestamp) : Int := t.localTime - t.offset.seconds * 1000000000

theorem compare_eq_compare_instant {a b : Timestamp} (ha : a.clock.nanosecond < 1000000000)
    (hb : b.clock.nanosecond < 1000000000) : a.compare b = Ord.compare a.instant b.instant := by
  have hunix : ∀ t : Timestamp, t.instant = t.unixSeconds * 1000000000 + t.clock.nanosecond := by
    intro t
    unfold instant localTime unixSeconds Clock.nanosecondOfDay
    omega
  rw [hunix, hunix, compare]
  symm
  refine compare_eq_then (by omega) (by omega) ?_
  intro hsameSecond
  exact compare_eq_compare (by omega) (by omega) (by omega)

theorem localTime_sub {a b : Timestamp} {days : Nat} (h : b.date = Date.next^[days] a.date) :
    b.localTime - a.localTime = (days : Int) * 86400000000000 + b.clock.nanosecondOfDay
      - a.clock.nanosecondOfDay := by
  have hday := Date.eq_iterate_next_iff.1 h
  unfold localTime
  omega

/-- The timestamps of two texts always compare, as equal exactly where they are the same value, and
by their local times less their offsets. With one offset that is the order of their parts. Where the
second date comes some days after the first, they are equal exactly when the time between the two
local times is the difference of the offsets. -/
theorem ordered_as_instants {s t : List Char} {a b : Timestamp} (ha : ofText? s = some a)
    (hb : ofText? t = some b) :
    ∃ o, (Value.timestamp a).compare? (.timestamp b) = some o ∧
      (o = .eq ↔ (Value.timestamp a).same (.timestamp b) = true) ∧
      o = Ord.compare (a.localTime - a.offset.seconds * 1000000000)
        (b.localTime - b.offset.seconds * 1000000000) ∧
      (a.offset = b.offset → o = a.compareParts b) ∧
      ∀ days : Nat, b.date = Date.next^[days] a.date →
        (o = .eq ↔ (days : Int) * 86400000000000 + b.clock.nanosecondOfDay - a.clock.nanosecondOfDay
          = (b.offset.seconds - a.offset.seconds) * 1000000000) := by
  have hlt := (isPlain_of_ofText? ha).nanosecond_lt
  have hlt' := (isPlain_of_ofText? hb).nanosecond_lt
  have hinstant := compare_eq_compare_instant hlt hlt'
  refine ⟨a.compare b, rfl, a.compare_eq_iff_same b, hinstant, ?_, ?_⟩
  · intro hoffset
    rw [hinstant, instant, instant, hoffset, ← compare_localTime hlt hlt']
    refine compare_eq_compare ?_ ?_ ?_
    all_goals
      intro h
      omega
  · intro days hdays
    rw [hinstant, Int.compare_eq_eq, ← localTime_sub hdays]
    unfold instant
    omega

/-- Half past midnight on New Year's Day, written in the old year and in the new one. -/
theorem equal_across_new_year : ∃ a b : Timestamp,
    ofText? "2015-12-31T23:30-01:00".toList = some a ∧
    ofText? "2016-01-01T02:30+02:00".toList = some b ∧ a.date.year < b.date.year ∧
    (Value.timestamp a).compare? (.timestamp b) = some .eq := by
  let a : Timestamp := ⟨⟨2015, 12, 31, by decide, by decide⟩,
    ⟨23, 30, 0, 0, by decide, by decide, by decide, by decide⟩, ⟨-3600, by decide, by decide⟩⟩
  let b : Timestamp := ⟨⟨2016, 1, 1, by decide, by decide⟩,
    ⟨2, 30, 0, 0, by decide, by decide, by decide, by decide⟩, ⟨7200, by decide, by decide⟩⟩
  have ha : ofText? "2015-12-31T23:30-01:00".toList = some a := by decide
  have hb : ofText? "2016-01-01T02:30+02:00".toList = some b := by decide
  obtain ⟨o, hcompare, _, _, _, hdays⟩ := ordered_as_instants ha hb
  refine ⟨a, b, ha, hb, by decide, ?_⟩
  rw [hcompare, (hdays 1 (by decide)).2 (by decide)]

end Timestamp

end SidecarIndex

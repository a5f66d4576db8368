/-! # Calendar

Dates of the Gregorian calendar, continued without limit into the past and the future, and their
place on the line of days. -/

namespace SidecarIndex

/-- Every fourth year is a leap year, except for the centuries that 400 does not divide. -/
def isLeapYear (year : Int) : Bool :=
  year % 4 == 0 && (year % 100 != 0 || year % 400 == 0)

def daysInMonth (year : Int) : Nat → Nat
  | 1 | 3 | 5 | 7 | 8 | 10 | 12 => 31
  | 4 | 6 | 9 | 11 => 30
  | 2 => if isLeapYear year then 29 else 28
  | _ => 0

structure Date where
  year : Int
  month : Nat
  day : Nat
  day_pos : 1 ≤ day
  day_le : day ≤ daysInMonth year month
  deriving DecidableEq

namespace Date

def of? (year : Int) (month day : Nat) : Option Date :=
  if h : 1 ≤ day ∧ day ≤ daysInMonth year month then some ⟨year, month, day, h.1, h.2⟩ else none

/-- Days from the first day of year one to the first day of `year`. -/
def daysBeforeYear (year : Int) : Int :=
  let past := year - 1
  365 * past + past / 4 - past / 100 + past / 400

def daysBeforeMonth (year : Int) : Nat → Nat
  | 0 => 0
  | month + 1 => daysBeforeMonth year month + daysInMonth year month

def dayNumber (d : Date) : Int :=
  daysBeforeYear d.year + daysBeforeMonth d.year d.month + (d.day - 1) - 719162

end Date

/-- The days of a year and its months add up: the next year starts where December ends. -/
theorem daysBeforeYear_succ (year : Int) :
    Date.daysBeforeYear (year + 1) = Date.daysBeforeYear year + Date.daysBeforeMonth year 13 := by
  have hsum : (Date.daysBeforeMonth year 13 : Int) = if isLeapYear year then 366 else 365 := by
    simp only [Date.daysBeforeMonth, daysInMonth]
    split <;> rfl
  rw [hsum]
  simp only [Date.daysBeforeYear, isLeapYear, Bool.and_eq_true, Bool.or_eq_true, beq_iff_eq,
    bne_iff_ne]
  split <;> omega

end SidecarIndex

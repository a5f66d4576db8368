import SidecarIndex.Timestamp.Calendar

/-! # Timestamps

A timestamp is a local date and time together with the distance of that local time from universal
time. It denotes an instant; timestamps are compared by their instants. -/

namespace SidecarIndex

/-- A time of day. A leap second is the last second of a minute with more than `10 ^ 9`
nanoseconds. -/
structure Clock where
  hour : Nat
  minute : Nat
  second : Nat
  nanosecond : Nat
  hour_lt : hour < 24
  minute_lt : minute < 60
  second_lt : second < 60
  nanosecond_lt : nanosecond < if second = 59 then 2000000000 else 1000000000
  deriving DecidableEq

def Clock.of? (hour minute second nanosecond : Nat) : Option Clock :=
  if h : hour < 24 ∧ minute < 60 ∧ second < 60 ∧ nanosecond < 1000000000 then
    some ⟨hour, minute, second, nanosecond, h.1, h.2.1, h.2.2.1, by split <;> omega⟩
  else none

def Clock.secondOfDay (c : Clock) : Nat := c.hour * 3600 + c.minute * 60 + c.second

/-- How far local time is ahead of universal time: less than a day either way. -/
structure Offset where
  seconds : Int
  lower : -86400 < seconds
  upper : seconds < 86400
  deriving DecidableEq

def Offset.utc : Offset := ⟨0, by decide, by decide⟩

def Offset.of? (seconds : Int) : Option Offset :=
  if h : -86400 < seconds ∧ seconds < 86400 then some ⟨seconds, h.1, h.2⟩ else none

structure Timestamp where
  date : Date
  clock : Clock
  offset : Offset
  deriving DecidableEq

namespace Timestamp

/-- Whole seconds of universal time since 1970-01-01T00:00:00, rounded down. -/
def unixSeconds (t : Timestamp) : Int :=
  t.date.dayNumber * 86400 + t.clock.secondOfDay - t.offset.seconds

def compare (a b : Timestamp) : Ordering :=
  (Ord.compare a.unixSeconds b.unixSeconds).then
    (Ord.compare a.clock.nanosecond b.clock.nanosecond)

def same (a b : Timestamp) : Bool :=
  a.unixSeconds == b.unixSeconds && a.clock.nanosecond == b.clock.nanosecond

theorem compare_eq_iff_same (a b : Timestamp) : a.compare b = .eq ↔ a.same b = true := by
  simp [compare, same, Ordering.then_eq_eq]

end Timestamp

end SidecarIndex

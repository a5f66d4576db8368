import SidecarIndex.Timestamp.Basic

/-! # Writing timestamps

A timestamp is written with all its parts: the date, `T`, the time with as many groups of three
fraction digits as it needs, and the offset in hours and minutes with its sign. -/

namespace SidecarIndex

def padded (width n : Nat) : List Char :=
  let digits := Nat.toDigits 10 n
  List.replicate (width - digits.length) '0' ++ digits

namespace Timestamp

/-- Years of four digits stand alone, all others carry their sign. -/
def yearText (year : Int) : List Char :=
  if 0 ≤ year ∧ year ≤ 9999 then padded 4 year.toNat
  else (if year < 0 then '-' else '+') :: padded 4 year.natAbs

def dateText (d : Date) : List Char :=
  yearText d.year ++ '-' :: padded 2 d.month ++ '-' :: padded 2 d.day

/-- The fraction of a second, in the fewest groups of three digits that are exact. -/
def fractionText (nanosecond : Nat) : List Char :=
  if nanosecond = 0 then []
  else if nanosecond % 1000000 = 0 then '.' :: padded 3 (nanosecond / 1000000)
  else if nanosecond % 1000 = 0 then '.' :: padded 6 (nanosecond / 1000)
  else '.' :: padded 9 nanosecond

/-- Hour, minute and second; a leap second is written as second 60. -/
def clockText (c : Clock) : List Char :=
  let leap := 1000000000 ≤ c.nanosecond
  let second := if leap then c.second + 1 else c.second
  let nanosecond := if leap then c.nanosecond - 1000000000 else c.nanosecond
  padded 2 c.hour ++ ':' :: padded 2 c.minute ++ ':' :: padded 2 second ++ fractionText nanosecond

/-- The offset to the nearest minute. -/
def offsetText (o : Offset) : List Char :=
  let minutes := (o.seconds.natAbs + 30) / 60
  (if o.seconds < 0 then '-' else '+') :: padded 2 (minutes / 60) ++ ':' :: padded 2 (minutes % 60)

def text (t : Timestamp) : List Char :=
  dateText t.date ++ 'T' :: clockText t.clock ++ offsetText t.offset

end Timestamp

end SidecarIndex

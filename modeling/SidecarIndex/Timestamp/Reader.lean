import SidecarIndex.Timestamp.Basic
import SidecarIndex.Text.Scan

/-! # Reading timestamps

A timestamp is read part by part from the left: a year of four digits, then a month, a day, a time
and an offset, each of which may be missing when nothing follows it. Reading first collects the
parts as they stand, then asks whether the calendar and the clock have them. -/

namespace SidecarIndex

structure TimestampParts where
  year : Nat
  month : Nat := 1
  day : Nat := 1
  hour : Nat := 0
  minute : Nat := 0
  second : Nat := 0
  nanosecond : Nat := 0
  west : Bool := false
  offsetHours : Nat := 0
  offsetMinutes : Nat := 0
  deriving DecidableEq

namespace TimestampParts

def toTimestamp? (p : TimestampParts) : Option Timestamp := do
  if 60 ≤ p.offsetMinutes then none
  let seconds : Int := p.offsetHours * 3600 + p.offsetMinutes * 60
  let offset ← Offset.of? (if p.west then -seconds else seconds)
  let date ← Date.of? p.year p.month p.day
  let clock ← Clock.of? p.hour p.minute p.second p.nanosecond
  return ⟨date, clock, offset⟩

/-! ### Reading the parts -/

/-- Reads the month: one or two digits after a hyphen, or two digits that something follows. -/
def month? (s : List Char) : Option (Nat × List Char) :=
  if s.isEmpty then some (1, s)
  else match Scan.accept? '-' s with
    | some rest => Scan.digits? 1 2 rest
    | none => (Scan.digits? 2 2 s).filter fun r => !r.2.isEmpty

/-- Reads the day: one or two digits after a hyphen, or two digits. -/
def day? (s : List Char) : Option (Nat × List Char) :=
  if s.isEmpty then some (1, s)
  else match Scan.accept? '-' s with
    | some rest => Scan.digits? 1 2 rest
    | none => Scan.digits? 2 2 s

def fraction? (s : List Char) : Option (Nat × List Char) :=
  match Scan.accept? '.' s with
  | some rest => Scan.billionths? rest
  | none => (Scan.accept? ',' s).bind Scan.billionths?

def minute? (s : List Char) : Option (Nat × List Char) :=
  Scan.digits? 2 2 (Scan.skip ':' s)

/-- Reads the seconds, one or two digits after a colon that may be missing, and their fraction. -/
def second? (s : List Char) : Option ((Nat × Nat) × List Char) := do
  let (second, rest) ← Scan.digits? 1 2 (Scan.skip ':' s)
  let (nanosecond, rest) := Scan.attempt fraction? rest
  return ((second, nanosecond.getD 0), rest)

def clock? (p : TimestampParts) (s : List Char) : Option (TimestampParts × List Char) := do
  let (hour, rest) ← Scan.digits? 2 2 s
  let (minute, rest) := Scan.attempt minute? rest
  let (seconds, rest) := Scan.attempt second? rest
  let (second, nanosecond) := seconds.getD (0, 0)
  return ({ p with hour, minute := minute.getD 0, second, nanosecond }, rest)

def sign? (s : List Char) : Option (Bool × List Char) :=
  match Scan.accept? '+' s with
  | some rest => some (false, rest)
  | none => (Scan.accept? '-' s).map fun rest => (true, rest)

def signedOffset? (p : TimestampParts) (s : List Char) : Option (TimestampParts × List Char) := do
  let (west, rest) ← sign? s
  let (offsetHours, rest) ← Scan.digits? 2 2 rest
  let (minutes, rest) := Scan.attempt (Scan.digits? 2 2) (Scan.skip ':' rest)
  return ({ p with west, offsetHours, offsetMinutes := minutes.getD 0 }, rest)

def offset (p : TimestampParts) (s : List Char) : TimestampParts × List Char :=
  match Scan.accept? 'Z' s with
  | some rest => (p, rest)
  | none =>
    let (found, rest) := Scan.attempt (signedOffset? p) s
    (found.getD p, rest)

/-- Reads a time and an offset after `T` or a space; nothing may be left. -/
def time? (p : TimestampParts) (s : List Char) : Option TimestampParts := do
  if s.isEmpty then return p
  let rest ← (Scan.accept? 'T' s).or (Scan.accept? ' ' s)
  let (p, rest) ← clock? p rest
  let (p, rest) := offset p rest
  if rest.isEmpty then some p else none

def ofText? (s : List Char) : Option TimestampParts := do
  let (year, rest) ← Scan.digits? 4 4 s
  let (month, rest) ← month? rest
  let (day, rest) ← day? rest
  time? { year, month, day } rest

end TimestampParts

def Timestamp.ofText? (s : List Char) : Option Timestamp :=
  (TimestampParts.ofText? s).bind TimestampParts.toTimestamp?

end SidecarIndex

import SidecarIndex.Number.Decimal

/-! # Taking text apart

Readers that take a little off the front of a text and give what they took together with the
rest. -/

namespace SidecarIndex.Scan

def accept? (c : Char) : List Char → Option (List Char)
  | d :: s => if d = c then some s else none
  | [] => none

def skip (c : Char) (s : List Char) : List Char := (accept? c s).getD s

def digits? (least most : Nat) (s : List Char) : Option (Nat × List Char) :=
  let run := (s.take most).takeWhile Char.isDigit
  if run.length < least then none
  else some (Decimal.valueOfDigits run, s.drop run.length)

/-- Takes a run of digits as a decimal fraction, in units of `10 ^ -9`; further digits are
dropped. -/
def billionths? (s : List Char) : Option (Nat × List Char) :=
  let run := s.takeWhile Char.isDigit
  if run.isEmpty then none
  else some (Decimal.valueOfDigits ((run ++ List.replicate 9 '0').take 9), s.drop run.length)

def hexDigit? (c : Char) : Option Nat :=
  if c.isDigit then some (c.toNat - '0'.toNat)
  else if 'a' ≤ c ∧ c ≤ 'f' then some (c.toNat - 'a'.toNat + 10)
  else if 'A' ≤ c ∧ c ≤ 'F' then some (c.toNat - 'A'.toNat + 10)
  else none

def valueIn? (base : Nat) (s : List Char) : Option Nat :=
  s.foldl (fun value c => do
    let d ← hexDigit? c
    if d < base then return (← value) * base + d else none) (some 0)

/-- Reads something that may be missing; where it cannot be read nothing is taken. -/
def attempt (read : List Char → Option (α × List Char)) (s : List Char) : Option α × List Char :=
  match read s with
  | some (a, rest) => (some a, rest)
  | none => (none, s)

end SidecarIndex.Scan

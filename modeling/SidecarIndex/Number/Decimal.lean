import SidecarIndex.Number.Rounding

/-! # Decimals

A decimal is a whole number of digits and a power of ten. It denotes a magnitude: the nearest
one. -/

namespace SidecarIndex

structure Decimal where
  digits : Nat
  exponent : Int
  deriving DecidableEq

namespace Decimal

/-- The value as a quotient of whole numbers of steps. -/
def quotient (d : Decimal) : Nat × Nat :=
  match d.exponent with
  | .ofNat e => (d.digits * Nat.pow 10 e * stepsInOne, 1)
  | .negSucc e => (d.digits * stepsInOne, Nat.pow 10 (e + 1))

/-- The magnitude nearest to the value; none when it is too large. Exponents beyond all magnitudes
are decided without computing the power: more than `10 ^ 400` is too large, and a value of less than
`2 ^ -1100` rounds to zero. -/
def magnitude? (d : Decimal) : Option Magnitude :=
  if d.digits = 0 then some Magnitude.zero
  else if 400 < d.exponent then none
  else if (d.digits.log2 : Int) + 1 + 3 * d.exponent < -1100 then some Magnitude.zero
  else Magnitude.nearest? d.quotient.1 d.quotient.2

def toNumber (d : Decimal) (negative : Bool) : Number :=
  match d.magnitude? with
  | some m => .finite negative m
  | none => .infinite negative

def exact (m : Magnitude) : Decimal := ⟨m.steps * Nat.pow 5 1074, -1074⟩

/-! ### Digits -/

def valueOfDigits (s : List Char) : Nat := Nat.ofDigitChars 10 s 0

/-- The decimal with the given digits before and after the point, shifted by an exponent. -/
def ofDigits (whole fraction : List Char) (exponent : Int) : Decimal :=
  ⟨valueOfDigits (whole ++ fraction), exponent - fraction.length⟩

def trimmed (d : Decimal) : Decimal :=
  if d.digits = 0 then ⟨0, 0⟩
  else if h : d.digits % 10 = 0 ∧ d.digits ≠ 0 then trimmed ⟨d.digits / 10, d.exponent + 1⟩
  else d
termination_by d.digits
decreasing_by exact Nat.div_lt_self (Nat.pos_of_ne_zero h.2) (by decide)

end Decimal

end SidecarIndex

import SidecarIndex.Number.Shortest

/-! # Writing numbers

A decimal is written with all its places or with an exponent. Two layouts are built on that: the one
in which values are shown, which never has an exponent, and the one of side-car text. -/

namespace SidecarIndex

namespace Decimal

def digitsText (d : Decimal) : List Char := Nat.toDigits 10 d.digits

/-- All places of a decimal, with a point only where digits stand after it. -/
def positional (d : Decimal) : List Char :=
  let digits := d.digitsText
  match d.exponent with
  | .ofNat e => digits ++ List.replicate e '0'
  | .negSucc e =>
    let places := e + 1
    if places < digits.length then
      digits.take (digits.length - places) ++ '.' :: digits.drop (digits.length - places)
    else '0' :: '.' :: (List.replicate (places - digits.length) '0' ++ digits)

def magnitudeExponent (d : Decimal) : Int := d.exponent + d.digitsText.length - 1

/-- One digit before the point and an exponent that always has its sign. -/
def scientific (d : Decimal) : List Char :=
  let mantissa := match d.digitsText with
    | first :: second :: rest => first :: '.' :: second :: rest
    | digits => digits
  let exponent := d.magnitudeExponent
  let sign := if exponent < 0 then '-' else '+'
  mantissa ++ 'e' :: sign :: Nat.toDigits 10 exponent.natAbs

end Decimal

/-- How numbers are written: which of two equally near decimals is taken, from which magnitude on
whole numbers lose their `.0`, and which powers of ten of the first digit are written with an
exponent. -/
structure NumberLayout where
  tie : TieRule
  scientific : Decimal → Bool
  pointed : Magnitude → Bool

namespace NumberLayout

def magnitudeText (layout : NumberLayout) (m : Magnitude) : List Char :=
  let d := Decimal.shortest layout.tie m
  if layout.scientific d then d.scientific
  else if m.isWhole && layout.pointed m then Nat.toDigits 10 m.whole ++ ".0".toList
  else d.positional

/-- Values are shown with all their places. A half goes up, and whole numbers below `10 ^ 16` end in
`.0`. -/
def shown : NumberLayout where
  tie := .up
  scientific _ := false
  pointed m := m.steps < Nat.pow 10 16 * stepsInOne

/-- Side-car text has an exponent where the first digit stands below the fifth place after the point
or above the sixteenth before it, and `.0` on every whole number without one. A half goes to the
even neighbour. -/
def sidecar : NumberLayout where
  tie := .even
  scientific d := d.magnitudeExponent < -5 || 15 < d.magnitudeExponent
  pointed _ := true

end NumberLayout

namespace Number

def signText (negative : Bool) : List Char := if negative then ['-'] else []

def shownText : Number → List Char
  | nan => "NaN".toList
  | infinite negative => signText negative ++ "inf".toList
  | finite negative m => signText negative ++ NumberLayout.shown.magnitudeText m

/-- The text of a number in a side-car. Only finite numbers have one; the others are written as
`null`, which is no number and does not read back. -/
def sidecarText : Number → List Char
  | finite negative m => signText negative ++ NumberLayout.sidecar.magnitudeText m
  | _ => "null".toList

end Number

end SidecarIndex

import SidecarIndex.Number.Decimal
import SidecarIndex.Text.Basic

/-! # Reading numbers

A number literal is an optional sign and either a decimal or one of the words `inf`, `infinity` and
`nan`, in any case. A decimal is digits with at most one point, at least one digit among them, and
an optional exponent after `e` or `E`. -/

namespace SidecarIndex

namespace Decimal

def exponentOfText? (s : List Char) : Option Int :=
  let digits := match s with
    | '+' :: t => t
    | '-' :: t => t
    | t => t
  if digits.isEmpty || !digits.all Char.isDigit then none
  else some (if s.head? = some '-' then -(valueOfDigits digits : Int) else valueOfDigits digits)

def ofText? (s : List Char) : Option Decimal :=
  let whole := s.takeWhile Char.isDigit
  let afterWhole := s.dropWhile Char.isDigit
  let (fraction, rest) := match afterWhole with
    | '.' :: t => (t.takeWhile Char.isDigit, t.dropWhile Char.isDigit)
    | t => ([], t)
  if whole.isEmpty && fraction.isEmpty then none
  else match rest with
    | [] => some (ofDigits whole fraction 0)
    | c :: t =>
      if c = 'e' ∨ c = 'E' then (exponentOfText? t).map (ofDigits whole fraction) else none

end Decimal

namespace Number

def ofUnsignedText? (negative : Bool) (s : List Char) : Option Number :=
  match Decimal.ofText? s with
  | some d => some (d.toNumber negative)
  | none =>
    if Text.sameFolded s "inf".toList || Text.sameFolded s "infinity".toList then
      some (infinite negative)
    else if Text.sameFolded s "nan".toList then some nan
    else none

def ofText? (s : List Char) : Option Number :=
  match s with
  | '-' :: t => ofUnsignedText? true t
  | '+' :: t => ofUnsignedText? false t
  | t => ofUnsignedText? false t

end Number

end SidecarIndex

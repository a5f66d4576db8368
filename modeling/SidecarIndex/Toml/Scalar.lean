import SidecarIndex.Toml.Basic
import SidecarIndex.Text.Scan
import SidecarIndex.Number.Reader
import SidecarIndex.Timestamp.Calendar

/-! # Numbers, dates and truth values in TOML

A value that is no string, array or table is one run of letters, digits and a few signs. Only a date
and a time of day may have a space between them. -/

namespace SidecarIndex.Toml

/-! ### Numbers -/

/-- Whether the text is digits, with single underscores between them. -/
def isGrouped (s : List Char) : Bool :=
  (s.splitOn '_').all fun group => !group.isEmpty && group.all Char.isDigit

def ungrouped (s : List Char) : List Char := s.filter (· ≠ '_')

def isWhole (s : List Char) : Bool := isGrouped s && (s.length == 1 || s.head? != some '0')

/-- The text after a sign that may stand in front, and whether the sign is a minus. -/
def splitSign : List Char → Bool × List Char
  | '-' :: rest => (true, rest)
  | '+' :: rest => (false, rest)
  | s => (false, s)

def groupedIn? (base : Nat) (s : List Char) : Option Nat :=
  if (s.splitOn '_').any List.isEmpty then none else Scan.valueIn? base (ungrouped s)

def wholeNumber? : List Char → Option Int
  | '0' :: 'x' :: s => (groupedIn? 16 s).map Int.ofNat
  | '0' :: 'o' :: s => (groupedIn? 8 s).map Int.ofNat
  | '0' :: 'b' :: s => (groupedIn? 2 s).map Int.ofNat
  | s =>
    let (negative, digits) := splitSign s
    if isWhole digits then
      let n : Int := Decimal.valueOfDigits (ungrouped digits)
      some (if negative then -n else n)
    else none

def integer? (s : List Char) : Option Int :=
  (wholeNumber? s).filter fun
    | .ofNat n => n < Nat.pow 2 128
    | .negSucc n => n < Nat.pow 2 127

def isFractional (s : List Char) : Bool :=
  let (mantissa, exponent) := s.span fun c => c ≠ 'e' ∧ c ≠ 'E'
  let (whole, fraction) := mantissa.span (· ≠ '.')
  isWhole whole && !(fraction.isEmpty && exponent.isEmpty)
    && (fraction.isEmpty || isGrouped fraction.tail)
    && (exponent.isEmpty || isGrouped (splitSign exponent.tail).2)

/-- Reads a number with a fraction or an exponent, `inf` or `nan`. A number too large to be finite
is none. -/
def float? (s : List Char) : Option Number :=
  let unsigned := (splitSign s).2
  if unsigned = "inf".toList ∨ unsigned = "nan".toList then Number.ofText? s
  else if isFractional unsigned then (Number.ofText? (ungrouped s)).filter Number.isFinite
  else none

/-! ### Dates and times -/

def date? (s : List Char) : Option (List Char) := do
  let (year, rest) ← Scan.digits? 4 4 s
  let (month, rest) ← Scan.digits? 2 2 (← Scan.accept? '-' rest)
  let (day, rest) ← Scan.digits? 2 2 (← Scan.accept? '-' rest)
  let _ ← Date.of? year month day
  return rest

def pair? (most : Nat) (s : List Char) : Option (List Char) := do
  let (n, rest) ← Scan.digits? 2 2 s
  if n ≤ most then some rest else none

/-- Takes what may be missing. -/
def optional (take : List Char → Option (List Char)) (s : List Char) : List Char := (take s).getD s

def secondFraction? (s : List Char) : Option (List Char) := do
  return (← Scan.billionths? (← Scan.accept? '.' s)).2

def seconds? (s : List Char) : Option (List Char) := do
  return optional secondFraction? (← pair? 60 (← Scan.accept? ':' s))

def time? (s : List Char) : Option (List Char) := do
  let rest ← pair? 23 s
  let rest ← pair? 59 (← Scan.accept? ':' rest)
  return optional seconds? rest

def offset? : List Char → Option (List Char)
  | c :: s =>
    if c = 'Z' ∨ c = 'z' then some s
    else if c = '+' ∨ c = '-' then do pair? 59 (← Scan.accept? ':' (← pair? 23 s))
    else none
  | [] => none

def isDate (s : List Char) : Bool := date? s == some []

def isMoment (s : List Char) : Bool :=
  match date? s with
  | some [] => true
  | some (c :: rest) =>
    (c == 'T' || c == 't' || c == ' ') && (time? rest).any fun rest => optional offset? rest == []
  | none => time? s == some []

/-! ### Scalars -/

def isScalarChar (c : Char) : Bool :=
  c.isAlphanum || c == '+' || c == '-' || c == '.' || c == ':' || c == '_'

def scalarRun (s : List Char) : List Char × List Char :=
  let (run, rest) := s.span isScalarChar
  match rest with
  | ' ' :: c :: rest' =>
    if isDate run && c.isDigit then
      let (time, rest) := (c :: rest').span isScalarChar
      (run ++ ' ' :: time, rest)
    else (run, rest)
  | _ => (run, rest)

def ofRun? (run : List Char) : Option Toml :=
  if run = "true".toList then some (boolean true)
  else if run = "false".toList then some (boolean false)
  else ((integer? run).map integer).or
    (((float? run).map float).or
      (if isMoment run then some (moment (String.ofList run)) else none))

def scalar? (s : List Char) : Option (Toml × List Char) := do
  let (run, rest) := scalarRun s
  return (← ofRun? run, rest)

end SidecarIndex.Toml

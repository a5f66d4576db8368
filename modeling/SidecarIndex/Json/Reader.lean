import SidecarIndex.Json.Basic
import SidecarIndex.Text.Scan

/-! # Reading JSON

A text is read from the left, and each reader returns what it has read together with the text that
is left. The first fault met is the one reported. Values nest up to a depth given from outside. -/

namespace SidecarIndex.Json

def isSpace (c : Char) : Bool := c == ' ' || c == '\t' || c == '\n' || c == '\r'

def skipSpace (s : List Char) : List Char := s.dropWhile isSpace

/-! ### Words -/

def word : List Char → List Char → Except Fault (List Char)
  | [], s => .ok s
  | _ :: _, [] => .error .endInValue
  | c :: cs, d :: s => if c = d then word cs s else .error .wordExpected

/-! ### Strings -/

def hexUnit? (a b c d : Char) : Option Nat := do
  return ((← Scan.hexDigit? a) * 4096 + (← Scan.hexDigit? b) * 256
    + (← Scan.hexDigit? c) * 16 + (← Scan.hexDigit? d))

/-- Whether a unit is the first half of a pair that stands for one character. -/
def isLeadingUnit (n : Nat) : Bool := 0xD800 ≤ n && n ≤ 0xDBFF

/-- Whether a unit is the second half of a pair. -/
def isTrailingUnit (n : Nat) : Bool := 0xDC00 ≤ n && n ≤ 0xDFFF

def ofUnits (leading trailing : Nat) : Char :=
  Char.ofNat (0x10000 + (leading - 0xD800) * 1024 + (trailing - 0xDC00))

def escaped? : Char → Option Char
  | '"' => some '"'
  | '\\' => some '\\'
  | '/' => some '/'
  | 'b' => some '\x08'
  | 'f' => some '\x0c'
  | 'n' => some '\n'
  | 'r' => some '\r'
  | 't' => some '\t'
  | _ => none

/-- What is wrong with a code that is not four characters long: they take four bytes all the same
and are no digits, or the text ends within the code. -/
def codeFault (s : List Char) : Fault :=
  if (String.ofList s).utf8ByteSize < 4 then .endInString else .badEscape

def push (c : Char) (rest : Except Fault (List Char × List Char)) :
    Except Fault (List Char × List Char) :=
  rest.map fun r => (c :: r.1, r.2)

/-- Reads a string after its opening quote up to and with its closing quote. -/
def characters : List Char → Except Fault (List Char × List Char)
  | [] => .error .endInString
  | '"' :: rest => .ok ([], rest)
  | '\\' :: 'u' :: a :: b :: c :: d :: rest =>
    match hexUnit? a b c d with
    | none => .error .badEscape
    | some unit =>
      if isTrailingUnit unit then .error .loneSurrogate
      else if isLeadingUnit unit then
        match rest with
        | '\\' :: 'u' :: e :: f :: g :: h :: rest' =>
          match hexUnit? e f g h with
          | none => .error .badEscape
          | some second =>
            if isTrailingUnit second then push (ofUnits unit second) (characters rest')
            else .error .loneSurrogate
        | '\\' :: 'u' :: code => .error (codeFault code)
        | '\\' :: [] => .error .endInString
        | [] => .error .endInString
        | _ => .error .halfSurrogatePair
      else push (Char.ofNat unit) (characters rest)
  | '\\' :: 'u' :: code => .error (codeFault code)
  | '\\' :: c :: rest =>
    match escaped? c with
    | some e => push e (characters rest)
    | none => .error .badEscape
  | '\\' :: [] => .error .endInString
  | c :: rest => if c.toNat < 0x20 then .error .controlCharacter else push c (characters rest)

def string? (s : List Char) : Except Fault (String × List Char) :=
  (characters s).map fun r => (String.ofList r.1, r.2)

/-! ### Numbers -/

/-- What a number lacks where it stops: the text is at its end, or goes on with something else. -/
def numberFault (s : List Char) : Fault := if s.isEmpty then .endInValue else .badNumber

def digits (s : List Char) : Except Fault (List Char × List Char) :=
  let run := s.takeWhile Char.isDigit
  if run.isEmpty then .error (numberFault s) else .ok (run, s.dropWhile Char.isDigit)

/-- Takes the digits before the point: a zero stands alone. -/
def wholeDigits (s : List Char) : Except Fault (List Char × List Char) := do
  let (run, rest) ← digits s
  if run.head? = some '0' ∧ 1 < run.length then .error .badNumber else .ok (run, rest)

def fractionDigits (s : List Char) : Except Fault (List Char × List Char) :=
  match s with
  | '.' :: rest => digits rest
  | _ => .ok ([], s)

def exponentPart (s : List Char) : Except Fault (Option Int × List Char) :=
  match s with
  | c :: rest =>
    if c = 'e' ∨ c = 'E' then do
      let (negative, rest) := match rest with
        | '-' :: t => (true, t)
        | '+' :: t => (false, t)
        | t => (false, t)
      let (run, rest) ← digits rest
      let n : Int := Decimal.valueOfDigits run
      .ok (some (if negative then -n else n), rest)
    else .ok (none, s)
  | [] => .ok (none, s)

/-- The whole value of an integer that 64 bits hold; a negative zero is none. -/
def wholeValue? (negative : Bool) (n : Nat) : Option Int :=
  if negative then
    if n ≠ 0 ∧ n ≤ Nat.pow 2 63 then some (-(n : Int)) else none
  else if n < Nat.pow 2 64 then some n else none

def unsignedNumber (negative : Bool) (s : List Char) : Except Fault (Json × List Char) := do
  let (whole, rest) ← wholeDigits s
  let (fraction, rest) ← fractionDigits rest
  let (exponent, rest) ← exponentPart rest
  let value := (Decimal.ofDigits whole fraction (exponent.getD 0)).toNumber negative
  if value.isFinite then
    let whole? := if fraction.isEmpty && exponent.isNone then
      wholeValue? negative (Decimal.valueOfDigits whole) else none
    .ok (.number value whole?, rest)
  else .error .numberTooLarge

/-! ### Lists and objects -/

/-- Reads further items, each after a comma, up to the closing bracket. Every item takes at least
its comma, so the length of the text is fuel enough. -/
def furtherElements (item : List Char → Except Fault (α × List Char)) :
    Nat → List Char → Except Fault (List α × List Char)
  | 0, _ => .error .endInList
  | fuel + 1, s =>
    match skipSpace s with
    | [] => .error .endInList
    | ']' :: rest => .ok ([], rest)
    | ',' :: rest =>
      match skipSpace rest with
      | [] => .error .endInValue
      | ']' :: _ => .error .trailingComma
      | next => do
        let (a, rest) ← item next
        let (as, rest) ← furtherElements item fuel rest
        .ok (a :: as, rest)
    | _ => .error .listCommaOrEndExpected

def elements (item : List Char → Except Fault (α × List Char)) (s : List Char) :
    Except Fault (List α × List Char) :=
  match skipSpace s with
  | [] => .error .endInList
  | ']' :: rest => .ok ([], rest)
  | next => do
    let (a, rest) ← item next
    let (as, rest) ← furtherElements item rest.length rest
    .ok (a :: as, rest)

def colon (s : List Char) : Except Fault (List Char) :=
  match skipSpace s with
  | [] => .error .endInObject
  | ':' :: rest => .ok rest
  | _ => .error .colonExpected

/-- Reads a member of an object, after the quote that opens its name. Faults of the text are passed
on through `lift`, so that what is read as a value may have faults of its own. -/
def member (lift : Fault → ε) (value : String → List Char → Except ε (α × List Char))
    (s : List Char) : Except ε (α × List Char) := do
  let (name, rest) ← (string? s).mapError lift
  let rest ← (colon rest).mapError lift
  value name rest

def furtherMembers (lift : Fault → ε) (value : String → List Char → Except ε (α × List Char)) :
    Nat → List Char → Except ε (List α × List Char)
  | 0, _ => .error (lift .endInObject)
  | fuel + 1, s =>
    match skipSpace s with
    | [] => .error (lift .endInObject)
    | '}' :: rest => .ok ([], rest)
    | ',' :: rest =>
      match skipSpace rest with
      | [] => .error (lift .endInValue)
      | '}' :: _ => .error (lift .trailingComma)
      | '"' :: next => do
        let (a, rest) ← member lift value next
        let (as, rest) ← furtherMembers lift value fuel rest
        .ok (a :: as, rest)
      | _ => .error (lift .nameExpected)
    | _ => .error (lift .objectCommaOrEndExpected)

def members (lift : Fault → ε) (value : String → List Char → Except ε (α × List Char))
    (s : List Char) : Except ε (List α × List Char) :=
  match skipSpace s with
  | [] => .error (lift .endInObject)
  | '}' :: rest => .ok ([], rest)
  | '"' :: next => do
    let (a, rest) ← member lift value next
    let (as, rest) ← furtherMembers lift value rest.length rest
    .ok (a :: as, rest)
  | _ => .error (lift .nameExpected)

/-! ### Values -/

def scalar (s : List Char) : Except Fault (Json × List Char) :=
  match s with
  | [] => .error .endInValue
  | 'n' :: rest => (word "ull".toList rest).map fun r => (null, r)
  | 't' :: rest => (word "rue".toList rest).map fun r => (boolean true, r)
  | 'f' :: rest => (word "alse".toList rest).map fun r => (boolean false, r)
  | '"' :: rest => (string? rest).map fun r => (string r.1, r.2)
  | '-' :: rest => unsignedNumber true rest
  | c :: _ => if c.isDigit then unsignedNumber false s else .error .valueExpected

/-- Reads a value in which lists and objects nest at most `depth` deep. -/
def value : Nat → List Char → Except Fault (Json × List Char)
  | 0, s =>
    match skipSpace s with
    | '[' :: _ => .error .tooDeep
    | '{' :: _ => .error .tooDeep
    | next => scalar next
  | depth + 1, s =>
    match skipSpace s with
    | '[' :: rest => (elements (value depth) rest).map fun r => (array r.1, r.2)
    | '{' :: rest =>
      (members id (fun name s => (value depth s).map fun r => ((name, r.1), r.2)) rest).map
        fun r => (object r.1, r.2)
    | next => scalar next

end SidecarIndex.Json

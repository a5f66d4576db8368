import SidecarIndex.Document.Basic
import SidecarIndex.Error
import SidecarIndex.Json.Reader

/-! # Reading side-cars

The text of a side-car is one JSON object that maps attribute names to lists of numbers, strings and
booleans. A text of another shape is refused at the first place where it differs. The pairs of a
text of that shape are then checked one by one, and all their problems are reported together. -/

namespace SidecarIndex

/-! ### Shape -/

inductive RawScalar where
  | number (n : Number)
  | string (s : String)
  | boolean (b : Bool)
  deriving DecidableEq

namespace RawScalar

def ofJson (name : String) : Json → Except ShapeFault RawScalar
  | .number value _ => .ok (number value)
  | .string s => .ok (string s)
  | .boolean b => .ok (boolean b)
  | other => .error (.noScalar name other.kind)

end RawScalar

abbrev RawPair := String × List RawScalar

namespace RawPair

def ofJson (name : String) : Json → Except ShapeFault RawPair
  | .array items => (items.mapM (RawScalar.ofJson name)).map fun scalars => (name, scalars)
  | other => .error (.noList name other.kind)

def nesting : Nat := 126

def read (name : String) (s : List Char) : Except ShapeFault (RawPair × List Char) := do
  let (json, rest) ← (Json.value nesting s).mapError .json
  let pair ← ofJson name json
  .ok (pair, rest)

/-- The fault of a text that does not start with an object: a list is refused at its bracket, a
scalar once it has been read. -/
def noObjectFault (s : List Char) : ShapeFault :=
  match s with
  | '[' :: _ => .noObject (Json.array []).describe
  | s =>
    match Json.scalar s with
    | .ok (json, _) => .noObject json.describe
    | .error fault => .json fault

def ofText (s : List Char) : Except ShapeFault (List RawPair) :=
  match Json.skipSpace s with
  | '{' :: rest => do
    let (pairs, rest) ← Json.members .json read rest
    if (Json.skipSpace rest).isEmpty then .ok pairs else .error (.json .trailingText)
  | s => .error (noObjectFault s)

end RawPair

/-! ### Content -/

namespace RawScalar

/-- The value of a string: a timestamp where it starts with `#`, else the text. It has to be a value
literal. -/
def valueOfString (s : String) : Except ValueFault Value :=
  if isLiteral s.toList then
    match s.toList with
    | '#' :: payload =>
      match Timestamp.ofText? payload with
      | some t => .ok (.timestamp t)
      | none => .error (.date (String.ofList payload))
    | _ => .ok (.text s)
  else .error (.text s)

def toValue : RawScalar → Except ValueFault Value
  | number n => .ok (.number n)
  | boolean b => .ok (.boolean b)
  | string s => valueOfString s

def value? (s : RawScalar) : Option Value := s.toValue.toOption

def problem? (s : RawScalar) : Option Problem :=
  match s.toValue with
  | .ok _ => none
  | .error fault => some (.valueFormat fault)

end RawScalar

namespace RawPair

def values (pair : RawPair) : List Value := pair.2.filterMap RawScalar.value?

/-- The problems of a pair, given the names before it: its name, its values in order, and their
variants. -/
def problems (seen : List String) (pair : RawPair) : List Problem :=
  let name := pair.1
  (if isName name.toList then [] else [.attributeFormat name])
    ++ (if name ∈ seen then [.duplicateAttribute name] else [])
    ++ pair.2.filterMap RawScalar.problem?
    ++ match commonVariant pair.values with
      | .ok _ => []
      | .error (first, other) => [.typeHomogeneity name first other]

def allProblems (seen : List String) : List RawPair → List Problem
  | [] => []
  | pair :: rest => pair.problems seen ++ allProblems (pair.1 :: seen) rest

end RawPair

namespace Document

def ofPairs (pairs : List RawPair) : Except DocumentError Document :=
  match DocumentError.ofProblems? (RawPair.allProblems [] pairs) with
  | some error => .error error
  | none => .ok (ofList (pairs.map fun pair => (pair.1, pair.values)))

def ofText (text : String) : Except DocumentError Document := do
  let pairs ← (RawPair.ofText text.toList).mapError .structural
  ofPairs pairs

end Document

end SidecarIndex

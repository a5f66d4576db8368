import SidecarIndex.Toml.Basic
import SidecarIndex.Toml.Text
import SidecarIndex.Toml.Scalar

/-! # Reading TOML

A text is read into statements, a line or several lines each, and these are carried out in order. A
text with a fault anywhere gives nothing. -/

namespace SidecarIndex.Toml

/-! ### Values -/

/-- Reads items up to the closing character. Commas stand between them, and one may follow the last.
Every item takes a character, so the length of the text is fuel enough. -/
def items? (close : Char) (item : List Char → Option (α × List Char)) :
    Nat → List Char → Option (List α × List Char)
  | 0, _ => none
  | fuel + 1, s =>
    match skipSpace s with
    | [] => none
    | c :: rest =>
      if c = close then some ([], rest)
      else do
        let (a, rest) ← item (c :: rest)
        match skipSpace rest with
        | [] => none
        | d :: rest =>
          if d = ',' then do
            let (as, rest) ← items? close item fuel rest
            return (a :: as, rest)
          else if d = close then some ([a], rest)
          else none

/-- Reads a key and the value it is given. Around the sign between them stands what `skip` takes
away: blanks in a line, line ends and comments as well between braces. -/
def assignment? (skip : List Char → List Char) (value : List Char → Option (Toml × List Char))
    (s : List Char) : Option ((List String × Toml) × List Char) := do
  let (path, rest) ← key? s
  let (v, rest) ← value (skip (← Scan.accept? '=' (skip rest)))
  return ((path, v), rest)

def braced? (assignments : List (List String × Toml)) : Option Toml := do
  let entries ← assignments.foldlM (fun entries a => Entries.putAt? a.1 a.2 entries) []
  return table .braced entries

def plain? (s : List Char) : Option (Toml × List Char) :=
  match s with
  | '"' :: _ => (string? s).map fun r => (string r.1, r.2)
  | '\'' :: _ => (string? s).map fun r => (string r.1, r.2)
  | _ => scalar? s

def value? : Nat → List Char → Option (Toml × List Char)
  | 0, s =>
    match s with
    | '[' :: _ => none
    | '{' :: _ => none
    | _ => plain? s
  | depth + 1, s =>
    match s with
    | '[' :: rest => (items? ']' (value? depth) (rest.length + 1) rest).map fun r =>
        (array r.1, r.2)
    | '{' :: rest => do
      let (assignments, rest) ← items? '}' (assignment? skipSpace (value? depth))
          (rest.length + 1) rest
      return (← braced? assignments, rest)
    | _ => plain? s

def depthLimit : Nat := 80

/-! ### Texts -/

def statement? : List Char → Option (Statement × List Char)
  | '[' :: '[' :: rest => do
    let (path, rest) ← key? rest
    let rest ← Scan.accept? ']' (← Scan.accept? ']' rest)
    return (.listHeader path, rest)
  | '[' :: rest => do
    let (path, rest) ← key? rest
    return (.header path, ← Scan.accept? ']' rest)
  | s => do
    let ((path, v), rest) ← assignment? skipBlanks (value? depthLimit) s
    return (.entry path v, rest)

def statements? : Nat → List Char → Option (List Statement)
  | 0, _ => none
  | fuel + 1, s =>
    match skipSpace s with
    | [] => some []
    | next => do
      let (statement, rest) ← statement? next
      return statement :: (← statements? fuel (← endLine? rest))

def ofText? (s : String) : Option Entries := do
  let s := Scan.skip '\ufeff' s.toList
  build? [] [] (← statements? (s.length + 1) s)

end SidecarIndex.Toml

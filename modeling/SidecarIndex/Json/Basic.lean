import SidecarIndex.Number.Notation
import SidecarIndex.Text.Printable

/-! # JSON values and their text

The values of JSON with the names of an object in the order of the text, repeated names included,
what can be wrong with a text of them, and how they are written: strings with as few escapes as
possible, lists and objects with one item on a line. -/

namespace SidecarIndex

/-- A JSON value. A number written without point and exponent that fits 64 bits keeps its whole
value as well. -/
inductive Json where
  | null
  | boolean (b : Bool)
  | number (value : Number) (whole? : Option Int)
  | string (s : String)
  | array (items : List Json)
  | object (members : List (String × Json))

namespace Json

inductive Fault where
  | endInList
  | endInObject
  | endInString
  | endInValue
  | colonExpected
  | listCommaOrEndExpected
  | objectCommaOrEndExpected
  | wordExpected
  | valueExpected
  | badEscape
  | badNumber
  | numberTooLarge
  | controlCharacter
  | nameExpected
  | loneSurrogate
  | trailingComma
  | trailingText
  | halfSurrogatePair
  | tooDeep
  deriving DecidableEq

def Fault.message : Fault → String
  | endInList => "EOF while parsing a list"
  | endInObject => "EOF while parsing an object"
  | endInString => "EOF while parsing a string"
  | endInValue => "EOF while parsing a value"
  | colonExpected => "expected `:`"
  | listCommaOrEndExpected => "expected `,` or `]`"
  | objectCommaOrEndExpected => "expected `,` or `\x7d`"
  | wordExpected => "expected ident"
  | valueExpected => "expected value"
  | badEscape => "invalid escape"
  | badNumber => "invalid number"
  | numberTooLarge => "number out of range"
  | controlCharacter =>
    "control character (\\u0000-\\u001F) found while parsing a string"
  | nameExpected => "key must be a string"
  | loneSurrogate => "lone leading surrogate in hex escape"
  | trailingComma => "trailing comma"
  | trailingText => "trailing characters"
  | halfSurrogatePair => "unexpected end of hex escape"
  | tooDeep => "recursion limit exceeded"

/-! ### Kinds -/

def kind : Json → String
  | null => "null"
  | boolean _ => "a boolean"
  | number _ _ => "a number"
  | string _ => "a string"
  | array _ => "an array"
  | object _ => "an object"

/-- A value as a message names it: what it is and, for a scalar, which one. -/
def describe : Json → String
  | null => "null"
  | boolean b => s!"boolean `{b}`"
  | number _ (some whole) => s!"integer `{whole}`"
  | number value none => s!"floating point `{String.ofList value.sidecarText}`"
  | string s => "string " ++ String.ofList (Text.quoted s.toList)
  | array _ => "sequence"
  | object _ => "map"

/-! ### Writing -/

def writtenChar (c : Char) : List Char :=
  match c with
  | '"' => ['\\', '"']
  | '\\' => ['\\', '\\']
  | '\x08' => ['\\', 'b']
  | '\x0c' => ['\\', 'f']
  | '\n' => ['\\', 'n']
  | '\r' => ['\\', 'r']
  | '\t' => ['\\', 't']
  | c =>
    if c.toNat < 0x20 then
      ['\\', 'u', '0', '0', Nat.digitChar (c.toNat / 16), Nat.digitChar (c.toNat % 16)]
    else [c]

def writtenString (s : List Char) : List Char := '"' :: (s.flatMap writtenChar ++ ['"'])

/-- Items between brackets, each on a line of its own, two spaces further in than the brackets;
nothing stands between the brackets where there is no item. -/
def block (opening closing : Char) (indent : Nat) (items : List (List Char)) : List Char :=
  let lineStart (width : Nat) := '\n' :: List.replicate width ' '
  match items with
  | [] => [opening, closing]
  | items =>
    opening :: ([','].intercalate (items.map fun item => lineStart (indent + 2) ++ item)
      ++ lineStart indent ++ [closing])

end Json

end SidecarIndex

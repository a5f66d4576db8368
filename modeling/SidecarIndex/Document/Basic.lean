import SidecarIndex.Json.Basic
import SidecarIndex.OrderedMap
import SidecarIndex.Value.Basic

/-! # Documents

A document holds the metadata of one file or folder: a list of values under each attribute name. As
the text of a side-car it is an object of lists. -/

namespace SidecarIndex

structure Document where
  attributes : NameMap (List Value)
  deriving DecidableEq

namespace Document

def empty : Document := ⟨OrderedMap.empty⟩

instance : Inhabited Document := ⟨empty⟩

def get? (d : Document) (name : String) : Option (List Value) := d.attributes.get? name

def contains (d : Document) (name : String) : Bool := d.attributes.contains name

/-- Puts values under an attribute, in place of those there. Nothing is checked. -/
def set (d : Document) (name : String) (values : List Value) : Document :=
  ⟨d.attributes.insert name values⟩

def entries (d : Document) : List (String × List Value) := d.attributes.entries

def names (d : Document) : List String := d.attributes.keys

/-- The document of a list of attributes; of two with one name the later stays. -/
def ofList (pairs : List (String × List Value)) : Document := ⟨OrderedMap.ofList pairs⟩

def sameEntries : List (String × List Value) → List (String × List Value) → Bool
  | [], [] => true
  | a :: as, b :: bs => a.1 == b.1 && Value.sameList a.2 b.2 && sameEntries as bs
  | _, _ => false

def same (d e : Document) : Bool := sameEntries d.entries e.entries

theorem get?_set (d : Document) (name other : String) (values : List Value) :
    (d.set name values).get? other =
      if other = name then some values else d.get? other :=
  OrderedMap.get?_insert d.attributes name other values

end Document

/-! ### Side-cars -/

/-- A value as it stands in the text of a side-car: timestamps are strings that start with `#`. -/
def Value.sidecarText : Value → List Char
  | .number n => n.sidecarText
  | .text s => Json.writtenString s.toList
  | .boolean b => (Value.booleanText b).toList
  | .timestamp t => Json.writtenString ('#' :: t.text)

namespace Document

def entryText (entry : String × List Value) : List Char :=
  Json.writtenString entry.1.toList ++ ':' :: ' ' ::
    Json.block '[' ']' 2 (entry.2.map Value.sidecarText)

/-- The text of a document as a side-car: its attributes in the order of their names, one value on a
line. -/
def text (d : Document) : String :=
  String.ofList (Json.block '{' '}' 0 (d.entries.map entryText))

end Document

end SidecarIndex

import SidecarIndex.Error
import SidecarIndex.Text.Basic

/-! # Editing values as text

A list of values is edited as text: the shown values between brackets, with commas between them.
When edited text is read the brackets may be missing, but only both of them, and blanks and empty
items do not count. -/

namespace SidecarIndex.Editing

def format (values : List Value) : String :=
  "[" ++ ", ".intercalate (values.map Value.shown) ++ "]"

/-- The text inside the outer brackets, or the whole text where there are none; nothing when there
is only one of them. -/
def unbracketed? (s : List Char) : Option (List Char) :=
  match s with
  | '[' :: rest => if rest.getLast? = some ']' then some rest.dropLast else none
  | s => if s.getLast? = some ']' then none else some s

/-- The items between the commas, without blanks around them and without empty ones. -/
def splitItems (s : List Char) : List (List Char) :=
  ((s.splitOn ',').map Text.trim).filter fun item => !item.isEmpty

def items (text : String) : Except ValueFault (List (List Char)) :=
  match unbracketed? (Text.trim text.toList) with
  | some inner => .ok (splitItems inner)
  | none => .error (.brackets text)

def readItem? (item : List Char) : Variant → Option Value
  | .number => ((Number.ofText? item).filter Number.isFinite).map .number
  | .boolean => (Value.readBoolean? item).map .boolean
  | .timestamp =>
    if isLiteral item then (Timestamp.ofText? (dropMark item)).map .timestamp else none
  | .text => if isPlainLiteral item then some (.text (String.ofList item)) else none

def readItem (variant : Variant) (item : List Char) : Except ValueFault Value :=
  match readItem? item variant with
  | some value => .ok value
  | none => .error (.item (String.ofList item) variant)

/-- Reads an edited text in a variant. The first item without a reading fails the whole text. -/
def read (text : String) (variant : Variant) : Except ValueFault (List Value) := do
  (← items text).mapM (readItem variant)

/-- The variant of items on which all of them agree: booleans, numbers, timestamps with their mark,
else texts. -/
def variantOfItems (items : List (List Char)) : Variant :=
  let all (variant : Variant) := items.all fun item => (readItem? item variant).isSome
  if all .boolean then .boolean
  else if all .number then .number
  else if items.all (fun item => item.head? == some '#') && all .timestamp then .timestamp
  else .text

/-- Guesses the variant of an edited text; a text without items has none. -/
def inferVariant (text : String) : Except ValueFault (Option Variant) :=
  (items text).map fun found => if found.isEmpty then none else some (variantOfItems found)

end SidecarIndex.Editing

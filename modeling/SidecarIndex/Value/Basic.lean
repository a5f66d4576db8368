import SidecarIndex.Number.Notation
import SidecarIndex.Number.Reader
import SidecarIndex.Timestamp.Reader
import SidecarIndex.Timestamp.Printer
import SidecarIndex.Lexical

/-! # Values

A value is a number, a text, a boolean or a timestamp. Values of one variant are ordered: numbers by
size, texts by code point, `false` before `true`, timestamps by instant. Values of different
variants do not compare. -/

namespace SidecarIndex

inductive Variant where
  | number
  | text
  | boolean
  | timestamp
  deriving DecidableEq

def Variant.name : Variant → String
  | number => "number"
  | text => "text"
  | boolean => "boolean"
  | timestamp => "timestamp"

inductive Value where
  | number (n : Number)
  | text (s : String)
  | boolean (b : Bool)
  | timestamp (t : Timestamp)
  deriving DecidableEq

namespace Value

def variant : Value → Variant
  | number _ => .number
  | text _ => .text
  | boolean _ => .boolean
  | timestamp _ => .timestamp

/-! ### Order -/

/-- The order of two values. Values of different variants, and what is not a number, have none. -/
def compare? : Value → Value → Option Ordering
  | number a, number b => a.compare? b
  | text a, text b => some (compare a b)
  | boolean a, boolean b => some (compare a b)
  | timestamp a, timestamp b => some (a.compare b)
  | _, _ => none

/-- Whether two values are equal: as numbers, as texts, as booleans, or as instants. -/
def same : Value → Value → Bool
  | number a, number b => a.same b
  | text a, text b => a == b
  | boolean a, boolean b => a == b
  | timestamp a, timestamp b => a.same b
  | _, _ => false

def sameList : List Value → List Value → Bool
  | [], [] => true
  | a :: as, b :: bs => a.same b && sameList as bs
  | _, _ => false

/-! ### Text -/

def booleanText (b : Bool) : String := if b then "true" else "false"

def shown : Value → String
  | number n => String.ofList n.shownText
  | text s => s
  | boolean b => booleanText b
  | timestamp t => String.ofList ('#' :: t.text)

def readBoolean? (s : List Char) : Option Bool :=
  if Text.sameFolded s "true".toList then some true
  else if Text.sameFolded s "false".toList then some false
  else none

/-- The reading of a query literal in a variant; the mark of a timestamp may be missing. -/
def ofLiteral? (literal : String) : Variant → Option Value
  | .timestamp => (Timestamp.ofText? (dropMark literal.toList)).map timestamp
  | .boolean => (readBoolean? literal.toList).map boolean
  | .number => (Number.ofText? literal.toList).map number
  | .text => some (text literal)

theorem variant_of_ofLiteral? {literal : String} {variant : Variant} {value : Value}
    (h : ofLiteral? literal variant = some value) : value.variant = variant := by
  cases variant <;> simp only [ofLiteral?, Option.map_eq_some_iff, Option.some.injEq] at h
  · obtain ⟨_, _, rfl⟩ := h; rfl
  · cases h; rfl
  · obtain ⟨_, _, rfl⟩ := h; rfl
  · obtain ⟨_, _, rfl⟩ := h; rfl

/-! ### Storing -/

/-- Whether a side-car can hold a value: a text must be a plain literal and a number finite. -/
def isStorable : Value → Bool
  | text s => isPlainLiteral s.toList
  | number n => n.isFinite
  | _ => true

end Value

/-! ### Lists of values -/

/-- The variant that all values share, none for no values; otherwise the first variant and the first
that differs from it. -/
def commonVariant (values : List Value) : Except (Variant × Variant) (Option Variant) :=
  match values with
  | [] => .ok none
  | first :: rest =>
    match (rest.map Value.variant).find? fun v => v ≠ first.variant with
    | some other => .error (first.variant, other)
    | none => .ok (some first.variant)

def AllOf (variant : Variant) (values : List Value) : Prop := ∀ v ∈ values, v.variant = variant

theorem commonVariant_cons_ok {first : Value} {rest : List Value}
    (h : AllOf first.variant rest) :
    commonVariant (first :: rest) = .ok (some first.variant) := by
  have hnone : ((rest.map Value.variant).find? fun v => v ≠ first.variant) = none := by
    simp only [List.find?_eq_none, List.mem_map]
    rintro _ ⟨v, hv, rfl⟩
    simp [h v hv]
  simp only [commonVariant, hnone]

theorem allOf_of_commonVariant {values : List Value} {variant : Variant}
    (h : commonVariant values = .ok (some variant)) : AllOf variant values := by
  cases values with
  | nil => simp [commonVariant] at h
  | cons first rest =>
    simp only [commonVariant] at h
    split at h
    · cases h
    · rename_i hnone
      cases h
      intro v hv
      rcases List.mem_cons.1 hv with rfl | hv
      · rfl
      · have := List.find?_eq_none.1 hnone v.variant (List.mem_map_of_mem hv)
        simpa using this

end SidecarIndex

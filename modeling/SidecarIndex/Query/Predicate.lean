import SidecarIndex.Value.Basic

/-! # Predicates

A query is a list of predicates that all have to hold. A comparison puts the values of an attribute
against a literal; an occurrence asks whether a literal is among the text values of any
attribute. -/

namespace SidecarIndex

inductive Operator where
  | eq
  | ne
  | lt
  | gt
  | le
  | ge
  deriving DecidableEq

namespace Operator

def text : Operator → List Char
  | eq => ['=']
  | ne => ['!', '=']
  | lt => ['<']
  | gt => ['>']
  | le => ['<', '=']
  | ge => ['>', '=']

/-- Takes the operator a text starts with; of two the longer. -/
def split? : List Char → Option (Operator × List Char)
  | '!' :: '=' :: s => some (ne, s)
  | '>' :: '=' :: s => some (ge, s)
  | '<' :: '=' :: s => some (le, s)
  | '=' :: s => some (eq, s)
  | '<' :: s => some (lt, s)
  | '>' :: s => some (gt, s)
  | _ => none

theorem text_append_of_split? {s rest : List Char} {op : Operator}
    (h : split? s = some (op, rest)) : s = op.text ++ rest := by
  unfold split? at h
  split at h <;> cases h <;> rfl

def holds (op : Operator) (value literal : Value) : Bool :=
  match op with
  | eq => value.same literal
  | ne => !value.same literal
  | lt => value.compare? literal == some .lt
  | gt => value.compare? literal == some .gt
  | le => value.compare? literal == some .lt || value.compare? literal == some .eq
  | ge => value.compare? literal == some .gt || value.compare? literal == some .eq

def all : List Operator := [eq, ne, lt, gt, le, ge]

end Operator

inductive Predicate where
  | comparison (name : String) (op : Operator) (literal : String)
  | occurrence (negated : Bool) (literal : String)
  deriving DecidableEq

namespace Predicate

def text : Predicate → List Char
  | comparison name op literal => name.toList ++ op.text ++ literal.toList
  | occurrence negated literal => (if negated then ['!'] else []) ++ literal.toList

end Predicate

end SidecarIndex

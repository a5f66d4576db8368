import SidecarIndex.Query.Predicate
import SidecarIndex.Document.Basic

/-! # Selecting documents

A comparison holds of a document when some value of the attribute is in the relation to the literal,
which is read in the variant of the first value. -/

namespace SidecarIndex

namespace Predicate

def operands? (d : Document) (name literal : String) : Option (List Value × Value) := do
  let values ← d.get? name
  let first ← values.head?
  let reading ← Value.ofLiteral? literal first.variant
  return (values, reading)

def occursIn (literal : String) (d : Document) : Bool :=
  d.entries.any fun entry => entry.2.any fun value => value == .text literal

/-- Whether a document meets the condition. Without the attribute, without a value and without a
reading of the literal no comparison holds. -/
def accepts (p : Predicate) (d : Document) : Bool :=
  match p with
  | comparison name op literal =>
    match operands? d name literal with
    | some (values, reading) => values.any fun value => op.holds value reading
    | none => false
  | occurrence negated literal => occursIn literal d != negated

end Predicate

namespace Query

def accepts (predicates : List Predicate) (d : Document) : Bool :=
  predicates.all fun p => p.accepts d

theorem accepts_append (ps qs : List Predicate) (d : Document) :
    accepts (ps ++ qs) d = (accepts ps d && accepts qs d) := by
  simp [accepts]

end Query

end SidecarIndex

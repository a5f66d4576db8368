import SidecarIndex.Query.Predicate
import SidecarIndex.Error

/-! # Reading queries

The predicates of a query stand with one space between two of them. A predicate is a name, an
operator and a literal, or a literal alone with `!` in front where it must not occur. -/

namespace SidecarIndex

namespace Predicate

def splitName (s : List Char) : List Char × List Char :=
  match s with
  | [] => ([], [])
  | c :: _ => if isNameStart c then (s.takeWhile isNameChar, s.dropWhile isNameChar) else ([], s)

def occurrence? (s : List Char) : Option Predicate :=
  match s with
  | '!' :: literal =>
      if isLiteral literal then some (occurrence true (String.ofList literal)) else none
  | literal => if isLiteral literal then some (occurrence false (String.ofList literal)) else none

/-- Reads a predicate. Where a name and an operator stand in front it is a comparison or nothing. -/
def ofToken? (s : List Char) : Option Predicate :=
  let (name, rest) := splitName s
  if name.isEmpty then occurrence? s
  else match Operator.split? rest with
    | some (op, literal) =>
      if isLiteral literal then
        some (comparison (String.ofList name) op (String.ofList literal))
      else none
    | none => occurrence? s

def ofToken (s : List Char) : Except QueryFault Predicate :=
  match ofToken? s with
  | some p => .ok p
  | none => .error (.token (String.ofList s))

end Predicate

namespace Query

/-- The predicates of a query, in order. The first token that is none is reported; the empty query
has no predicates. -/
def ofText (query : String) : Except QueryFault (List Predicate) :=
  if query = "" then .ok []
  else (query.toList.splitOn ' ').mapM fun token =>
    if token.isEmpty then .error (.space query) else Predicate.ofToken token

def text (predicates : List Predicate) : List Char :=
  [' '].intercalate (predicates.map Predicate.text)

end Query

end SidecarIndex

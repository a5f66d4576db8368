import SidecarIndex.Number.Decimal

/-! # Shortest decimals

The decimal that writes a magnitude is one that reads back to it, with as few digits as possible
and, among those, the nearest. On the grid of decimals that end at a given place only the two
neighbours of the value can be that, so the grids are tried from one digit to seventeen. -/

namespace SidecarIndex

/-- Which of two equally near decimals is written: the larger, or the one with an even last
digit. -/
inductive TieRule where
  | up
  | even
  deriving DecidableEq

namespace Decimal

/-- The value of a magnitude in units of `10 ^ place`, as a quotient. -/
def unitsAt (m : Magnitude) (place : Int) : Nat × Nat :=
  match place with
  | .ofNat e => (m.steps, stepsInOne * Nat.pow 10 e)
  | .negSucc e => (m.steps * Nat.pow 10 (e + 1), stepsInOne)

def Denotes (d : Decimal) (m : Magnitude) : Prop := d.magnitude? = some m

instance (d : Decimal) (m : Magnitude) : Decidable (d.Denotes m) :=
  inferInstanceAs (Decidable (_ = _))

/-- The two neighbours of `m` among the decimals that end at `place`, the one to be preferred
first. -/
def neighbours (tie : TieRule) (m : Magnitude) (place : Int) : List Decimal :=
  let (num, den) := unitsAt m place
  let floor := num / den
  let twice := 2 * (num % den)
  let below := trimmed ⟨floor, place⟩
  let above := trimmed ⟨floor + 1, place⟩
  if twice < den ∨ (twice = den ∧ tie = .even ∧ floor % 2 = 0) then [below, above]
  else [above, below]

/-- The nearer neighbour of `m` at `place` that reads back to it. -/
def neighbour? (tie : TieRule) (m : Magnitude) (place : Int) : Option Decimal :=
  (neighbours tie m place).find? fun d => d.Denotes m

theorem neighbour?_denotes {tie : TieRule} {m : Magnitude} {place : Int} {d : Decimal}
    (h : neighbour? tie m place = some d) : d.Denotes m := by
  simpa using List.find?_some h

def digitCount (n : Nat) : Nat := (Nat.toDigits 10 n).length

/-- The place of the first digit of a magnitude: the greatest power of ten that it reaches. Below
one that is the least `k` with `1 / m ≤ 10 ^ k`, counted downwards. -/
def leadingPlace (m : Magnitude) : Int :=
  if stepsInOne ≤ m.steps then (digitCount m.whole : Int) - 1
  else -(digitCount ((stepsInOne - 1) / m.steps) : Int)

/-- The shortest decimal that reads back to `m`. Seventeen digits always do; the exact decimal
stands after them so that nothing hangs on it. -/
def shortest (tie : TieRule) (m : Magnitude) : Decimal :=
  ((List.range 17).findSome? fun i : Nat => neighbour? tie m (leadingPlace m - i)).getD (exact m)

end Decimal

end SidecarIndex

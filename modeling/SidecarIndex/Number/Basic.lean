/-! # Numbers of double precision

A finite number of double precision is a whole number of steps of `2 ^ -1074`, the least positive
one. Of the counts of steps, those can be held that have at most 53 significant bits and lie below
`2 ^ 2098`. A number is then a sign and such a count, an infinity, or the result that is not a
number; zero has two signs. -/

namespace SidecarIndex

def stepsInOne : Nat := Nat.pow 2 1074

/-- All counts of steps that can be held lie below this one. -/
def stepLimit : Nat := Nat.pow 2 2098

theorem stepLimit_pos : 0 < stepLimit := by
  unfold stepLimit
  generalize 2098 = n
  exact Nat.two_pow_pos n

/-- The distance, in steps, between neighbouring numbers around `steps`. -/
def spacing (steps : Nat) : Nat := Nat.pow 2 (steps.log2 - 52)

/-- Whether a count of steps has at most 53 significant bits and is not too large. -/
def Representable (steps : Nat) : Prop := steps % spacing steps = 0 ∧ steps < stepLimit

instance (steps : Nat) : Decidable (Representable steps) :=
  inferInstanceAs (Decidable (_ ∧ _))

structure Magnitude where
  steps : Nat
  representable : Representable steps
  deriving DecidableEq

namespace Magnitude

def zero : Magnitude := ⟨0, Nat.zero_mod _, stepLimit_pos⟩

def ofSteps? (steps : Nat) : Option Magnitude :=
  if h : Representable steps then some ⟨steps, h⟩ else none

theorem ofSteps?_steps (m : Magnitude) : ofSteps? m.steps = some m := by
  simp [ofSteps?, m.representable]

def whole (m : Magnitude) : Nat := m.steps / stepsInOne

def isWhole (m : Magnitude) : Bool := m.steps % stepsInOne == 0

end Magnitude

inductive Number where
  | nan
  | infinite (negative : Bool)
  | finite (negative : Bool) (magnitude : Magnitude)
  deriving DecidableEq

namespace Number

def isFinite : Number → Bool
  | finite _ _ => true
  | _ => false

def zero : Number := finite false Magnitude.zero

/-! ### Order -/

/-- The place of a number on a line of whole numbers: its steps with their sign, the infinities
outside of all of them. What is not a number has no place. -/
def place? : Number → Option Int
  | nan => none
  | infinite false => some stepLimit
  | infinite true => some (-stepLimit)
  | finite false m => some m.steps
  | finite true m => some (-m.steps)

/-- The order of two numbers. Both zeros are equal, and what is not a number compares with
nothing. -/
def compare? (a b : Number) : Option Ordering :=
  match a.place?, b.place? with
  | some x, some y => some (compare x y)
  | _, _ => none

/-- Whether two numbers are equal as numbers; what is not a number does not even equal itself. -/
def same (a b : Number) : Bool := a.compare? b == some .eq

end Number

end SidecarIndex

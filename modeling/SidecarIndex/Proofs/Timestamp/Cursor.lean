import SidecarIndex.Proofs.Outcome
import SidecarIndex.Proofs.Timestamp.Scan

/-! # Reading bytes in words

A cursor reads a text byte by byte and counts in words of 32 bits. A sum or a product that its word
cannot hold, a difference below zero and a cut behind the end are faults here, not values. Digits
are taken as they are from characters and their value is that of the run taken, since no run that is
counted has more than nine of them; a fraction takes all its digits and counts the first nine. -/

namespace SidecarIndex

/-- What words of a fixed width and cuts of a text can run into. -/
inductive RangeFault where
  | overflow
  | underflow
  | slice
  deriving DecidableEq

/-! ### Words -/

namespace Word

def add (a b : UInt32) : Except RangeFault UInt32 :=
  if a.toNat + b.toNat < 2 ^ 32 then .ok (a + b) else .error .overflow

def mul (a b : UInt32) : Except RangeFault UInt32 :=
  if a.toNat * b.toNat < 2 ^ 32 then .ok (a * b) else .error .overflow

/-- The signed word with the value of an unsigned one. -/
def signed (a : UInt32) : Except RangeFault Int32 :=
  if a.toNat < 2 ^ 31 then .ok a.toInt32 else .error .overflow

def signedMul (a b : Int32) : Except RangeFault Int32 :=
  if -0x80000000 ≤ a.toInt * b.toInt ∧ a.toInt * b.toInt < 0x80000000 then .ok (a * b)
    else .error .overflow

/-- How far a byte is behind the byte of the digit zero. -/
def digit (b : UInt8) : Except RangeFault UInt32 :=
  if 48 ≤ b then .ok (b - 48).toUInt32 else .error .underflow

theorem exists_add {a b : UInt32} (h : a.toNat + b.toNat < 2 ^ 32) :
    ∃ c, add a b = .ok c ∧ c.toNat = a.toNat + b.toNat := by
  refine ⟨a + b, if_pos h, ?_⟩
  rw [UInt32.toNat_add, Nat.mod_eq_of_lt h]

theorem exists_mul {a b : UInt32} (h : a.toNat * b.toNat < 2 ^ 32) :
    ∃ c, mul a b = .ok c ∧ c.toNat = a.toNat * b.toNat := by
  refine ⟨a * b, if_pos h, ?_⟩
  rw [UInt32.toNat_mul, Nat.mod_eq_of_lt h]

theorem exists_signed {a : UInt32} (h : a.toNat < 2 ^ 31) :
    ∃ c, signed a = .ok c ∧ c.toInt = a.toNat := by
  refine ⟨a.toInt32, if_pos h, ?_⟩
  have htwice : 2 * a.toBitVec.toNat < 2 ^ 32 := by
    rw [UInt32.toNat_toBitVec]
    omega
  exact BitVec.toInt_eq_toNat_of_lt htwice

theorem exists_signedMul {a b : Int32} (hlower : -0x80000000 ≤ a.toInt * b.toInt)
    (hupper : a.toInt * b.toInt < 0x80000000) :
    ∃ c, signedMul a b = .ok c ∧ c.toInt = a.toInt * b.toInt := by
  refine ⟨a * b, if_pos ⟨hlower, hupper⟩, ?_⟩
  rw [Int32.toInt_mul]
  exact Int.bmod_eq_of_le (by omega) (by omega)

/-- One more digit behind a number. -/
def appendDigit (value : UInt32) (b : UInt8) : Except RangeFault UInt32 := do
  add (← mul value 10) (← digit b)

end Word

/-! ### Bytes -/

/-- The characters that single bytes stand for. -/
def charsOf (bytes : List UInt8) : List Char := bytes.map Char.ofUInt8

@[simp] theorem charsOf_nil : charsOf [] = [] := rfl

@[simp] theorem charsOf_cons (b : UInt8) (bytes : List UInt8) :
    charsOf (b :: bytes) = Char.ofUInt8 b :: charsOf bytes := rfl

@[simp] theorem charsOf_append (front back : List UInt8) :
    charsOf (front ++ back) = charsOf front ++ charsOf back := List.map_append

@[simp] theorem length_charsOf (bytes : List UInt8) : (charsOf bytes).length = bytes.length :=
  List.length_map _

theorem isEmpty_charsOf (bytes : List UInt8) : (charsOf bytes).isEmpty = bytes.isEmpty :=
  List.isEmpty_map

theorem charsOf_drop (n : Nat) (bytes : List UInt8) :
    charsOf (bytes.drop n) = (charsOf bytes).drop n := List.map_drop

def isDigitByte (b : UInt8) : Bool := 48 ≤ b && b ≤ 57

theorem takeWhile_charsOf (bytes : List UInt8) :
    (charsOf bytes).takeWhile Char.isDigit = charsOf (bytes.takeWhile isDigitByte) :=
  List.takeWhile_map

theorem Word.exists_digit {b : UInt8} (h : isDigitByte b = true) :
    ∃ d, digit b = .ok d ∧ d.toNat = (Char.ofUInt8 b).toNat - '0'.toNat ∧ d.toNat < 10 := by
  simp only [isDigitByte, Bool.and_eq_true, decide_eq_true_eq] at h
  have hdifference : (b - 48).toNat = b.toNat - 48 := UInt8.toNat_sub_of_le _ _ h.1
  have hupper : b.toNat ≤ 57 := UInt8.le_iff_toNat_le.1 h.2
  have hchar : (Char.ofUInt8 b).toNat = b.toNat := UInt8.toNat_toUInt32 b
  have hzero : '0'.toNat = 48 := rfl
  refine ⟨(b - 48).toUInt32, if_pos h.1, ?_, ?_⟩
  · rw [UInt8.toNat_toUInt32, hdifference, hchar, hzero]
  · rw [UInt8.toNat_toUInt32, hdifference]
    omega

/-- At most nine digits are counted without a fault: the number that they are put behind and they
themselves have at most nine places. -/
theorem Word.exists_foldlM_appendDigit {run : List UInt8} (hrun : AllDigits (charsOf run))
    {init : UInt32} (hbound : (init.toNat + 1) * 10 ^ run.length ≤ 10 ^ 9) :
    ∃ n, run.foldlM appendDigit init = .ok n ∧
      n.toNat = Nat.ofDigitChars 10 (charsOf run) init.toNat := by
  induction run generalizing init with
  | nil => exact ⟨init, rfl, rfl⟩
  | cons b rest ih =>
    obtain ⟨hb, hrest⟩ := List.forall_mem_cons.1 hrun
    rw [List.length_cons, Nat.pow_succ, ← Nat.mul_assoc, Nat.mul_right_comm] at hbound
    have hplaces : 0 < 10 ^ rest.length := Nat.pow_pos (by decide)
    have htimes : (init.toNat + 1) * 10 ≤ 10 ^ 9 :=
      Nat.le_trans (Nat.le_mul_of_pos_right _ hplaces) hbound
    have hten : (10 : UInt32).toNat = 10 := rfl
    obtain ⟨d, hd, hdigit, hten'⟩ := exists_digit hb
    obtain ⟨scaled, hmul, hscaled⟩ : ∃ c, mul init 10 = .ok c ∧ c.toNat = init.toNat * 10 :=
      exists_mul (by rw [hten]; omega)
    obtain ⟨next, hadd, hnext⟩ : ∃ c, add scaled d = .ok c ∧ c.toNat = scaled.toNat + d.toNat :=
      exists_add (by omega)
    have happend : appendDigit init b = .ok next := by
      rw [appendDigit, hmul, hd]
      exact hadd
    have hvalue : next.toNat = 10 * init.toNat + ((Char.ofUInt8 b).toNat - '0'.toNat) := by
      rw [hnext, hscaled, hdigit, Nat.mul_comm]
    have hsmall : (next.toNat + 1) * 10 ^ rest.length ≤ 10 ^ 9 := by
      refine Nat.le_trans (Nat.mul_le_mul_right _ ?_) hbound
      omega
    obtain ⟨n, hn, hrestValue⟩ := ih hrest hsmall
    refine ⟨n, ?_, ?_⟩
    · rw [List.foldlM_cons, happend]
      exact hn
    · rw [hrestValue, hvalue, charsOf_cons, Nat.ofDigitChars_cons]

/-! ### The cursor -/

/-- A reader that moves along the bytes that are left. -/
abbrev Cursor := StateT (List UInt8) (Except RangeFault)

namespace Cursor

def splitAt (bytes : List UInt8) (n : Nat) : Except RangeFault (List UInt8 × List UInt8) :=
  if n ≤ bytes.length then .ok (bytes.take n, bytes.drop n) else .error .slice

/-- Takes a byte if it is the next one, and tells whether it was. -/
def eat (byte : UInt8) : Cursor Bool := do
  match ← get with
  | first :: rest =>
    if first = byte then
      set rest
      return true
    else return false
  | [] => return false

def isEmpty : Cursor Bool := do
  return (← get).isEmpty

def digits (least most : Nat) : Cursor (Option UInt32) := do
  let bytes ← get
  let length := ((bytes.take most).takeWhile isDigitByte).length
  if length < least then return none
  let (taken, rest) ← splitAt bytes length
  set rest
  let value ← (taken.foldlM Word.appendDigit 0 : Except RangeFault UInt32)
  return some value

/-- The digit at a place of a run; zero behind its end. -/
def digitAt (run : List UInt8) (place : Nat) : Except RangeFault UInt32 :=
  match run[place]? with
  | some b => Word.digit b
  | none => .ok 0

def fraction : Cursor (Option UInt32) := do
  let bytes ← get
  let length := (bytes.takeWhile isDigitByte).length
  if length = 0 then return none
  let (taken, rest) ← splitAt bytes length
  set rest
  let nanoseconds ← ((List.range 9).foldlM (fun nanoseconds place => do
    Word.add (← Word.mul nanoseconds 10) (← digitAt taken place)) 0 : Except RangeFault UInt32)
  return some nanoseconds

/-- Goes back to where it was when nothing has been read. -/
def attempt (read : Cursor (Option α)) : Cursor (Option α) := do
  let saved ← get
  let found ← read
  if found.isNone then set saved
  return found

/-! ### Steps of a cursor -/

variable {α β : Type} {least most : Nat} {bytes : List UInt8}

theorem ok_bind {ε : Type} (a : α) (f : α → Except ε β) : (Except.ok a >>= f) = f a := rfl

theorem run_lift_ok (a : α) (bytes : List UInt8) :
    (liftM (Except.ok a : Except RangeFault α) : Cursor α).run bytes = .ok (a, bytes) := rfl

theorem splitAt_of_prefix {run : List UInt8} (h : run <+: bytes) :
    splitAt bytes run.length = .ok (run, bytes.drop run.length) := by
  rw [splitAt, if_pos h.length_le, ← List.prefix_iff_eq_take.1 h]

/-- An attempt is the reading itself, except that it leaves everything when nothing has been
read. -/
theorem run_attempt (read : Cursor (Option α)) (bytes : List UInt8) : (attempt read).run bytes =
    (read.run bytes).map fun (found, moved) => (found, if found.isNone then bytes else moved) := by
  simp only [attempt, StateT.run_bind, StateT.run_get, pure_bind]
  cases read.run bytes with
  | error fault => rfl
  | ok result =>
    obtain ⟨found, moved⟩ := result
    cases found with
    | none => rfl
    | some a => rfl

theorem run_attempt_none {read : Cursor (Option α)} {moved : List UInt8}
    (h : read.run bytes = .ok (none, moved)) : (attempt read).run bytes = .ok (none, bytes) := by
  rw [run_attempt, h]
  rfl

theorem run_attempt_some {read : Cursor (Option α)} {a : α} {rest : List UInt8}
    (h : read.run bytes = .ok (some a, rest)) : (attempt read).run bytes = .ok (some a, rest) := by
  rw [run_attempt, h]
  rfl

theorem run_eat_cons (b : UInt8) (rest : List UInt8) :
    (eat b).run (b :: rest) = .ok (true, rest) := by
  simp only [eat, StateT.run_bind, StateT.run_get, pure_bind, if_pos]
  rfl

theorem run_eat_of_head {b : UInt8} (h : bytes.head? ≠ some b) :
    (eat b).run bytes = .ok (false, bytes) := by
  cases bytes with
  | nil => rfl
  | cons first rest =>
    have hne : first ≠ b := by simpa using h
    simp only [eat, StateT.run_bind, StateT.run_get, pure_bind, if_neg hne]
    rfl

/-! ### Digits -/

/-- The longest run of digits in front of some bytes that is not longer than it may be. -/
structure LongestRun (most : Nat) (run rest : List UInt8) : Prop where
  allDigits : AllDigits (charsOf run)
  length_le : run.length ≤ most
  longest : run.length = most ∨ NoDigitAhead (charsOf rest)

theorem noDigitAhead_drop (bytes : List UInt8) :
    NoDigitAhead (charsOf (bytes.drop (bytes.takeWhile isDigitByte).length)) := by
  have hdrop := drop_digits (charsOf bytes)
  rw [takeWhile_charsOf, length_charsOf, ← charsOf_drop] at hdrop
  rw [hdrop]
  exact noDigitAhead_dropWhile _

theorem allDigits_takeWhile (bytes : List UInt8) :
    AllDigits (charsOf (bytes.takeWhile isDigitByte)) := by
  rw [← takeWhile_charsOf]
  exact fun c hc => List.mem_takeWhile_imp hc

theorem longestRun_takeWhile (most : Nat) (bytes : List UInt8) :
    LongestRun most ((bytes.take most).takeWhile isDigitByte)
      (bytes.drop ((bytes.take most).takeWhile isDigitByte).length) where
  allDigits := allDigits_takeWhile _
  length_le := (List.takeWhile_prefix _).length_le.trans (List.length_take_le most bytes)
  longest := by
    rcases Scan.takeWhile_take isDigitByte most bytes with hlength | hwhole
    · exact .inl hlength
    · rw [hwhole]
      exact .inr (noDigitAhead_drop bytes)

/-- Digits are taken as the longest run in front, and nothing is taken when it is too short. -/
theorem exists_run_digits (least : Nat) (hmost : most ≤ 9) (bytes : List UInt8) :
    ∃ run rest, bytes = run ++ rest ∧ LongestRun most run rest ∧
      (run.length < least → (digits least most).run bytes = .ok (none, bytes)) ∧
      (least ≤ run.length → ∃ n, (digits least most).run bytes = .ok (some n, rest) ∧
        n.toNat = Decimal.valueOfDigits (charsOf run)) := by
  have hprefix : (bytes.take most).takeWhile isDigitByte <+: bytes :=
    (List.takeWhile_prefix _).trans (List.take_prefix most bytes)
  have hlongest := longestRun_takeWhile most bytes
  have hbytes := List.prefix_iff_eq_append.1 hprefix
  refine ⟨_, _, hbytes.symm, hlongest, fun hshort => ?_, fun hleast => ?_⟩
  · simp only [digits, StateT.run_bind, StateT.run_get, pure_bind, if_pos hshort]
    rfl
  · have hbound : ((0 : UInt32).toNat + 1) * 10 ^ ((bytes.take most).takeWhile isDigitByte).length
        ≤ 10 ^ 9 := by
      rw [UInt32.toNat_zero, Nat.zero_add, Nat.one_mul]
      exact Nat.pow_le_pow_right (by decide) (hlongest.length_le.trans hmost)
    obtain ⟨n, hn, hvalue⟩ := Word.exists_foldlM_appendDigit hlongest.allDigits hbound
    refine ⟨n, ?_, hvalue⟩
    simp only [digits, StateT.run_bind, StateT.run_get, pure_bind, if_neg (Nat.not_lt.2 hleast),
      splitAt_of_prefix hprefix, run_lift_ok, ok_bind, StateT.run_set, hn]
    rfl

-- Nine digits are the most that always fit.
example : (digits 1 10).run (List.replicate 10 57) = .error .overflow := by rfl

/-! ### Fractions -/

theorem digitAt_eq (run : List UInt8) (place : Nat) :
    digitAt run place = Word.digit (run[place]?.getD 48) := by
  unfold digitAt
  split
  · rename_i b hb
    rw [hb, Option.getD_some]
  · rename_i hnone
    rw [hnone, Option.getD_none]
    rfl

/-- The first nine digits of a run, with zeros for those that are missing. -/
def nineDigits (run : List UInt8) : List UInt8 := (run ++ List.replicate 9 48).take 9

theorem map_range_nine (run : List UInt8) :
    ((List.range 9).map fun place => run[place]?.getD 48) = nineDigits run := by
  refine List.ext_getElem? fun place => ?_
  rw [nineDigits, List.getElem?_map, List.getElem?_take]
  by_cases hplace : place < 9
  · rw [if_pos hplace, List.getElem?_range hplace, Option.map_some, List.getElem?_append]
    by_cases hrun : place < run.length
    · rw [if_pos hrun, List.getElem?_eq_getElem hrun, Option.getD_some]
    · rw [if_neg hrun, List.getElem?_eq_none (Nat.not_lt.1 hrun), Option.getD_none,
        List.getElem?_replicate, if_pos (by omega)]
  · rw [if_neg hplace, List.getElem?_eq_none (by simpa using hplace), Option.map_none]

theorem foldlM_nineDigits (run : List UInt8) :
    ((List.range 9).foldlM (fun nanoseconds place => do
      Word.add (← Word.mul nanoseconds 10) (← digitAt run place)) 0 : Except RangeFault UInt32)
      = (nineDigits run).foldlM Word.appendDigit 0 := by
  rw [← map_range_nine, List.foldlM_map]
  simp only [digitAt_eq, Word.appendDigit]

theorem charsOf_nineDigits (run : List UInt8) :
    charsOf (nineDigits run) = (charsOf run ++ List.replicate 9 '0').take 9 := by
  rw [nineDigits, charsOf, List.map_take, List.map_append, List.map_replicate]
  rfl

/-- All digits in front are taken as a fraction. Their value in billionths, rounded down, is less
than one whole. -/
theorem exists_run_fraction (bytes : List UInt8) : ∃ run rest, bytes = run ++ rest ∧
    AllDigits (charsOf run) ∧ NoDigitAhead (charsOf rest) ∧
    (run = [] → fraction.run bytes = .ok (none, bytes)) ∧
    (run ≠ [] → ∃ n, fraction.run bytes = .ok (some n, rest) ∧
      n.toNat = Decimal.valueOfDigits (charsOf run) * 10 ^ 9 / 10 ^ run.length ∧
      n.toNat < 10 ^ 9) := by
  have hprefix : bytes.takeWhile isDigitByte <+: bytes := List.takeWhile_prefix _
  have hrun := allDigits_takeWhile bytes
  refine ⟨_, _, (List.prefix_iff_eq_append.1 hprefix).symm, hrun, noDigitAhead_drop bytes,
    fun hempty => ?_, fun hne => ?_⟩
  · simp only [fraction, StateT.run_bind, StateT.run_get, pure_bind, hempty, List.length_nil,
      if_true]
    rfl
  · have hlength : (bytes.takeWhile isDigitByte).length ≠ 0 :=
      fun hzero => hne (List.eq_nil_of_length_eq_zero hzero)
    have hnine : AllDigits (charsOf (nineDigits (bytes.takeWhile isDigitByte))) := by
      rw [charsOf_nineDigits]
      exact fun c hc => allDigits_append hrun (allDigits_zeros 9) c (List.mem_of_mem_take hc)
    have hplaces : (nineDigits (bytes.takeWhile isDigitByte)).length = 9 := by
      rw [nineDigits, List.length_take, List.length_append, List.length_replicate]
      omega
    have hbound : ((0 : UInt32).toNat + 1) * 10 ^ (nineDigits (bytes.takeWhile isDigitByte)).length
        ≤ 10 ^ 9 := by
      rw [hplaces]
      decide
    obtain ⟨n, hn, hvalue⟩ := Word.exists_foldlM_appendDigit hnine hbound
    have hlt := Decimal.valueOfDigits_lt hnine
    rw [length_charsOf, hplaces] at hlt
    have hfloor := Decimal.valueOfDigits_take_padded hrun 9
    rw [← charsOf_nineDigits, length_charsOf] at hfloor
    refine ⟨n, ?_, hvalue.trans hfloor, hvalue ▸ hlt⟩
    simp only [fraction, StateT.run_bind, StateT.run_get, pure_bind, if_neg hlength,
      splitAt_of_prefix hprefix, run_lift_ok, ok_bind, StateT.run_set, foldlM_nineDigits, hn]
    rfl

end Cursor

end SidecarIndex

import Mathlib.Algebra.Group.Nat.Defs
import SidecarIndex.Number.Notation

/-! # Digits

The digits of a whole number, the value they have again when they are read, and where a reader of
digits stops. -/

namespace SidecarIndex

def NoDigitAhead (s : List Char) : Prop := ∀ c ∈ s.head?, c.isDigit = false

theorem noDigitAhead_nil : NoDigitAhead [] := fun _ hc => nomatch hc

theorem noDigitAhead_cons {c : Char} {s : List Char} (h : c.isDigit = false) :
    NoDigitAhead (c :: s) := by
  intro d hd
  cases hd
  exact h

def AllDigits (s : List Char) : Prop := ∀ c ∈ s, c.isDigit = true

instance : DecidablePred AllDigits :=
  fun s => decidable_of_iff (s.all Char.isDigit = true) List.all_eq_true

theorem allDigits_nil : AllDigits [] := fun _ hc => nomatch hc

theorem allDigits_append {s t : List Char} (hs : AllDigits s) (ht : AllDigits t) :
    AllDigits (s ++ t) := by
  intro c hc
  rcases List.mem_append.1 hc with hc | hc
  · exact hs c hc
  · exact ht c hc

theorem allDigits_zeros (n : Nat) : AllDigits (List.replicate n '0') := by
  intro c hc
  rw [List.eq_of_mem_replicate hc]
  decide

theorem allDigits_toDigits (n : Nat) : AllDigits (Nat.toDigits 10 n) :=
  fun _ hc => Nat.isDigit_of_mem_toDigits (by decide) (by decide) hc

theorem takeWhile_digits {run rest : List Char} (hrun : AllDigits run) (hrest : NoDigitAhead rest) :
    (run ++ rest).takeWhile Char.isDigit = run := by
  rw [List.takeWhile_append_of_pos hrun]
  cases rest with
  | nil => simp
  | cons c rest =>
    have hc : c.isDigit = false := hrest c rfl
    simp [hc]

theorem dropWhile_digits {run rest : List Char} (hrun : AllDigits run) (hrest : NoDigitAhead rest) :
    (run ++ rest).dropWhile Char.isDigit = rest := by
  rw [List.dropWhile_append_of_pos hrun]
  cases rest with
  | nil => rfl
  | cons c rest =>
    have hc : c.isDigit = false := hrest c rfl
    simp [hc]

theorem head_toDigits_ne_zero {n : Nat} (h : n ≠ 0) : (Nat.toDigits 10 n).head? ≠ some '0' := by
  induction n using Nat.strongRecOn with
  | ind n ih =>
    by_cases hn : n < 10
    · rw [Nat.toDigits_of_lt_base hn]
      have hdigit : ∀ k < 10, k ≠ 0 → Nat.digitChar k ≠ '0' := by decide
      intro heq
      exact hdigit n hn h (Option.some.inj heq)
    · have hquotient : n / 10 ≠ 0 := by omega
      have hfront := ih (n / 10) (by omega) hquotient
      rw [Nat.toDigits_of_base_le (by decide) (by omega)]
      cases hdigits : Nat.toDigits 10 (n / 10) with
      | nil => exact absurd hdigits Nat.toDigits_ne_nil
      | cons c rest =>
        rw [hdigits] at hfront
        exact hfront

namespace Decimal

theorem valueOfDigits_toDigits (n : Nat) : valueOfDigits (Nat.toDigits 10 n) = n :=
  Nat.ofDigitChars_ten_toDigits

theorem valueOfDigits_append (s t : List Char) :
    valueOfDigits (s ++ t) = 10 ^ t.length * valueOfDigits s + valueOfDigits t := by
  rw [valueOfDigits, Nat.ofDigitChars_append, Nat.ofDigitChars_eq_ofDigitChars_zero, valueOfDigits,
    valueOfDigits]

theorem valueOfDigits_zeros_append (n : Nat) (s : List Char) :
    valueOfDigits (List.replicate n '0' ++ s) = valueOfDigits s := by
  rw [valueOfDigits, Nat.ofDigitChars_append, Nat.ofDigitChars_replicate_zero, Nat.mul_zero,
    valueOfDigits]

theorem valueOfDigits_append_zeros (s : List Char) (n : Nat) :
    valueOfDigits (s ++ List.replicate n '0') = valueOfDigits s * 10 ^ n := by
  rw [valueOfDigits, Nat.ofDigitChars_append, Nat.ofDigitChars_replicate_zero, Nat.mul_comm,
    valueOfDigits]

end Decimal

end SidecarIndex

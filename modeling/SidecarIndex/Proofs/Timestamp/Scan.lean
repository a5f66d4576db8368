import Mathlib.Data.List.TakeWhile
import SidecarIndex.Text.Scan
import SidecarIndex.Timestamp.Printer
import SidecarIndex.Proofs.Number.Digits

/-! # Taking digits and separators

The reader of digits takes the longest run in front of a text that is not too long, and gives its
value; the reader of a fraction takes all digits in front and gives the value of the first nine. A
number that is written with zeros in front is such a run. -/

namespace SidecarIndex

/-- A run of digits, so many of them at least and at most. -/
structure DigitRun (least most : Nat) where
  digits : List Char
  allDigits : AllDigits digits
  least_le : least ≤ digits.length
  le_most : digits.length ≤ most

def DigitRun.value {least most : Nat} (run : DigitRun least most) : Nat :=
  Decimal.valueOfDigits run.digits

theorem DigitRun.length_eq {width : Nat} (run : DigitRun width width) : run.digits.length = width :=
  Nat.le_antisymm run.le_most run.least_le

theorem noDigitAhead_dropWhile (s : List Char) : NoDigitAhead (s.dropWhile Char.isDigit) := by
  intro c hc
  have hhead := List.head?_dropWhile_not Char.isDigit s
  rw [Option.mem_def.1 hc] at hhead
  exact hhead

theorem drop_digits (s : List Char) :
    s.drop (s.takeWhile Char.isDigit).length = s.dropWhile Char.isDigit := by
  have happend : s.takeWhile Char.isDigit ++ s.dropWhile Char.isDigit = s :=
    List.takeWhile_append_dropWhile
  calc s.drop (s.takeWhile Char.isDigit).length
      = (s.takeWhile Char.isDigit ++ s.dropWhile Char.isDigit).drop
          (s.takeWhile Char.isDigit).length := by
        rw [happend]
    _ = s.dropWhile Char.isDigit := List.drop_left

theorem toNat_le_of_isDigit {c : Char} (h : c.isDigit = true) : c.toNat ≤ 57 := by
  simp only [Char.isDigit, Bool.and_eq_true, decide_eq_true_eq, UInt32.le_iff_toNat_le] at h
  exact h.2

theorem Decimal.valueOfDigits_lt {s : List Char} (h : AllDigits s) :
    valueOfDigits s < 10 ^ s.length := by
  suffices hall : ∀ init, Nat.ofDigitChars 10 s init < (init + 1) * 10 ^ s.length by
    simpa [valueOfDigits] using hall 0
  induction s with
  | nil =>
    intro init
    simp
  | cons c s ih =>
    intro init
    have hc : c.isDigit = true := h c (List.mem_cons_self ..)
    have hdigit : c.toNat - '0'.toNat < 10 := by
      have hle := toNat_le_of_isDigit hc
      have hzero : '0'.toNat = 48 := rfl
      omega
    have hrest :=
      ih (fun d hd => h d (List.mem_cons_of_mem _ hd)) (10 * init + (c.toNat - '0'.toNat))
    have hinit : 10 * init + (c.toNat - '0'.toNat) + 1 ≤ (init + 1) * 10 := by omega
    have hscaled := Nat.mul_le_mul_right (10 ^ s.length) hinit
    rw [Nat.ofDigitChars_cons, List.length_cons, Nat.pow_succ, Nat.mul_comm (10 ^ s.length),
      ← Nat.mul_assoc]
    omega

/-- The first places of a decimal fraction, zeros standing in for those that are missing, are its
value in units of the last of these places, rounded down. -/
theorem Decimal.valueOfDigits_take_padded {s : List Char} (h : AllDigits s) (places : Nat) :
    valueOfDigits ((s ++ List.replicate places '0').take places)
      = valueOfDigits s * 10 ^ places / 10 ^ s.length := by
  have hall : AllDigits (s ++ List.replicate places '0') :=
    allDigits_append h (allDigits_zeros places)
  have hvalue := valueOfDigits_append_zeros s places
  have hlength : ((s ++ List.replicate places '0').drop places).length = s.length := by
    rw [List.length_drop, List.length_append, List.length_replicate, Nat.add_sub_cancel]
  have hdropped : AllDigits ((s ++ List.replicate places '0').drop places) :=
    fun c hc => hall c (List.mem_of_mem_drop hc)
  have hlt := valueOfDigits_lt hdropped
  rw [← List.take_append_drop places (s ++ List.replicate places '0'), valueOfDigits_append,
    hlength]
    at hvalue
  rw [hlength] at hlt
  rw [← hvalue, Nat.mul_add_div (Nat.pow_pos (by decide)), Nat.div_eq_of_lt hlt, Nat.add_zero]

/-! ### Padding -/

theorem length_padded {width n : Nat} (hwidth : 0 < width) (h : n < 10 ^ width) :
    (padded width n).length = width := by
  have hle : (Nat.toDigits 10 n).length ≤ width :=
    (Nat.length_toDigits_le_iff (by decide) hwidth).2 h
  simp only [padded, List.length_append, List.length_replicate]
  omega

theorem allDigits_padded (width n : Nat) : AllDigits (padded width n) :=
  allDigits_append (allDigits_zeros _) (allDigits_toDigits n)

theorem valueOfDigits_padded (width n : Nat) : Decimal.valueOfDigits (padded width n) = n := by
  rw [padded, Decimal.valueOfDigits_zeros_append, Decimal.valueOfDigits_toDigits]

namespace Scan

/-! ### Digits -/

theorem takeWhile_take_append {most : Nat} {run rest : List Char} (hrun : AllDigits run)
    (hmost : run.length ≤ most) (hrest : run.length = most ∨ NoDigitAhead rest) :
    ((run ++ rest).take most).takeWhile Char.isDigit = run := by
  rcases hrest with hlength | hrest
  · rw [← hlength, List.take_left]
    exact List.takeWhile_eq_self_iff.2 hrun
  · rw [← List.take_takeWhile, takeWhile_digits hrun hrest]
    exact List.take_of_length_le hmost

/-- A run that is shorter than it may be holds all there is in front. -/
theorem takeWhile_take {α : Type} (p : α → Bool) (most : Nat) (s : List α) :
    ((s.take most).takeWhile p).length = most ∨ (s.take most).takeWhile p = s.takeWhile p := by
  rw [← List.take_takeWhile, List.length_take]
  rcases Nat.le_total most (s.takeWhile p).length with hle | hle
  · exact .inl (Nat.min_eq_left hle)
  · exact .inr (List.take_of_length_le hle)

/-- What is taken is the longest run in front that is not too long. -/
theorem digits?_eq_some_iff {least most n : Nat} {s rest : List Char} :
    digits? least most s = some (n, rest) ↔ ∃ run : DigitRun least most, s = run.digits ++ rest ∧
      n = run.value ∧ (run.digits.length = most ∨ NoDigitAhead rest) := by
  apply Iff.intro
  · intro h
    simp only [digits?] at h
    split at h
    · cases h
    · rename_i hleast
      cases h
      generalize hrun : (s.take most).takeWhile Char.isDigit = run at hleast ⊢
      have hall : AllDigits run := by
        intro c hc
        rw [← hrun] at hc
        exact List.mem_takeWhile_imp hc
      have hfront : run <+: s := by
        rw [← hrun]
        exact (List.takeWhile_prefix _).trans (List.take_prefix most s)
      have hmost : run.length ≤ most := by
        rw [← hrun]
        exact (List.takeWhile_prefix _).length_le.trans (List.length_take_le most s)
      refine ⟨⟨run, hall, by omega, hmost⟩, (List.prefix_iff_eq_append.1 hfront).symm, rfl, ?_⟩
      rcases takeWhile_take Char.isDigit most s with hlength | hwhole
      · exact .inl (hrun ▸ hlength)
      · refine .inr ?_
        rw [hrun.symm.trans hwhole, drop_digits]
        exact noDigitAhead_dropWhile s
  · rintro ⟨run, rfl, rfl, hrest⟩
    have hleast : ¬ run.digits.length < least := Nat.not_lt.2 run.least_le
    simp only [digits?, takeWhile_take_append run.allDigits run.le_most hrest, if_neg hleast,
      List.drop_left]
    rfl

theorem digits?_eq_none {least most : Nat} {run rest : List Char} (hrun : AllDigits run)
    (hrest : NoDigitAhead rest) (hshort : run.length < least) (hmost : least ≤ most) :
    digits? least most (run ++ rest) = none := by
  have htaken := takeWhile_take_append hrun (Nat.le_trans (Nat.le_of_lt hshort) hmost) (.inr hrest)
  simp only [digits?, htaken, if_pos hshort]

/-- All digits in front are taken as a fraction. -/
theorem billionths?_eq_some_iff {n : Nat} {s rest : List Char} :
    billionths? s = some (n, rest) ↔ ∃ run, AllDigits run ∧ run ≠ [] ∧ s = run ++ rest ∧
      NoDigitAhead rest ∧ n = Decimal.valueOfDigits ((run ++ List.replicate 9 '0').take 9) := by
  apply Iff.intro
  · intro h
    simp only [billionths?] at h
    split at h
    · cases h
    · rename_i hne
      cases h
      rw [drop_digits]
      refine ⟨_, fun c hc => List.mem_takeWhile_imp hc, ?_, List.takeWhile_append_dropWhile.symm,
        noDigitAhead_dropWhile s, rfl⟩
      exact fun hnil => hne (List.isEmpty_iff.2 hnil)
  · rintro ⟨run, hrun, hne, rfl, hrest, rfl⟩
    have hnot : run.isEmpty = false := List.isEmpty_eq_false_iff.2 hne
    simp only [billionths?, takeWhile_digits hrun hrest, hnot, Bool.false_eq_true, if_false,
      List.drop_left]

/-! ### What stands in front -/

theorem accept?_eq_some_iff {c : Char} {s rest : List Char} : accept? c s = some rest ↔
    s = c :: rest := by
  cases s with
  | nil => simp [accept?]
  | cons d s =>
    by_cases hd : d = c
    · simp [accept?, hd]
    · simp [accept?, hd]

theorem accept?_eq_none_iff {c : Char} {s : List Char} : accept? c s = none ↔ s.head? ≠ some c := by
  cases s with
  | nil => simp [accept?]
  | cons d s =>
    by_cases hd : d = c
    · simp [accept?, hd]
    · simp [accept?, hd]

theorem skip_of_head {c : Char} {s : List Char} (h : s.head? ≠ some c) : skip c s = s := by
  rw [skip, accept?_eq_none_iff.2 h, Option.getD_none]

theorem accept?_head (c : Char) (s : List Char) : accept? c (c :: s) = some s := if_pos rfl

theorem skip_head (c : Char) (s : List Char) : skip c (c :: s) = s := by
  rw [skip, accept?_head, Option.getD_some]

theorem attempt_of_some {α : Type} {read : List Char → Option (α × List Char)} {s rest : List Char}
    {a : α} (h : read s = some (a, rest)) : attempt read s = (some a, rest) := by
  simp only [attempt, h]

theorem attempt_of_none {α : Type} {read : List Char → Option (α × List Char)} {s : List Char}
    (h : read s = none) : attempt read s = (none, s) := by
  simp only [attempt, h]

/-- What can be read is taken, and otherwise the text is left as it was. -/
theorem attempt_cases {α : Type} {read : List Char → Option (α × List Char)} {s rest : List Char}
    {found : Option α} (h : attempt read s = (found, rest)) :
    (∃ a, found = some a ∧ read s = some (a, rest)) ∨
    (found = none ∧ rest = s ∧ read s = none) := by
  cases hread : read s with
  | none =>
    rw [attempt_of_none hread] at h
    cases h
    exact .inr ⟨rfl, rfl, rfl⟩
  | some taken =>
    obtain ⟨a, left⟩ := taken
    rw [attempt_of_some hread] at h
    cases h
    exact .inl ⟨a, rfl, rfl⟩

end Scan

end SidecarIndex

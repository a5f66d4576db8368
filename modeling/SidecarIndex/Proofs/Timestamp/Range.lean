import SidecarIndex.Proofs.Timestamp.Accepted
import SidecarIndex.Proofs.Timestamp.Cursor

/-! # Timestamps in words

The reader of timestamps on bytes, with words of 32 bits for the parts and a signed one for the
offset. It takes the same bytes as the reader on characters takes characters, and the words have the
values of the parts that are read there. No part is long enough to overflow its word, so that no
text at all meets a fault. -/

namespace SidecarIndex

/-- A time of day as it is read, whether a clock has it or not. -/
structure WordClock where
  hour : UInt32
  minute : UInt32
  second : UInt32
  nanosecond : UInt32

/-- The parts of a timestamp with the time of some words. -/
def WordClock.fill (p : TimestampParts) (c : WordClock) : TimestampParts :=
  { p with
    hour := c.hour.toNat
    minute := c.minute.toNat
    second := c.second.toNat
    nanosecond := c.nanosecond.toNat }

namespace TimestampParts

/-- The offset that some parts tell, if there is one. -/
def offset? (p : TimestampParts) : Option Offset :=
  if 60 ≤ p.offsetMinutes then none else Offset.of? p.offsetSeconds

/-- The date and the time of some parts at an offset, if calendar and clock have them. -/
def at? (p : TimestampParts) (offset : Offset) : Option Timestamp := do
  let date ← Date.of? p.year p.month p.day
  let clock ← Clock.of? p.hour p.minute p.second p.nanosecond
  return ⟨date, clock, offset⟩

theorem toTimestamp?_eq (p : TimestampParts) : p.toTimestamp? = p.offset?.bind p.at? := by
  by_cases hminutes : 60 ≤ p.offsetMinutes
  · simp only [toTimestamp?, offset?, hminutes, if_true, Option.bind_eq_bind, Option.bind_none]
  · simp only [toTimestamp?, offset?, hminutes, if_false]
    rfl

theorem offset?_date (year month day : Nat) :
    ({ year, month, day } : TimestampParts).offset? = some .utc := by
  have hseconds : ({ year, month, day } : TimestampParts).offsetSeconds = 0 := by
    simp [offsetSeconds]
  rw [offset?, if_neg (by simp), hseconds]
  exact dif_pos (by decide)

theorem at?_fill (p : TimestampParts) (o : OffsetForm) : (o.fill p).at? = p.at? := by
  cases o <;> rfl

end TimestampParts

namespace Cursor

/-! ### The parts of a timestamp -/

/-- Two digits that something follows. -/
def plainMonth : Cursor (Option UInt32) := do
  let some month ← digits 2 2 | return none
  if ← isEmpty then return none
  else return some month

def month : Cursor (Option UInt32) := do
  if ← isEmpty then return some 1
  if ← eat '-'.toUInt8 then digits 1 2
  else plainMonth

def day : Cursor (Option UInt32) := do
  if ← isEmpty then return some 1
  if ← eat '-'.toUInt8 then digits 1 2
  else digits 2 2

def minute : Cursor (Option UInt32) := do
  let _ ← eat ':'.toUInt8
  digits 2 2

def secondFraction : Cursor (Option UInt32) := do
  if ← eat '.'.toUInt8 then fraction
  else if ← eat ','.toUInt8 then fraction
  else return none

def second : Cursor (Option (UInt32 × UInt32)) := do
  let _ ← eat ':'.toUInt8
  let some second ← digits 1 2 | return none
  let nanosecond ← attempt secondFraction
  return some (second, nanosecond.getD 0)

def clock : Cursor (Option WordClock) := do
  let some hour ← digits 2 2 | return none
  let minute ← attempt minute
  let seconds ← attempt second
  let (second, nanosecond) := seconds.getD (0, 0)
  return some ⟨hour, minute.getD 0, second, nanosecond⟩

/-- Reads a sign as one or as minus one. -/
def sign : Cursor (Option Int32) := do
  if ← eat '+'.toUInt8 then return some 1
  else if ← eat '-'.toUInt8 then return some (-1)
  else return none

/-- The offset of some hours and minutes, in signed seconds; nothing when there is no such
offset. -/
def offsetSeconds (sign : Int32) (hours minutes : UInt32) : Except RangeFault (Option Offset) := do
  if 60 ≤ minutes then return none
  let seconds ← Word.add (← Word.mul hours 3600) (← Word.mul minutes 60)
  let seconds ← Word.signedMul sign (← Word.signed seconds)
  return Offset.of? seconds.toInt

def signedOffset : Cursor (Option (Option Offset)) := do
  let some sign ← sign | return none
  let some hours ← digits 2 2 | return none
  let _ ← eat ':'.toUInt8
  let minutes ← attempt (digits 2 2)
  let offset ← (offsetSeconds sign hours (minutes.getD 0) : Except RangeFault (Option Offset))
  return some offset

/-- Reads an offset. The outer option tells whether one stands there, the inner one whether there is
such an offset. -/
def offset : Cursor (Option (Option Offset)) := do
  if ← eat 'Z'.toUInt8 then return some (Offset.of? 0)
  else attempt signedOffset

def momentOfDay : Cursor (Option (WordClock × Offset)) := do
  let some clock ← clock | return none
  match ← offset with
  | none => return some (clock, .utc)
  | some none => return none
  | some (some offset) => return some (clock, offset)

def time : Cursor (Option (WordClock × Offset)) := do
  if ← isEmpty then return some (⟨0, 0, 0, 0⟩, .utc)
  if ← eat 'T'.toUInt8 then momentOfDay
  else if ← eat ' '.toUInt8 then momentOfDay
  else return none

/-- The timestamp of some words, if calendar and clock have it. -/
def assemble (year : Int32) (month day : UInt32) (clock : WordClock) (offset : Offset) :
    Option Timestamp := do
  let date ← Date.of? year.toInt month.toNat day.toNat
  let clock ← Clock.of? clock.hour.toNat clock.minute.toNat clock.second.toNat
      clock.nanosecond.toNat
  return ⟨date, clock, offset⟩

def timestamp : Cursor (Option Timestamp) := do
  let some year ← digits 4 4 | return none
  let year ← (Word.signed year : Except RangeFault Int32)
  let some month ← month | return none
  let some day ← day | return none
  let some (clock, offset) ← time | return none
  if ← isEmpty then return assemble year month day clock offset
  else return none

/-! ### Following a reader of characters -/

/-- A reader of bytes reads what a reader of characters reads, leaves what that one leaves and meets
no fault. When there is nothing to be read it may stop anywhere. -/
def Follows {α β : Type} (read : Cursor (Option α)) (view : α → β)
    (model : List Char → Option (β × List Char)) : Prop :=
  ∀ bytes, (model (charsOf bytes) = none ∧ ∃ moved, read.run bytes = .ok (none, moved)) ∨
    ∃ a rest, model (charsOf bytes) = some (view a, charsOf rest) ∧
    read.run bytes = .ok (some a, rest)

variable {α β : Type} {bytes : List UInt8} {least most : Nat}

theorem follows_digits (hleast : least ≤ most) (hmost : most ≤ 9) :
    Follows (digits least most) UInt32.toNat (Scan.digits? least most) := by
  intro bytes
  obtain ⟨run, rest, rfl, hlongest, hshort, hlong⟩ := exists_run_digits least hmost bytes
  rcases Nat.lt_or_ge run.length least with hlt | hle
  · have hstop : NoDigitAhead (charsOf rest) := hlongest.longest.resolve_left (by omega)
    have hnone := Scan.digits?_eq_none hlongest.allDigits hstop (by rwa [length_charsOf]) hleast
    rw [← charsOf_append] at hnone
    exact .inl ⟨hnone, _, hshort hlt⟩
  · obtain ⟨n, hread, hvalue⟩ := hlong hle
    refine .inr ⟨n, rest, ?_, hread⟩
    let word : DigitRun least most := ⟨charsOf run, hlongest.allDigits, by rwa [length_charsOf],
      by rw [length_charsOf]; exact hlongest.length_le⟩
    refine Scan.digits?_eq_some_iff.2 ⟨word, charsOf_append run rest, hvalue, ?_⟩
    rw [length_charsOf]
    exact hlongest.longest

theorem follows_twoDigits : Follows (digits 2 2) UInt32.toNat (Scan.digits? 2 2) :=
  follows_digits (by decide) (by decide)

theorem follows_fraction : Follows fraction UInt32.toNat Scan.billionths? := by
  intro bytes
  obtain ⟨run, rest, rfl, hrun, hstop, hnone, hsome⟩ := exists_run_fraction bytes
  by_cases hne : run = []
  · refine .inl ⟨?_, _, hnone hne⟩
    have htake := takeWhile_digits hrun hstop
    rw [hne, charsOf_nil] at htake
    rw [hne, charsOf_append, charsOf_nil, Scan.billionths?, htake]
    rfl
  · obtain ⟨n, hread, hvalue, _⟩ := hsome hne
    refine .inr ⟨n, rest, ?_, hread⟩
    refine Scan.billionths?_eq_some_iff.2 ⟨charsOf run, hrun, by simpa [charsOf] using hne,
      charsOf_append run rest, hstop, ?_⟩
    rw [Decimal.valueOfDigits_take_padded hrun, length_charsOf]
    exact hvalue

/-! ### Single bytes -/

theorem ofUInt8_toUInt8 {c : Char} (hc : c.toNat < 256) : Char.ofUInt8 c.toUInt8 = c := by
  apply Char.ext
  apply UInt32.toNat_inj.1
  have hbyte : c.toUInt8.toNat = c.toNat := Nat.mod_eq_of_lt hc
  exact (UInt8.toNat_toUInt32 _).trans hbyte

theorem toUInt8_ofUInt8 (b : UInt8) : (Char.ofUInt8 b).toUInt8 = b := by
  apply UInt8.toNat_inj.1
  have hbyte : (Char.ofUInt8 b).toUInt8.toNat = (Char.ofUInt8 b).toNat % 256 := rfl
  have hchar : (Char.ofUInt8 b).toNat = b.toNat := UInt8.toNat_toUInt32 b
  rw [hbyte, hchar]
  exact Nat.mod_eq_of_lt b.toNat_lt

theorem exists_run_eat {c : Char} (hc : c.toNat < 256) (bytes : List UInt8) :
    (∃ rest, (eat c.toUInt8).run bytes = .ok (true, rest) ∧
      Scan.accept? c (charsOf bytes) = some (charsOf rest)) ∨
    ((eat c.toUInt8).run bytes = .ok (false, bytes) ∧ Scan.accept? c (charsOf bytes) = none) := by
  by_cases hhead : bytes.head? = some c.toUInt8
  · obtain ⟨rest, rfl⟩ := List.head?_eq_some_iff.1 hhead
    refine .inl ⟨rest, run_eat_cons _ rest, ?_⟩
    rw [charsOf_cons, ofUInt8_toUInt8 hc]
    exact Scan.accept?_head c _
  · refine .inr ⟨run_eat_of_head hhead, Scan.accept?_eq_none_iff.2 fun hchar => hhead ?_⟩
    cases bytes with
    | nil => cases hchar
    | cons b rest =>
      have hb : Char.ofUInt8 b = c := Option.some.inj hchar
      rw [← hb, toUInt8_ofUInt8, List.head?_cons]

theorem exists_run_skip {c : Char} (hc : c.toNat < 256) (bytes : List UInt8) :
    ∃ found rest, (eat c.toUInt8).run bytes = .ok (found, rest) ∧
      Scan.skip c (charsOf bytes) = charsOf rest := by
  rcases exists_run_eat hc bytes with ⟨rest, heat, haccept⟩ | ⟨heat, haccept⟩
  · exact ⟨true, rest, heat, by rw [Scan.skip, haccept, Option.getD_some]⟩
  · exact ⟨false, bytes, heat, by rw [Scan.skip, haccept, Option.getD_none]⟩

/-! ### Combining readers -/

namespace Follows

variable {α β : Type} {r : Cursor (Option α)} {v : α → β} {m : List Char → Option (β × List Char)}

theorem nothing (v : α → β) : Follows (return none) v fun _ => none :=
  fun bytes => .inl ⟨rfl, bytes, rfl⟩

theorem exists_run_attempt (h : Follows r v m) (bytes : List UInt8) :
    ∃ found rest, (attempt r).run bytes = .ok (found, rest) ∧
      Scan.attempt m (charsOf bytes) = (found.map v, charsOf rest) := by
  rcases h bytes with ⟨hmodel, moved, hread⟩ | ⟨a, rest, hmodel, hread⟩
  · exact ⟨none, bytes, run_attempt_none hread, Scan.attempt_of_none hmodel⟩
  · exact ⟨some a, rest, run_attempt_some hread, Scan.attempt_of_some hmodel⟩

theorem skip (h : Follows r v m) {c : Char} (hc : c.toNat < 256) :
    Follows (do let _ ← eat c.toUInt8; r) v fun s => m (Scan.skip c s) := by
  intro bytes
  obtain ⟨found, rest, heat, hskip⟩ := exists_run_skip hc bytes
  simp only [StateT.run_bind, heat, ok_bind, hskip]
  exact h rest

theorem choice (h : Follows r v m) {c : Char} (hc : c.toNat < 256) {other : Cursor (Option α)}
    {n : List Char → Option (β × List Char)} (hother : Follows other v n) :
    Follows (do if ← eat c.toUInt8 then r else other) v fun s =>
      match Scan.accept? c s with
      | some rest => m rest
      | none => n s := by
  intro bytes
  rcases exists_run_eat hc bytes with ⟨rest, heat, haccept⟩ | ⟨heat, haccept⟩
  · simp only [StateT.run_bind, heat, ok_bind, haccept, if_true]
    exact h rest
  · simp only [StateT.run_bind, heat, ok_bind, haccept, Bool.false_eq_true, if_false]
    exact hother bytes

theorem unlessEmpty (h : Follows r v m) (a : α) :
    Follows (do if ← isEmpty then return some a else r) v fun s =>
      if s.isEmpty then some (v a, s) else m s := by
  intro bytes
  cases bytes with
  | nil => exact .inr ⟨a, [], rfl, rfl⟩
  | cons b rest => exact h (b :: rest)

end Follows

/-! ### Dates and times of day -/

theorem follows_plainMonth : Follows plainMonth UInt32.toNat fun s =>
    (Scan.digits? 2 2 s).filter fun r => !r.2.isEmpty := by
  intro bytes
  simp only [plainMonth, StateT.run_bind]
  rcases follows_twoDigits bytes with ⟨hmodel, moved, hread⟩ | ⟨n, rest, hmodel, hread⟩
  · simp only [hmodel, hread, ok_bind]
    exact .inl ⟨rfl, moved, rfl⟩
  · simp only [hmodel, hread, ok_bind]
    cases rest with
    | nil => exact .inl ⟨rfl, [], rfl⟩
    | cons b rest => exact .inr ⟨n, b :: rest, rfl, rfl⟩

theorem follows_month : Follows month UInt32.toNat TimestampParts.month? :=
  ((follows_digits (by decide) (by decide)).choice (c := '-') (by decide)
    follows_plainMonth).unlessEmpty 1

theorem follows_day : Follows day UInt32.toNat TimestampParts.day? :=
  ((follows_digits (by decide) (by decide)).choice (c := '-') (by decide)
    follows_twoDigits).unlessEmpty 1

theorem follows_minute : Follows minute UInt32.toNat TimestampParts.minute? :=
  follows_twoDigits.skip (by decide)

theorem follows_secondFraction : Follows secondFraction UInt32.toNat TimestampParts.fraction? := by
  have hcomma : (fun s => match Scan.accept? ',' s with
      | some rest => Scan.billionths? rest
      | none => none) = fun s => (Scan.accept? ',' s).bind Scan.billionths? := by
    funext s
    cases Scan.accept? ',' s <;> rfl
  have hother := follows_fraction.choice (c := ',') (by decide) (.nothing UInt32.toNat)
  rw [hcomma] at hother
  exact follows_fraction.choice (c := '.') (by decide) hother

theorem follows_second :
    Follows second (fun (s, n) => (s.toNat, n.toNat)) TimestampParts.second? := by
  intro bytes
  obtain ⟨_, marked, heat, hskip⟩ := exists_run_skip (c := ':') (by decide) bytes
  have hdigits : Follows (digits 1 2) UInt32.toNat (Scan.digits? 1 2) :=
    follows_digits (by decide) (by decide)
  simp only [TimestampParts.second?, second, hskip, StateT.run_bind, heat, ok_bind]
  rcases hdigits marked with ⟨hmodel, moved, hread⟩ | ⟨s, behind, hmodel, hread⟩
  · simp only [hmodel, hread, ok_bind]
    exact .inl ⟨rfl, moved, rfl⟩
  · obtain ⟨n, rest, hattempt, hfraction⟩ := follows_secondFraction.exists_run_attempt behind
    simp only [hmodel, hread, ok_bind, Option.bind_eq_bind, Option.bind_some, hfraction]
    refine .inr ⟨(s, n.getD 0), rest, ?_, ?_⟩
    · cases n <;> rfl
    · simp only [StateT.run_bind, hattempt, ok_bind]
      rfl

theorem follows_clock (p : TimestampParts) : Follows clock (WordClock.fill p) p.clock? := by
  intro bytes
  simp only [TimestampParts.clock?, clock, StateT.run_bind]
  rcases follows_twoDigits bytes with ⟨hmodel, moved, hread⟩ | ⟨h, behind, hmodel, hread⟩
  · simp only [hmodel, hread, ok_bind]
    exact .inl ⟨rfl, moved, rfl⟩
  · obtain ⟨m, later, hminute, hminuteModel⟩ := follows_minute.exists_run_attempt behind
    obtain ⟨found, rest, hsecond, hsecondModel⟩ := follows_second.exists_run_attempt later
    simp only [hmodel, hread, ok_bind, Option.bind_eq_bind, Option.bind_some, hminuteModel,
      hsecondModel]
    refine .inr ⟨⟨h, m.getD 0, (found.getD (0, 0)).1, (found.getD (0, 0)).2⟩, rest, ?_, ?_⟩
    · cases m <;> cases found <;> rfl
    · simp only [StateT.run_bind, hminute, hsecond, ok_bind]
      rfl

/-! ### Offsets -/

theorem exists_run_sign (bytes : List UInt8) :
    (TimestampParts.sign? (charsOf bytes) = none ∧ ∃ moved, sign.run bytes = .ok (none, moved)) ∨
    ∃ west rest, TimestampParts.sign? (charsOf bytes) = some (west, charsOf rest) ∧
      sign.run bytes = .ok (some (if west then -1 else 1), rest) := by
  simp only [sign, TimestampParts.sign?, StateT.run_bind]
  rcases exists_run_eat (c := '+') (by decide) bytes with ⟨rest, heat, haccept⟩ | ⟨heat, haccept⟩
  · simp only [heat, haccept, ok_bind]
    exact .inr ⟨false, rest, rfl, rfl⟩
  · rcases exists_run_eat (c := '-') (by decide) bytes with
      ⟨rest, hminus, hacceptMinus⟩ | ⟨hminus, hacceptMinus⟩
    · simp only [heat, haccept, hacceptMinus, ok_bind, StateT.run_bind, hminus, Bool.false_eq_true,
        if_false]
      exact .inr ⟨true, rest, rfl, rfl⟩
    · simp only [heat, haccept, hacceptMinus, ok_bind, StateT.run_bind, hminus, Bool.false_eq_true,
        if_false]
      exact .inl ⟨rfl, bytes, rfl⟩

/-- Hours and minutes of two digits are less than a million seconds. -/
theorem offsetSeconds_eq {hours minutes : UInt32} (hhours : hours.toNat < 100)
    (hminutes : minutes.toNat < 100) (p : TimestampParts) (west : Bool) :
    offsetSeconds (if west then -1 else 1) hours minutes = .ok ({ p with
      west := west, offsetHours := hours.toNat, offsetMinutes := minutes.toNat } :
        TimestampParts).offset? := by
  have hle : 60 ≤ minutes ↔ 60 ≤ minutes.toNat := UInt32.le_iff_toNat_le
  by_cases h : 60 ≤ minutes.toNat
  · simp only [offsetSeconds, TimestampParts.offset?, hle, h, if_true]
    rfl
  obtain ⟨a, hmulHours, ha⟩ : ∃ a, Word.mul hours 3600 = .ok a ∧ a.toNat = hours.toNat * 3600 :=
    Word.exists_mul (Nat.lt_of_le_of_lt (Nat.mul_le_mul_right _ (Nat.le_of_lt hhours)) (by decide))
  obtain ⟨b, hmulMinutes, hb⟩ : ∃ b, Word.mul minutes 60 = .ok b ∧ b.toNat = minutes.toNat * 60 :=
    Word.exists_mul (Nat.lt_of_le_of_lt (Nat.mul_le_mul_right _ (Nat.le_of_lt hminutes))
      (by decide))
  obtain ⟨sum, hadd, hsum⟩ : ∃ c, Word.add a b = .ok c ∧ c.toNat = a.toNat + b.toNat :=
    Word.exists_add (by omega)
  obtain ⟨seconds, hsigned, hseconds⟩ := Word.exists_signed (a := sum) (by omega)
  have hsign : (if west then -1 else 1 : Int32).toInt = if west then -1 else 1 := by
    cases west <;> rfl
  obtain ⟨product, hproduct, hvalue⟩ :=
    Word.exists_signedMul (a := if west then -1 else 1) (b := seconds)
    (by rw [hsign]; split <;> omega) (by rw [hsign]; split <;> omega)
  have hoffset : product.toInt = ({ p with
      west := west, offsetHours := hours.toNat, offsetMinutes := minutes.toNat } :
      TimestampParts).offsetSeconds := by
    rw [hvalue, hsign, TimestampParts.offsetSeconds]
    cases west <;> simp <;> omega
  simp only [offsetSeconds, TimestampParts.offset?, hle, h, if_false, hmulHours, hmulMinutes, hadd,
    hsigned, hproduct, ok_bind, hoffset]
  rfl

theorem digits?_lt {n : Nat} {s rest : List Char} (h : Scan.digits? least most s = some (n, rest)) :
    n < 10 ^ most := by
  obtain ⟨run, _, rfl, _⟩ := Scan.digits?_eq_some_iff.1 h
  exact run.value_lt

/-- What is read as an offset is the offset of the parts. -/
theorem follows_signedOffset (p : TimestampParts) : Follows signedOffset id fun s =>
    (p.signedOffset? s).map fun (q, rest) => (q.offset?, rest) := by
  intro bytes
  simp only [TimestampParts.signedOffset?, signedOffset, StateT.run_bind]
  rcases exists_run_sign bytes with ⟨hmodel, moved, hread⟩ | ⟨west, behind, hsign, hreadSign⟩
  · simp only [hmodel, hread, ok_bind]
    exact .inl ⟨rfl, moved, rfl⟩
  simp only [hsign, hreadSign, ok_bind, Option.bind_eq_bind, Option.bind_some, StateT.run_bind]
  rcases follows_twoDigits behind with ⟨hmodel, moved, hread⟩ | ⟨hours, later, hmodel, hread⟩
  · simp only [hmodel, hread, ok_bind]
    exact .inl ⟨rfl, moved, rfl⟩
  obtain ⟨_, marked, heat, hskip⟩ := exists_run_skip (c := ':') (by decide) later
  obtain ⟨minutes, rest, hattempt, hminutes⟩ := follows_twoDigits.exists_run_attempt marked
  have hhours : hours.toNat < 100 := digits?_lt hmodel
  have hbound : (minutes.getD 0).toNat < 100 := by
    rcases Scan.attempt_cases hminutes with ⟨n, hn, hread⟩ | ⟨hn, _, _⟩
    · obtain ⟨word, rfl, rfl⟩ := Option.map_eq_some_iff.1 hn
      exact digits?_lt hread
    · rw [Option.map_eq_none_iff.1 hn]
      decide
  have hgetD : (minutes.map UInt32.toNat).getD 0 = (minutes.getD 0).toNat := by
    cases minutes <;> rfl
  simp only [hmodel, hread, ok_bind, Option.bind_some, hskip, hminutes, hgetD, StateT.run_bind,
    heat, hattempt, offsetSeconds_eq hhours hbound p west]
  exact .inr ⟨_, rest, rfl, rfl⟩

/-- Where no offset stands it is the one that the parts had before. -/
theorem exists_run_offset {p : TimestampParts} (hutc : p.offset? = some .utc) (bytes : List UInt8) :
    ∃ found rest q, offset.run bytes = .ok (found, rest) ∧
    p.offset (charsOf bytes) = (q, charsOf rest) ∧
      found.getD (some .utc) = q.offset? ∧ q.at? = p.at? := by
  have hat : ∀ {q rest}, p.offset (charsOf bytes) = (q, rest) → q.at? = p.at? := by
    intro q rest h
    obtain ⟨o, _, rfl⟩ := TimestampParts.offset_sound h
    cases o with
    | none => rfl
    | some o => exact p.at?_fill o
  suffices h : ∃ found rest q, offset.run bytes = .ok (found, rest) ∧
      p.offset (charsOf bytes) = (q, charsOf rest) ∧ found.getD (some .utc) = q.offset? by
    obtain ⟨found, rest, q, hrun, hmodel, hoffset⟩ := h
    exact ⟨found, rest, q, hrun, hmodel, hoffset, hat hmodel⟩
  simp only [offset, TimestampParts.offset, StateT.run_bind]
  rcases exists_run_eat (c := 'Z') (by decide) bytes with ⟨rest, heat, haccept⟩ | ⟨heat, haccept⟩
  · simp only [heat, haccept, ok_bind, if_true]
    exact ⟨_, rest, p, rfl, rfl, hutc.symm⟩
  simp only [heat, haccept, ok_bind, Bool.false_eq_true, if_false]
  rcases follows_signedOffset p bytes with ⟨hmodel, moved, hread⟩ | ⟨o, rest, hmodel, hread⟩
  · have hsigned := Option.map_eq_none_iff.1 hmodel
    simp only [Scan.attempt_of_none hsigned]
    exact ⟨none, bytes, p, run_attempt_none hread, rfl, hutc.symm⟩
  · obtain ⟨⟨q, left⟩, hsigned, heq⟩ := Option.map_eq_some_iff.1 hmodel
    obtain ⟨hoffset, rfl⟩ := Prod.mk.inj heq
    simp only [Scan.attempt_of_some hsigned]
    exact ⟨some o, rest, q, run_attempt_some hread, rfl, hoffset.symm⟩

/-! ### Whole timestamps -/

/-- A reader of a time of day with its offset reaches a timestamp of a date exactly when a reader of
parts does, and the same one. -/
def Reaches (read : Cursor (Option (WordClock × Offset))) (p : TimestampParts)
    (model : List Char → Option TimestampParts) : Prop :=
  ∀ bytes, ∃ found rest, read.run bytes = .ok (found, rest) ∧
    (model (charsOf bytes)).bind TimestampParts.toTimestamp? = found.bind fun (clock, offset) =>
      if rest.isEmpty then (clock.fill p).at? offset else none

theorem reaches_momentOfDay {p : TimestampParts} (hutc : p.offset? = some .utc) :
    Reaches momentOfDay p fun s => (p.clock? s).bind fun (q, s) =>
      if (q.offset s).2.isEmpty then some (q.offset s).1 else none := by
  intro bytes
  simp only [momentOfDay, StateT.run_bind]
  rcases follows_clock p bytes with ⟨hmodel, moved, hread⟩ | ⟨clock, behind, hmodel, hread⟩
  · simp only [hmodel, hread, ok_bind]
    exact ⟨none, moved, rfl, rfl⟩
  obtain ⟨found, rest, q, hrun, hoffset, hfound, hat⟩ :=
    exists_run_offset (p := clock.fill p) hutc behind
  simp only [hmodel, hread, ok_bind, Option.bind_some, hoffset, StateT.run_bind, hrun,
    isEmpty_charsOf]
  have hvalue :
      (if rest.isEmpty then some q else none : Option TimestampParts).bind
    TimestampParts.toTimestamp?
      = (found.getD (some .utc)).bind fun offset =>
      if rest.isEmpty then (clock.fill p).at? offset else none := by
    rw [← hat, hfound]
    cases rest.isEmpty with
    | false => cases q.offset? <;> rfl
    | true => exact q.toTimestamp?_eq
  rw [hvalue]
  cases found with
  | none => exact ⟨_, rest, rfl, rfl⟩
  | some found =>
    cases found with
    | none => exact ⟨_, rest, rfl, rfl⟩
    | some offset => exact ⟨_, rest, rfl, rfl⟩

theorem reaches_time (year month day : Nat) :
    Reaches time { year, month, day } (TimestampParts.time? { year, month, day }) := by
  intro bytes
  have hutc := TimestampParts.offset?_date year month day
  have hmoment := reaches_momentOfDay hutc
  cases bytes with
  | nil =>
    refine ⟨some (⟨0, 0, 0, 0⟩, .utc), [], rfl, ?_⟩
    have hfill : WordClock.fill { year, month, day } ⟨0, 0, 0, 0⟩ = { year, month, day } := rfl
    have hdate : TimestampParts.time? { year, month, day } (charsOf [])
        = some { year, month, day } := rfl
    rw [hdate, Option.bind_some, TimestampParts.toTimestamp?_eq, hutc]
    simp only [Option.bind_some, hfill, List.isEmpty_nil, if_true]
  | cons b bytes =>
    have hempty : isEmpty.run (b :: bytes) = .ok (false, b :: bytes) := rfl
    have hmodel : (charsOf (b :: bytes)).isEmpty = false := rfl
    simp only [time, TimestampParts.time?, StateT.run_bind, hempty, hmodel, ok_bind,
      Bool.false_eq_true, if_false]
    rcases exists_run_eat (c := 'T') (by decide) (b :: bytes) with ⟨rest, heat, haccept⟩ |
      ⟨heat, haccept⟩
    · simp only [heat, haccept, ok_bind, if_true, Option.some_or, Option.bind_eq_bind,
        Option.bind_some]
      exact hmoment rest
    rcases exists_run_eat (c := ' ') (by decide) (b :: bytes) with
      ⟨rest, hspace, hacceptSpace⟩ | ⟨hspace, hacceptSpace⟩
    · simp only [heat, haccept, hspace, hacceptSpace, StateT.run_bind, ok_bind, Bool.false_eq_true,
        if_false, if_true, Option.none_or, Option.bind_eq_bind, Option.bind_some]
      exact hmoment rest
    · simp only [heat, haccept, hspace, hacceptSpace, StateT.run_bind, ok_bind, Bool.false_eq_true,
        if_false, Option.none_or, Option.bind_eq_bind, Option.bind_none]
      exact ⟨none, _, rfl, rfl⟩

theorem assemble_eq {year : Int32} {y : Nat} (hyear : year.toInt = y) (month day : UInt32)
    (clock : WordClock) (offset : Offset) : assemble year month day clock offset =
      (clock.fill { year := y, month := month.toNat, day := day.toNat }).at? offset := by
  rw [assemble, hyear]
  rfl

theorem exists_run_timestamp (bytes : List UInt8) :
    ∃ rest, timestamp.run bytes = .ok (Timestamp.ofText? (charsOf bytes), rest) := by
  have hdigits : Follows (digits 4 4) UInt32.toNat (Scan.digits? 4 4) :=
    follows_digits (by decide) (by decide)
  simp only [timestamp, Timestamp.ofText?, TimestampParts.ofText?, StateT.run_bind]
  rcases hdigits bytes with ⟨hmodel, moved, hread⟩ | ⟨year, behind, hmodel, hread⟩
  · simp only [hmodel, hread, ok_bind]
    exact ⟨moved, rfl⟩
  have hlt : year.toNat < 10 ^ 4 := digits?_lt hmodel
  obtain ⟨signed, hsigned, hyear⟩ := Word.exists_signed (a := year) (by omega)
  simp only [hmodel, hread, hsigned, ok_bind, Option.bind_eq_bind, Option.bind_some,
    StateT.run_bind, run_lift_ok]
  rcases follows_month behind with ⟨hmodel, moved, hread⟩ | ⟨month, behind, hmodel, hread⟩
  · simp only [hmodel, hread, ok_bind]
    exact ⟨moved, rfl⟩
  simp only [hmodel, hread, ok_bind, Option.bind_some, StateT.run_bind]
  rcases follows_day behind with ⟨hmodel, moved, hread⟩ | ⟨day, behind, hmodel, hread⟩
  · simp only [hmodel, hread, ok_bind]
    exact ⟨moved, rfl⟩
  obtain ⟨found, rest, hrun, htime⟩ := reaches_time year.toNat month.toNat day.toNat behind
  simp only [hmodel, hread, ok_bind, Option.bind_some, StateT.run_bind, hrun, htime]
  cases found with
  | none => exact ⟨rest, rfl⟩
  | some found =>
    obtain ⟨clock, offset⟩ := found
    simp only [Option.bind_some, ← assemble_eq hyear]
    cases rest with
    | nil => exact ⟨[], rfl⟩
    | cons b rest => exact ⟨b :: rest, rfl⟩

/-! ### Texts -/

/-- Reads the bytes of a text, unless some of it is beyond ASCII. -/
def readText (text : String) : Except RangeFault (Option Timestamp) := do
  if text.toList.all (fun c => c.toNat < 128) then
    let (found, _) ← timestamp.run text.toByteArray.data.toList
    return found
  else return none

theorem charsOf_flatMap_utf8EncodeChar {s : List Char} (h : IsAscii s) :
    charsOf (s.flatMap String.utf8EncodeChar) = s := by
  induction s with
  | nil => rfl
  | cons c s ih =>
    obtain ⟨hc, hs⟩ := isAscii_cons.1 h
    have hsize : c.utf8Size = 1 :=
      Char.utf8Size_eq_one_iff.2 (UInt32.le_iff_toNat_le.2 (Nat.le_of_lt_succ hc))
    have hchar : Char.ofUInt8 c.val.toUInt8 = c := ofUInt8_toUInt8 (by omega)
    rw [List.flatMap_cons, String.utf8EncodeChar_eq_singleton hsize, charsOf_append, ih hs,
      charsOf_cons, hchar, charsOf_nil, List.singleton_append]

theorem charsOf_toByteArray {text : String} (h : IsAscii text.toList) :
    charsOf text.toByteArray.data.toList = text.toList := by
  rw [← String.utf8Encode_toList, List.utf8Encode, List.toList_data_toByteArray,
    charsOf_flatMap_utf8EncodeChar h]

theorem readText_eq (text : String) : readText text = .ok (Timestamp.ofText? text.toList) := by
  by_cases hascii : IsAscii text.toList
  · have hall : text.toList.all (fun c => c.toNat < 128) = true := by simpa [IsAscii] using hascii
    obtain ⟨rest, hread⟩ := exists_run_timestamp text.toByteArray.data.toList
    rw [readText, if_pos hall, hread, charsOf_toByteArray hascii]
    rfl
  · have hall : ¬ text.toList.all (fun c => c.toNat < 128) = true := by simpa [IsAscii] using hascii
    have hnone : Timestamp.ofText? text.toList = none := by
      refine Option.eq_none_iff_forall_ne_some.2 fun t ht => hascii ?_
      obtain ⟨f, hf, _⟩ := Timestamp.ofText?_eq_some_iff_form.1 ht
      rw [← hf]
      exact f.isAscii_text
    rw [readText, if_neg hall, hnone]
    rfl

/-- No bytes and no text run into a fault. Digits are taken as the longest run that may be taken, or
not at all when it is too short, and a fraction of any length is rounded down to billionths; nothing
is taken by an attempt in which nothing is read. What is read from the bytes is what their
characters say. -/
theorem read_in_range :
    (∀ least most, most ≤ 9 → ∀ bytes, ∃ run rest, bytes = run ++ rest ∧ LongestRun most run rest ∧
      (run.length < least → (digits least most).run bytes = .ok (none, bytes)) ∧
      (least ≤ run.length → ∃ n, (digits least most).run bytes = .ok (some n, rest) ∧
        n.toNat = Decimal.valueOfDigits (charsOf run))) ∧
    (∀ bytes, ∃ run rest, bytes = run ++ rest ∧ AllDigits (charsOf run) ∧
      NoDigitAhead (charsOf rest) ∧ (run = [] → fraction.run bytes = .ok (none, bytes)) ∧
      (run ≠ [] → ∃ n, fraction.run bytes = .ok (some n, rest) ∧
        n.toNat = Decimal.valueOfDigits (charsOf run) * 10 ^ 9 / 10 ^ run.length ∧
        n.toNat < 10 ^ 9)) ∧
    (∀ {α : Type} (read : Cursor (Option α)) bytes, (attempt read).run bytes =
      (read.run bytes).map fun (found, moved) => (found, if found.isNone then bytes else moved)) ∧
    (∀ bytes, ∃ rest, timestamp.run bytes = .ok (Timestamp.ofText? (charsOf bytes), rest)) ∧
    ∀ text, readText text = .ok (Timestamp.ofText? text.toList) :=
  ⟨fun least _ hmost bytes => exists_run_digits least hmost bytes, exists_run_fraction, run_attempt,
    exists_run_timestamp, readText_eq⟩

/-- A single digit where two are needed is left alone, and twelve digits of a fraction are all
taken. -/
theorem run_of_short_and_long_digits :
    (digits 2 2).run ("5:".toList.map Char.toUInt8) = .ok (none, "5:".toList.map Char.toUInt8) ∧
    (∃ n, fraction.run ("987654321987Z".toList.map Char.toUInt8) = .ok (some n, ['Z'.toUInt8]) ∧
      n.toNat = 987654321) ∧
    readText "2016-02-01T12:12:05.1234567899+0200" =
      .ok (Timestamp.ofText? "2016-02-01T12:12:05.1234567899+0200".toList) := by
  obtain ⟨hdigits, hfraction, _, _, htext⟩ := read_in_range
  refine ⟨?_, ?_, htext _⟩
  · obtain ⟨run, rest, hbytes, hlongest, hshort, _⟩ :=
      hdigits 2 2 (by decide) ("5:".toList.map Char.toUInt8)
    refine hshort (Nat.lt_of_not_le fun htwo => ?_)
    have hwhole : run = "5:".toList.map Char.toUInt8 :=
      (List.prefix_iff_eq_take.1 ⟨rest, hbytes.symm⟩).trans (List.take_of_length_le htwo)
    have hcolon := hlongest.allDigits ':' (by rw [hwhole]; decide)
    exact absurd hcolon (by decide)
  · obtain ⟨run, rest, hbytes, hrun, hstop, _, hsome⟩ :=
      hfraction ("987654321987Z".toList.map Char.toUInt8)
    have hchars := takeWhile_digits hrun hstop
    rw [← charsOf_append, ← hbytes] at hchars
    have hlength : run.length = 12 := by
      rw [← length_charsOf, ← hchars]
      rfl
    have hrest : rest = ['Z'.toUInt8] := by
      have hdrop := congrArg (List.drop 12) hbytes
      rw [← hlength, List.drop_left, hlength] at hdrop
      exact hdrop.symm
    obtain ⟨n, hread, hvalue, _⟩ := hsome (by rintro rfl; cases hlength)
    refine ⟨n, hrest ▸ hread, ?_⟩
    rw [hvalue, ← hchars, hlength]
    decide

end Cursor

end SidecarIndex

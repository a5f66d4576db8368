import SidecarIndex.Timestamp.Reader
import SidecarIndex.Proofs.Timestamp.Scan

/-! # The forms of timestamps

How a timestamp may be written: the digits of its parts and the separators between them, from a year
alone to a moment with its offset. Every form has a text and says which parts it denotes. Most forms
are documented; the others put separators together in ways that no documented form has. -/

namespace SidecarIndex

/-- The fraction of a second: a comma or a point, and one digit or more. -/
structure SecondFraction where
  comma : Bool
  digits : List Char
  allDigits : AllDigits digits
  nonempty : digits ≠ []

/-- A date with a day. A hyphen stands in front of both month and day or of none of them; in the
last two forms it stands in front of one. -/
inductive DayForm where
  | extended (year : DigitRun 4 4) (month day : DigitRun 1 2)
  | basic (year : DigitRun 4 4) (month day : DigitRun 2 2)
  | monthHyphen (year : DigitRun 4 4) (month day : DigitRun 2 2)
  | dayHyphen (year : DigitRun 4 4) (month : DigitRun 2 2) (day : DigitRun 1 2)

/-- A time of day. Colons may stand in front of minutes and of seconds; the last form has seconds of
one digit and no minutes. -/
inductive ClockForm where
  | hour (hour : DigitRun 2 2)
  | minute (hour : DigitRun 2 2) (colon : Bool) (minute : DigitRun 2 2)
  | second (hour : DigitRun 2 2) (minuteColon : Bool) (minute : DigitRun 2 2) (secondColon : Bool)
      (second : DigitRun 1 2) (fraction : Option SecondFraction)
  | loneSecond (hour : DigitRun 2 2) (colon : Bool) (second : DigitRun 1 1)
      (fraction : Option SecondFraction)

/-- An offset: `Z`, or a sign with hours and perhaps minutes; the last form has a colon and no
minutes behind it. -/
inductive OffsetForm where
  | utc
  | hours (west : Bool) (hours : DigitRun 2 2)
  | minutes (west : Bool) (hours : DigitRun 2 2) (colon : Bool) (minutes : DigitRun 2 2)
  | openColon (west : Bool) (hours : DigitRun 2 2)

inductive TimestampForm where
  | year (year : DigitRun 4 4)
  | month (year : DigitRun 4 4) (month : DigitRun 1 2)
  | day (day : DayForm)
  | moment (day : DayForm) (space : Bool) (clock : ClockForm) (offset : Option OffsetForm)

/-! ### Texts -/

/-- A separator that may be missing. -/
def separator (c : Char) (present : Bool) : List Char := if present then [c] else []

@[simp] theorem separator_false (c : Char) : separator c false = [] := rfl

@[simp] theorem separator_true (c : Char) : separator c true = [c] := rfl

def SecondFraction.text (f : SecondFraction) : List Char :=
  (if f.comma then ',' else '.') :: f.digits

def fractionText? (f : Option SecondFraction) : List Char := f.elim [] SecondFraction.text

def DayForm.text : DayForm → List Char
  | extended y m d => y.digits ++ '-' :: (m.digits ++ '-' :: d.digits)
  | basic y m d => y.digits ++ (m.digits ++ d.digits)
  | monthHyphen y m d => y.digits ++ '-' :: (m.digits ++ d.digits)
  | dayHyphen y m d => y.digits ++ (m.digits ++ '-' :: d.digits)

def ClockForm.text : ClockForm → List Char
  | hour h => h.digits
  | minute h colon m => h.digits ++ (separator ':' colon ++ m.digits)
  | second h minuteColon m secondColon s f =>
    h.digits ++ (separator ':' minuteColon ++ (m.digits ++ (separator ':' secondColon
      ++ (s.digits ++ fractionText? f))))
  | loneSecond h colon s f => h.digits ++ (separator ':' colon ++ (s.digits ++ fractionText? f))

def signText (west : Bool) : Char := if west then '-' else '+'

def OffsetForm.text : OffsetForm → List Char
  | utc => ['Z']
  | hours west h => signText west :: h.digits
  | minutes west h colon m => signText west :: (h.digits ++ (separator ':' colon ++ m.digits))
  | openColon west h => signText west :: (h.digits ++ [':'])

def offsetText? (o : Option OffsetForm) : List Char := o.elim [] OffsetForm.text

def TimestampForm.text : TimestampForm → List Char
  | year y => y.digits
  | month y m => y.digits ++ '-' :: m.digits
  | day d => d.text
  | moment d space c o => d.text ++ (if space then ' ' else 'T') :: (c.text ++ offsetText? o)

/-! ### Denoted parts -/

/-- The first nine digits of the fraction; zeros stand in for those that are missing. -/
def SecondFraction.nanoseconds (f : SecondFraction) : Nat :=
  Decimal.valueOfDigits ((f.digits ++ List.replicate 9 '0').take 9)

def nanoseconds? (f : Option SecondFraction) : Nat := f.elim 0 SecondFraction.nanoseconds

/-- The parts of a day without a time: midnight of universal time. -/
def TimestampParts.ofDay (year month day : Nat) : TimestampParts where
  year := year
  month := month
  day := day
  hour := 0
  minute := 0
  second := 0
  nanosecond := 0
  west := false
  offsetHours := 0
  offsetMinutes := 0

def DayForm.parts : DayForm → TimestampParts
  | extended y m d => .ofDay y.value m.value d.value
  | basic y m d => .ofDay y.value m.value d.value
  | monthHyphen y m d => .ofDay y.value m.value d.value
  | dayHyphen y m d => .ofDay y.value m.value d.value

/-- Puts a time of day in its place; what the form leaves out is zero. -/
def ClockForm.fill (p : TimestampParts) : ClockForm → TimestampParts
  | hour h => { p with hour := h.value, minute := 0, second := 0, nanosecond := 0 }
  | minute h _ m => { p with hour := h.value, minute := m.value, second := 0, nanosecond := 0 }
  | second h _ m _ s f =>
    { p with hour := h.value, minute := m.value, second := s.value, nanosecond := nanoseconds? f }
  | loneSecond h _ s f =>
    { p with hour := h.value, minute := 0, second := s.value, nanosecond := nanoseconds? f }

def OffsetForm.fill (p : TimestampParts) : OffsetForm → TimestampParts
  | utc => p
  | hours west h => { p with west := west, offsetHours := h.value, offsetMinutes := 0 }
  | minutes west h _ m => { p with west := west, offsetHours := h.value, offsetMinutes := m.value }
  | openColon west h => { p with west := west, offsetHours := h.value, offsetMinutes := 0 }

/-- The parts that a form denotes: without a month or a day the first one, without a time midnight,
without an offset universal time. -/
def TimestampForm.parts : TimestampForm → TimestampParts
  | year y => .ofDay y.value 1 1
  | month y m => .ofDay y.value m.value 1
  | day d => d.parts
  | moment d _ c o => o.elim (c.fill d.parts) (OffsetForm.fill (c.fill d.parts))

/-! ### Documented forms -/

def DayForm.IsDocumented : DayForm → Prop
  | extended .. | basic .. => True
  | monthHyphen .. | dayHyphen .. => False

/-- Seconds stand behind minutes, with colons in front of both, or two digits of them with no
colon. -/
def ClockForm.IsDocumented : ClockForm → Prop
  | hour .. | minute .. => True
  | second _ minuteColon _ secondColon s _ =>
    minuteColon = secondColon ∧ (secondColon = false → s.digits.length = 2)
  | loneSecond .. => False

def OffsetForm.IsDocumented : OffsetForm → Prop
  | utc | hours .. | minutes .. => True
  | openColon .. => False

/-- The forms `YYYY`, `YYYY-M[M]`, `YYYY-M[M]-D[D]` and `YYYYMMDD`; the last two perhaps with a time
`HH`, `HH:MM`, `HHMM`, `HH:MM:S[S]` or `HHMMSS` behind `T` or a space, seconds perhaps with a
fraction, and a time perhaps with an offset `Z`, `±HH`, `±HHMM` or `±HH:MM`. -/
def TimestampForm.IsDocumented : TimestampForm → Prop
  | year .. | month .. => True
  | day d => d.IsDocumented
  | moment d _ c o => d.IsDocumented ∧ c.IsDocumented ∧ ∀ offset ∈ o, offset.IsDocumented

/-! ### The other forms -/

namespace TimestampForm

/-- A hyphen in front of one of month and day: `YYYY-MMDD` or `YYYYMM-D[D]`. -/
def HasOneHyphen : TimestampForm → Prop
  | day (.monthHyphen ..) | day (.dayHyphen ..) => True
  | moment (.monthHyphen ..) .. | moment (.dayHyphen ..) .. => True
  | _ => False

/-- A colon in front of one of minutes and seconds, or seconds of one digit with no colon:
`HH:MMS[S]`, `HHMM:S[S]` or `HHMMS`. -/
def HasUnevenSeconds : TimestampForm → Prop
  | moment _ _ (.second _ minuteColon _ secondColon s _) _ =>
    minuteColon ≠ secondColon ∨ secondColon = false ∧ s.digits.length = 1
  | _ => False

/-- Seconds behind hours: `HH:S` or `HHS`. -/
def OmitsMinutes : TimestampForm → Prop
  | moment _ _ (.loneSecond ..) _ => True
  | _ => False

/-- An offset that ends in a colon: `±HH:`. -/
def EndsInColon : TimestampForm → Prop
  | moment _ _ _ (some (.openColon ..)) => True
  | _ => False

/-- A form that is not documented departs from the documented ones in one of these ways. -/
theorem isDocumented_iff (f : TimestampForm) : f.IsDocumented ↔
    ¬ f.HasOneHyphen ∧ ¬ f.HasUnevenSeconds ∧ ¬ f.OmitsMinutes ∧ ¬ f.EndsInColon := by
  cases f with
  | year y => simp [IsDocumented, HasOneHyphen, HasUnevenSeconds, OmitsMinutes, EndsInColon]
  | month y m => simp [IsDocumented, HasOneHyphen, HasUnevenSeconds, OmitsMinutes, EndsInColon]
  | day d =>
    cases d
    all_goals
      simp [IsDocumented, DayForm.IsDocumented, HasOneHyphen, HasUnevenSeconds, OmitsMinutes,
        EndsInColon]
  | moment d space c o =>
    have hday : (moment d space c o).HasOneHyphen ↔ ¬ d.IsDocumented := by
      cases d
      all_goals simp [HasOneHyphen, DayForm.IsDocumented]
    have hclock : (moment d space c o).HasUnevenSeconds ∨ (moment d space c o).OmitsMinutes ↔
        ¬ c.IsDocumented := by
      cases c with
      | hour h => simp [HasUnevenSeconds, OmitsMinutes, ClockForm.IsDocumented]
      | minute h colon m => simp [HasUnevenSeconds, OmitsMinutes, ClockForm.IsDocumented]
      | second h minuteColon m secondColon s f =>
        have hleast := s.least_le
        have hmost := s.le_most
        have hlength : s.digits.length = 1 ↔ ¬ s.digits.length = 2 := by omega
        simp only [HasUnevenSeconds, OmitsMinutes, ClockForm.IsDocumented, hlength, or_false,
          not_and_or, Classical.not_imp]
      | loneSecond h colon s f => simp [HasUnevenSeconds, OmitsMinutes, ClockForm.IsDocumented]
    have hoffset : (moment d space c o).EndsInColon ↔ ¬ ∀ offset ∈ o, offset.IsDocumented := by
      cases o with
      | none => simp [EndsInColon]
      | some offset =>
        cases offset
        all_goals simp [EndsInColon, OffsetForm.IsDocumented]
    rw [← and_assoc (a := ¬ (moment d space c o).HasUnevenSeconds), ← not_or, hday, hclock, hoffset,
      Classical.not_not, Classical.not_not, Classical.not_not]
    rfl

end TimestampForm

/-! ### Characters -/

def IsAscii (s : List Char) : Prop := ∀ c ∈ s, c.toNat < 128

@[simp] theorem isAscii_nil : IsAscii [] := fun _ hc => nomatch hc

@[simp] theorem isAscii_cons {c : Char} {s : List Char} : IsAscii (c :: s) ↔
    c.toNat < 128 ∧ IsAscii s :=
  List.forall_mem_cons

@[simp] theorem isAscii_append {s t : List Char} : IsAscii (s ++ t) ↔ IsAscii s ∧ IsAscii t :=
  List.forall_mem_append

theorem AllDigits.isAscii {s : List Char} (h : AllDigits s) : IsAscii s := by
  intro c hc
  have hle := toNat_le_of_isDigit (h c hc)
  omega

@[simp] theorem DigitRun.isAscii {least most : Nat} (run : DigitRun least most) :
    IsAscii run.digits :=
  run.allDigits.isAscii

@[simp] theorem isAscii_separator (present : Bool) : IsAscii (separator ':' present) := by
  cases present
  all_goals simp

@[simp] theorem isAscii_fractionText? (f : Option SecondFraction) : IsAscii (fractionText? f) := by
  cases f with
  | none => exact isAscii_nil
  | some f =>
    have hpoint : (if f.comma then ',' else '.').toNat < 128 := by
      split
      all_goals decide
    exact isAscii_cons.2 ⟨hpoint, f.allDigits.isAscii⟩

@[simp] theorem signText_lt (west : Bool) : (signText west).toNat < 128 := by
  cases west
  all_goals decide

theorem DayForm.isAscii_text (d : DayForm) : IsAscii d.text := by
  cases d
  all_goals simp [text]

theorem ClockForm.isAscii_text (f : ClockForm) : IsAscii f.text := by
  cases f
  all_goals simp [text]

theorem isAscii_offsetText? (o : Option OffsetForm) : IsAscii (offsetText? o) := by
  cases o with
  | none => exact isAscii_nil
  | some o =>
    cases o
    all_goals simp [offsetText?, OffsetForm.text]

theorem TimestampForm.isAscii_text (f : TimestampForm) : IsAscii f.text := by
  cases f with
  | year y => exact y.isAscii
  | month y m => simp [text]
  | day d => exact d.isAscii_text
  | moment d space c o =>
    have hspace : (if space then ' ' else 'T').toNat < 128 := by
      split
      all_goals decide
    exact isAscii_append.2 ⟨d.isAscii_text,
      isAscii_cons.2 ⟨hspace, isAscii_append.2 ⟨c.isAscii_text, isAscii_offsetText? o⟩⟩⟩

end SidecarIndex

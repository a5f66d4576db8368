import SidecarIndex.Proofs.Timestamp.Reader

/-! # No text has two forms

Where a separator may be missing, a digit or the end shows that it is, and how many digits stand
together tells which parts they are. So the text of a form says which form it is. -/

namespace SidecarIndex

/-! ### Cancelling what stands in front -/

theorem DigitRun.eq_of_digits {least most : Nat} {a b : DigitRun least most}
    (h : a.digits = b.digits) : a = b := by
  obtain ⟨_, _, _, _⟩ := a
  obtain ⟨_, _, _, _⟩ := b
  cases h
  rfl

theorem DigitRun.cancel {width : Nat} {a b : DigitRun width width} {s t : List Char}
    (h : a.digits ++ s = b.digits ++ t) : a = b ∧ s = t := by
  obtain ⟨hdigits, hrest⟩ := List.append_inj h (a.length_eq.trans b.length_eq.symm)
  exact ⟨DigitRun.eq_of_digits hdigits, hrest⟩

theorem AllDigits.cancel {a b s t : List Char} (ha : AllDigits a) (hb : AllDigits b)
    (hs : NoDigitAhead s) (ht : NoDigitAhead t) (h : a ++ s = b ++ t) : a = b ∧ s = t := by
  have hrun := congrArg (List.takeWhile Char.isDigit) h
  rw [takeWhile_digits ha hs, takeWhile_digits hb ht] at hrun
  rw [hrun] at h
  exact ⟨hrun, List.append_cancel_left h⟩

theorem DigitRun.cancel_greedy {least most : Nat} {a b : DigitRun least most} {s t : List Char}
    (hs : NoDigitAhead s) (ht : NoDigitAhead t) (h : a.digits ++ s = b.digits ++ t) :
    a = b ∧ s = t := by
  obtain ⟨hdigits, hrest⟩ := a.allDigits.cancel b.allDigits hs ht h
  exact ⟨DigitRun.eq_of_digits hdigits, hrest⟩

theorem head?_separator_append {c : Char} {present : Bool} {s : List Char} (hs : s.head? ≠ some c) :
    (separator c present ++ s).head? = some c ↔ present = true := by
  cases present with
  | false => simp [hs]
  | true => simp

theorem separator_cancel {c : Char} {b b' : Bool} {s t : List Char} (hs : s.head? ≠ some c)
    (ht : t.head? ≠ some c) (h : separator c b ++ s = separator c b' ++ t) : b = b' ∧ s = t := by
  have hpresent : b = true ↔ b' = true := by
    rw [← head?_separator_append hs, ← head?_separator_append ht, h]
  have hrest := congrArg (Scan.skip c) h
  rw [skip_separator b hs, skip_separator b' ht] at hrest
  exact ⟨Bool.eq_iff_iff.2 hpresent, hrest⟩

theorem fractionText?_ne {f : SecondFraction} {s t : List Char} (ht : EndsClock t) :
    f.text ++ s ≠ t := by
  intro h
  rw [← h] at ht
  have hends := ht (if f.comma then ',' else '.') rfl
  split at hends
  all_goals exact absurd hends (by decide)

theorem fractionText?_cancel {f g : Option SecondFraction} {s t : List Char} (hs : EndsClock s)
    (ht : EndsClock t) (h : fractionText? f ++ s = fractionText? g ++ t) : f = g ∧ s = t := by
  cases f with
  | none =>
    cases g with
    | none => exact ⟨rfl, h⟩
    | some g => exact absurd h.symm (fractionText?_ne hs)
  | some f =>
    cases g with
    | none => exact absurd h (fractionText?_ne ht)
    | some g =>
      obtain ⟨hpoint, hrest⟩ := List.cons.inj h
      obtain ⟨hdigits, hends⟩ :=
        f.allDigits.cancel g.allDigits hs.noDigitAhead ht.noDigitAhead hrest
      have hcomma : f.comma = g.comma := by
        have hsign : ∀ b b' : Bool, (if b then ',' else '.') = (if b' then ',' else '.') →
            b = b' := by
          decide
        exact hsign _ _ hpoint
      obtain ⟨_, _, _, _⟩ := f
      obtain ⟨_, _, _, _⟩ := g
      cases hdigits
      cases hcomma
      exact ⟨rfl, hends⟩

/-! ### The digits behind the first ones -/

/-- The text starts with digits of a fixed number, a separator that may be missing, and `count` more
digits that no further one follows. -/
def Begins (width : Nat) (c : Char) (present : Bool) (count : Nat) (s : List Char) : Prop :=
  ∃ (first : DigitRun width width) (run rest : List Char),
    s = first.digits ++ (separator c present ++ (run ++ rest)) ∧ (run ++ rest).head? ≠ some c ∧
    AllDigits run ∧ run.length = count ∧ NoDigitAhead rest

theorem Begins.unique {width : Nat} {c : Char} {b b' : Bool} {n n' : Nat} {s : List Char}
    (h : Begins width c b n s) (h' : Begins width c b' n' s) : b = b' ∧ n = n' := by
  obtain ⟨first, run, rest, rfl, hhead, hrun, hlength, hrest⟩ := h
  obtain ⟨first', run', rest', htext, hhead', hrun', hlength', hrest'⟩ := h'
  obtain ⟨_, hbehind⟩ := DigitRun.cancel htext
  obtain ⟨hpresent, hdigits⟩ := separator_cancel hhead hhead' hbehind
  obtain ⟨hsame, _⟩ := hrun.cancel hrun' hrest hrest' hdigits
  exact ⟨hpresent, by rw [← hlength, ← hlength', hsame]⟩

namespace DayForm

def hasHyphen : DayForm → Bool
  | extended .. | monthHyphen .. => true
  | basic .. | dayHyphen .. => false

def count : DayForm → Nat
  | extended _ m _ => m.digits.length
  | basic .. | monthHyphen .. => 4
  | dayHyphen .. => 2

theorem begins (d : DayForm) {rest : List Char} (hrest : NoDigitAhead rest) :
    Begins 4 '-' d.hasHyphen d.count (d.text ++ rest) := by
  cases d with
  | extended y m e =>
    exact ⟨y, m.digits, '-' :: (e.digits ++ rest), by simp [text, hasHyphen],
      m.head?_append_ne (by decide) _ (by decide), m.allDigits, rfl, noDigitAhead_hyphen _⟩
  | basic y m e =>
    refine ⟨y, m.digits ++ e.digits, rest, by simp [text, hasHyphen], ?_,
      allDigits_append m.allDigits e.allDigits, ?_, hrest⟩
    · rw [List.append_assoc]
      exact m.head?_append_ne (by decide) _ (by decide)
    · rw [List.length_append, m.length_eq, e.length_eq, count]
  | monthHyphen y m e =>
    refine ⟨y, m.digits ++ e.digits, rest, by simp [text, hasHyphen], ?_,
      allDigits_append m.allDigits e.allDigits, ?_, hrest⟩
    · rw [List.append_assoc]
      exact m.head?_append_ne (by decide) _ (by decide)
    · rw [List.length_append, m.length_eq, e.length_eq, count]
  | dayHyphen y m e =>
    exact ⟨y, m.digits, '-' :: (e.digits ++ rest), by simp [text, hasHyphen],
      m.head?_append_ne (by decide) _ (by decide), m.allDigits, m.length_eq, noDigitAhead_hyphen _⟩

theorem text_cancel {d d' : DayForm} {s t : List Char} (hs : NoDigitAhead s) (ht : NoDigitAhead t)
    (h : d.text ++ s = d'.text ++ t) : d = d' ∧ s = t := by
  have hbegins := d.begins hs
  rw [h] at hbegins
  obtain ⟨hhyphen, hcount⟩ := hbegins.unique (d'.begins ht)
  cases d with
  | extended y m e =>
    have hmost := m.le_most
    cases d' with
    | extended y' m' e' =>
      simp only [text, List.append_assoc, List.cons_append] at h
      obtain ⟨rfl, hmonth⟩ := DigitRun.cancel h
      obtain ⟨rfl, hday⟩ := DigitRun.cancel_greedy (noDigitAhead_hyphen _) (noDigitAhead_hyphen _)
        (List.cons.inj hmonth).2
      obtain ⟨rfl, hrest⟩ := DigitRun.cancel_greedy hs ht (List.cons.inj hday).2
      exact ⟨rfl, hrest⟩
    | monthHyphen y' m' e' =>
      simp only [count] at hcount
      omega
    | _ => cases hhyphen
  | basic y m e =>
    cases d' with
    | basic y' m' e' =>
      simp only [text, List.append_assoc] at h
      obtain ⟨rfl, hmonth⟩ := DigitRun.cancel h
      obtain ⟨rfl, hday⟩ := DigitRun.cancel hmonth
      obtain ⟨rfl, hrest⟩ := DigitRun.cancel hday
      exact ⟨rfl, hrest⟩
    | dayHyphen y' m' e' => cases hcount
    | _ => cases hhyphen
  | monthHyphen y m e =>
    cases d' with
    | extended y' m' e' =>
      have hmost := m'.le_most
      simp only [count] at hcount
      omega
    | monthHyphen y' m' e' =>
      simp only [text, List.append_assoc, List.cons_append] at h
      obtain ⟨rfl, hmonth⟩ := DigitRun.cancel h
      obtain ⟨rfl, hday⟩ := DigitRun.cancel (List.cons.inj hmonth).2
      obtain ⟨rfl, hrest⟩ := DigitRun.cancel hday
      exact ⟨rfl, hrest⟩
    | _ => cases hhyphen
  | dayHyphen y m e =>
    cases d' with
    | basic y' m' e' => cases hcount
    | dayHyphen y' m' e' =>
      simp only [text, List.append_assoc, List.cons_append] at h
      obtain ⟨rfl, hmonth⟩ := DigitRun.cancel h
      obtain ⟨rfl, hday⟩ := DigitRun.cancel hmonth
      obtain ⟨rfl, hrest⟩ := DigitRun.cancel_greedy hs ht (List.cons.inj hday).2
      exact ⟨rfl, hrest⟩
    | _ => cases hhyphen

end DayForm

namespace ClockForm

def hasColon : ClockForm → Bool
  | hour .. => false
  | minute _ colon _ | second _ colon .. | loneSecond _ colon .. => colon

def count : ClockForm → Nat
  | hour .. => 0
  | minute .. => 2
  | second _ _ _ secondColon s _ => if secondColon then 2 else 2 + s.digits.length
  | loneSecond .. => 1

theorem begins (c : ClockForm) {rest : List Char} (hrest : EndsClock rest) :
    Begins 2 ':' c.hasColon c.count (c.text ++ rest) := by
  cases c with
  | hour h =>
    exact ⟨h, [], rest, by simp [text, hasColon], hrest.head?_ne (by decide), allDigits_nil, rfl,
      hrest.noDigitAhead⟩
  | minute h colon m =>
    exact ⟨h, m.digits, rest, by simp [text, hasColon], m.head?_append_ne (by decide) _ (by decide),
      m.allDigits, m.length_eq, hrest.noDigitAhead⟩
  | second h minuteColon m secondColon s f =>
    have hbehind := TimestampParts.noDigitAhead_fractionText? f hrest
    cases secondColon with
    | false =>
      refine ⟨h, m.digits ++ s.digits, fractionText? f ++ rest, by simp [text, hasColon], ?_,
        allDigits_append m.allDigits s.allDigits, ?_, hbehind⟩
      · rw [List.append_assoc]
        exact m.head?_append_ne (by decide) _ (by decide)
      · rw [List.length_append, m.length_eq]
        rfl
    | true =>
      exact ⟨h, m.digits, ':' :: (s.digits ++ (fractionText? f ++ rest)), by simp [text, hasColon],
        m.head?_append_ne (by decide) _ (by decide), m.allDigits, m.length_eq,
        noDigitAhead_cons (by decide)⟩
  | loneSecond h colon s f =>
    exact ⟨h, s.digits, fractionText? f ++ rest, by simp [text, hasColon],
      s.head?_append_ne (by decide) _ (by decide), s.allDigits, s.length_eq,
      TimestampParts.noDigitAhead_fractionText? f hrest⟩

theorem two_le_count_second (h m : DigitRun 2 2) (b b' : Bool) (n : DigitRun 1 2)
    (f : Option SecondFraction) : 2 ≤ (second h b m b' n f).count := by
  cases b'
  all_goals simp [count]

/-- Behind minutes alone there is neither a colon nor a digit. -/
theorem minute_ne_second {h m h' m' : DigitRun 2 2} {colon minuteColon secondColon : Bool}
    {n : DigitRun 1 2} {f : Option SecondFraction} {s t : List Char} (hs : EndsClock s) :
    (minute h colon m).text ++ s ≠ (second h' minuteColon m' secondColon n f).text ++ t := by
  intro heq
  simp only [text, List.append_assoc] at heq
  obtain ⟨_, hbehind⟩ := DigitRun.cancel heq
  obtain ⟨_, hminutes⟩ := separator_cancel (m.head?_append_ne (by decide) _ (by decide))
    (m'.head?_append_ne (by decide) _ (by decide)) hbehind
  obtain ⟨_, hseconds⟩ := DigitRun.cancel hminutes
  rw [hseconds] at hs
  cases secondColon with
  | true => exact hs.head?_ne (c := ':') (by decide) rfl
  | false => exact n.not_noDigitAhead (by decide) _ hs.noDigitAhead

theorem text_cancel {c c' : ClockForm} {s t : List Char} (hs : EndsClock s) (ht : EndsClock t)
    (h : c.text ++ s = c'.text ++ t) : c = c' ∧ s = t := by
  have hbegins := c.begins hs
  rw [h] at hbegins
  obtain ⟨_, hcount⟩ := hbegins.unique (c'.begins ht)
  cases c with
  | hour hh =>
    cases c' with
    | hour hh' =>
      obtain ⟨rfl, hrest⟩ := DigitRun.cancel h
      exact ⟨rfl, hrest⟩
    | second hh' minuteColon' m' secondColon' n' f' =>
      have hle := two_le_count_second hh' m' minuteColon' secondColon' n' f'
      rw [← hcount] at hle
      cases hle
    | _ => cases hcount
  | minute hh colon m =>
    cases c' with
    | minute hh' colon' m' =>
      simp only [text, List.append_assoc] at h
      obtain ⟨rfl, hminutes⟩ := DigitRun.cancel h
      obtain ⟨rfl, hdigits⟩ := separator_cancel (m.head?_append_ne (by decide) _ (by decide))
        (m'.head?_append_ne (by decide) _ (by decide)) hminutes
      obtain ⟨rfl, hrest⟩ := DigitRun.cancel hdigits
      exact ⟨rfl, hrest⟩
    | second hh' minuteColon' m' secondColon' n' f' => exact absurd h (minute_ne_second hs)
    | _ => cases hcount
  | second hh minuteColon m secondColon n f =>
    have hle := two_le_count_second hh m minuteColon secondColon n f
    cases c' with
    | hour hh' =>
      rw [hcount] at hle
      cases hle
    | minute hh' colon' m' => exact absurd h.symm (minute_ne_second ht)
    | second hh' minuteColon' m' secondColon' n' f' =>
      simp only [text, List.append_assoc] at h
      obtain ⟨rfl, hminutes⟩ := DigitRun.cancel h
      obtain ⟨rfl, hdigits⟩ := separator_cancel (m.head?_append_ne (by decide) _ (by decide))
        (m'.head?_append_ne (by decide) _ (by decide)) hminutes
      obtain ⟨rfl, hseconds⟩ := DigitRun.cancel hdigits
      obtain ⟨rfl, hsecond⟩ := separator_cancel (n.head?_append_ne (by decide) _ (by decide))
        (n'.head?_append_ne (by decide) _ (by decide)) hseconds
      obtain ⟨rfl, hfraction⟩ := DigitRun.cancel_greedy
        (TimestampParts.noDigitAhead_fractionText? f hs)
        (TimestampParts.noDigitAhead_fractionText? f' ht) hsecond
      obtain ⟨rfl, hrest⟩ := fractionText?_cancel hs ht hfraction
      exact ⟨rfl, hrest⟩
    | loneSecond hh' colon' n' f' =>
      rw [hcount] at hle
      cases hle
      contradiction
  | loneSecond hh colon n f =>
    cases c' with
    | second hh' minuteColon' m' secondColon' n' f' =>
      have hle := two_le_count_second hh' m' minuteColon' secondColon' n' f'
      rw [← hcount] at hle
      cases hle
      contradiction
    | loneSecond hh' colon' n' f' =>
      simp only [text, List.append_assoc] at h
      obtain ⟨rfl, hseconds⟩ := DigitRun.cancel h
      obtain ⟨rfl, hsecond⟩ := separator_cancel (n.head?_append_ne (by decide) _ (by decide))
        (n'.head?_append_ne (by decide) _ (by decide)) hseconds
      obtain ⟨rfl, hfraction⟩ := DigitRun.cancel hsecond
      obtain ⟨rfl, hrest⟩ := fractionText?_cancel hs ht hfraction
      exact ⟨rfl, hrest⟩
    | _ => cases hcount

end ClockForm

/-! ### Whole texts -/

theorem signText_injective {west west' : Bool} (h : signText west = signText west') :
    west = west' := by
  revert west west'
  decide

namespace OffsetForm

/-- The length of the text, cut off at five. -/
def cappedLength : OffsetForm → Nat
  | utc => 1
  | hours .. => 3
  | openColon .. => 4
  | minutes .. => 5

theorem cappedLength_eq (o : OffsetForm) : o.cappedLength = min o.text.length 5 := by
  cases o with
  | utc => rfl
  | hours west h =>
    rw [cappedLength, text, List.length_cons, h.length_eq]
    rfl
  | minutes west h colon m =>
    have hhours := h.length_eq
    have hminutes := m.length_eq
    cases colon
    all_goals simp [text, cappedLength, hhours, hminutes]
  | openColon west h =>
    rw [cappedLength, text, List.length_cons, List.length_append, h.length_eq]
    rfl

theorem text_injective {o o' : OffsetForm} (h : o.text = o'.text) : o = o' := by
  have hlength : o.cappedLength = o'.cappedLength := by rw [cappedLength_eq, cappedLength_eq, h]
  cases o with
  | utc =>
    cases o' with
    | utc => rfl
    | _ => cases hlength
  | hours west hh =>
    cases o' with
    | hours west' h' =>
      obtain ⟨hsign, hdigits⟩ := List.cons.inj h
      rw [signText_injective hsign, DigitRun.eq_of_digits hdigits]
    | _ => cases hlength
  | minutes west hh colon m =>
    cases o' with
    | minutes west' h' colon' m' =>
      obtain ⟨hsign, hrest⟩ := List.cons.inj h
      obtain ⟨rfl, hminutes⟩ := DigitRun.cancel hrest
      have hhead : ∀ run : DigitRun 2 2, run.digits.head? ≠ some ':' := by
        intro run
        have hne := run.head?_append_ne (by decide) [] (c := ':') (by decide)
        rwa [List.append_nil] at hne
      obtain ⟨rfl, hdigits⟩ := separator_cancel (hhead m) (hhead m') hminutes
      rw [signText_injective hsign, DigitRun.eq_of_digits hdigits]
    | _ => cases hlength
  | openColon west hh =>
    cases o' with
    | openColon west' h' =>
      obtain ⟨hsign, hrest⟩ := List.cons.inj h
      obtain ⟨rfl, _⟩ := DigitRun.cancel hrest
      rw [signText_injective hsign]
    | _ => cases hlength

theorem text_ne_nil (o : OffsetForm) : o.text ≠ [] := by
  cases o
  all_goals exact List.cons_ne_nil _ _

end OffsetForm

theorem offsetText?_injective {o o' : Option OffsetForm} (h : offsetText? o = offsetText? o') :
    o = o' := by
  cases o with
  | none =>
    cases o' with
    | none => rfl
    | some o' => exact absurd h.symm o'.text_ne_nil
  | some o =>
    cases o' with
    | none => exact absurd h o.text_ne_nil
    | some o' => exact congrArg some (OffsetForm.text_injective h)

namespace DayForm

theorem length_text (d : DayForm) : 8 ≤ d.text.length := by
  cases d
  all_goals
    rename_i year month day
    have hyear := year.least_le
    have hmonth := month.least_le
    have hday := day.least_le
    simp only [text, List.length_append, List.length_cons]
    omega

end DayForm

namespace TimestampForm

/-- How many of year, month and day the form gives. -/
def precision : TimestampForm → Nat
  | year .. => 1
  | month .. => 2
  | day .. | moment .. => 3

theorem precision_eq (f : TimestampForm) :
    f.precision = if f.text.length ≤ 4 then 1 else if f.text.length ≤ 7 then 2 else 3 := by
  cases f with
  | year y =>
    have hlength : (year y).text.length ≤ 4 := y.le_most
    rw [if_pos hlength, precision]
  | month y m =>
    have hlength : (month y m).text.length = 4 + (m.digits.length + 1) := by
      rw [text, List.length_append, List.length_cons, y.length_eq]
    have hleast := m.least_le
    have hmost := m.le_most
    rw [if_neg (by omega), if_pos (by omega), precision]
  | day d =>
    have hlength : 8 ≤ (day d).text.length := d.length_text
    rw [if_neg (by omega), if_neg (by omega), precision]
  | moment d space c o =>
    have hlength : 8 ≤ (moment d space c o).text.length := by
      have hday := d.length_text
      rw [text, List.length_append]
      omega
    rw [if_neg (by omega), if_neg (by omega), precision]

/-- No text has two forms. -/
theorem text_injective {f g : TimestampForm} (h : f.text = g.text) : f = g := by
  have hprecision : f.precision = g.precision := by
    rw [precision_eq, precision_eq, h]
  cases f with
  | year y =>
    cases g with
    | year y' => rw [DigitRun.eq_of_digits h]
    | _ => cases hprecision
  | month y m =>
    cases g with
    | month y' m' =>
      obtain ⟨rfl, hmonth⟩ := DigitRun.cancel h
      rw [DigitRun.eq_of_digits (List.cons.inj hmonth).2]
    | _ => cases hprecision
  | day d =>
    cases g with
    | day d' =>
      have hsame : d.text ++ [] = d'.text ++ [] := by rw [List.append_nil, List.append_nil]; exact h
      obtain ⟨rfl, _⟩ := DayForm.text_cancel noDigitAhead_nil noDigitAhead_nil hsame
      rfl
    | moment d' space' c' o' =>
      have hsame : d.text ++ [] = (moment d' space' c' o').text := by rw [List.append_nil]; exact h
      obtain ⟨_, hrest⟩ :=
        DayForm.text_cancel noDigitAhead_nil (noDigitAhead_timeMark space' _) hsame
      cases hrest
    | _ => cases hprecision
  | moment d space c o =>
    cases g with
    | day d' =>
      have hsame : (moment d space c o).text = d'.text ++ [] := by rw [List.append_nil]; exact h
      obtain ⟨_, hrest⟩ :=
        DayForm.text_cancel (noDigitAhead_timeMark space _) noDigitAhead_nil hsame
      cases hrest
    | moment d' space' c' o' =>
      obtain ⟨rfl, hrest⟩ := DayForm.text_cancel (noDigitAhead_timeMark space _)
        (noDigitAhead_timeMark space' _) h
      obtain ⟨hmark, hclock⟩ := List.cons.inj hrest
      have hspace : space = space' := by
        revert hmark
        cases space
        all_goals
          cases space'
          all_goals decide
      obtain ⟨rfl, hoffset⟩ := ClockForm.text_cancel (endsClock_offsetText? o)
        (endsClock_offsetText? o') hclock
      rw [hspace, offsetText?_injective hoffset]
    | _ => cases hprecision

end TimestampForm

end SidecarIndex

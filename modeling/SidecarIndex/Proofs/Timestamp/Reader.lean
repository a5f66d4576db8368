import SidecarIndex.Proofs.Timestamp.Form

/-! # Reading the forms of timestamps

Each reader takes the text of its part of a form off the front, whatever stands behind it in a form,
and takes nothing else. So the texts that parts are read from are the texts of the forms, and the
parts that are read are those that the form denotes. -/

namespace SidecarIndex

/-! ### Digits and separators in front -/

theorem DigitRun.not_noDigitAhead {least most : Nat} (run : DigitRun least most)
    (hleast : 0 < least) (rest : List Char) : ¬ NoDigitAhead (run.digits ++ rest) := by
  obtain ⟨digits, hall, hlength, _⟩ := run
  cases digits with
  | nil =>
    rw [List.length_nil] at hlength
    omega
  | cons d digits =>
    intro hstop
    have hd : d.isDigit = true := hall d (List.mem_cons_self ..)
    rw [hstop d rfl] at hd
    cases hd

theorem DigitRun.head?_append_ne {least most : Nat} (run : DigitRun least most) (hleast : 0 < least)
    (rest : List Char) {c : Char} (hc : c.isDigit = false) :
    (run.digits ++ rest).head? ≠ some c := by
  intro hhead
  refine run.not_noDigitAhead hleast rest ?_
  intro d hd
  rw [Option.mem_def, hhead] at hd
  cases hd
  exact hc

theorem noDigitAhead_hyphen (s : List Char) : NoDigitAhead ('-' :: s) :=
  noDigitAhead_cons (by decide)

theorem noDigitAhead_timeMark (space : Bool) (s : List Char) :
    NoDigitAhead ((if space then ' ' else 'T') :: s) := by
  refine noDigitAhead_cons ?_
  split
  all_goals decide

theorem exists_separator (c : Char) (s : List Char) :
    ∃ present, s = separator c present ++ Scan.skip c s := by
  cases h : Scan.accept? c s with
  | none =>
    refine ⟨false, ?_⟩
    rw [Scan.skip, h]
    rfl
  | some rest =>
    refine ⟨true, ?_⟩
    rw [Scan.skip, h]
    exact Scan.accept?_eq_some_iff.1 h

theorem skip_separator {c : Char} {s : List Char} (present : Bool) (h : s.head? ≠ some c) :
    Scan.skip c (separator c present ++ s) = s := by
  cases present with
  | false => exact Scan.skip_of_head h
  | true => exact Scan.skip_head c s

theorem digits?_run {least most low high : Nat} (run : DigitRun low high) {rest : List Char}
    (hlow : least ≤ low) (hhigh : high ≤ most)
    (hrest : run.digits.length = most ∨ NoDigitAhead rest) :
    Scan.digits? least most (run.digits ++ rest) = some (run.value, rest) :=
  Scan.digits?_eq_some_iff.2 ⟨⟨run.digits, run.allDigits, hlow.trans run.least_le,
    run.le_most.trans hhigh⟩, rfl, rfl, hrest⟩

theorem digits?_fixed {width : Nat} (run : DigitRun width width) (rest : List Char) :
    Scan.digits? width width (run.digits ++ rest) = some (run.value, rest) :=
  digits?_run run (Nat.le_refl width) (Nat.le_refl width) (.inl run.length_eq)

theorem digits?_nothing {least most : Nat} {s : List Char} (hs : NoDigitAhead s)
    (hleast : 0 < least) (hmost : least ≤ most) : Scan.digits? least most s = none :=
  Scan.digits?_eq_none allDigits_nil hs hleast hmost

/-- What may stand behind a time of day: nothing, or what begins an offset. -/
def EndsClock (s : List Char) : Prop := ∀ c ∈ s.head?, c = 'Z' ∨ c = '+' ∨ c = '-'

theorem EndsClock.head?_ne {s : List Char} (h : EndsClock s) {c : Char}
    (hc : c ≠ 'Z' ∧ c ≠ '+' ∧ c ≠ '-') : s.head? ≠ some c := by
  intro hhead
  rcases h c hhead with hends | hends | hends
  · exact hc.1 hends
  · exact hc.2.1 hends
  · exact hc.2.2 hends

theorem EndsClock.noDigitAhead {s : List Char} (h : EndsClock s) : NoDigitAhead s := by
  intro c hc
  rcases h c hc with rfl | rfl | rfl
  all_goals decide

theorem endsClock_offsetText? (o : Option OffsetForm) : EndsClock (offsetText? o) := by
  have hsign : ∀ west, signText west = 'Z' ∨ signText west = '+' ∨ signText west = '-' := by decide
  intro c hc
  cases o with
  | none => cases hc
  | some o =>
    cases o with
    | utc =>
      cases hc
      exact .inl rfl
    | hours west h =>
      cases hc
      exact hsign west
    | minutes west h colon m =>
      cases hc
      exact hsign west
    | openColon west h =>
      cases hc
      exact hsign west

namespace TimestampParts

/-! ### Fractions -/

theorem fraction?_text (f : SecondFraction) {rest : List Char} (hrest : NoDigitAhead rest) :
    fraction? (f.text ++ rest) = some (f.nanoseconds, rest) := by
  have hread : Scan.billionths? (f.digits ++ rest) = some (f.nanoseconds, rest) :=
    Scan.billionths?_eq_some_iff.2 ⟨f.digits, f.allDigits, f.nonempty, rfl, hrest, rfl⟩
  cases hcomma : f.comma with
  | false =>
    have htext : f.text ++ rest = '.' :: (f.digits ++ rest) := by simp [SecondFraction.text, hcomma]
    rw [htext, fraction?, Scan.accept?_head]
    exact hread
  | true =>
    have htext : f.text ++ rest = ',' :: (f.digits ++ rest) := by simp [SecondFraction.text, hcomma]
    have hpoint : Scan.accept? '.' (',' :: (f.digits ++ rest)) = none := rfl
    rw [htext, fraction?, hpoint, Scan.accept?_head]
    exact hread

theorem fraction?_sound {s rest : List Char} {n : Nat} (h : fraction? s = some (n, rest)) :
    ∃ f : SecondFraction, s = f.text ++ rest ∧ n = f.nanoseconds := by
  unfold fraction? at h
  split at h
  · rename_i hpoint
    obtain ⟨run, hall, hne, rfl, _, rfl⟩ := Scan.billionths?_eq_some_iff.1 h
    exact ⟨⟨false, run, hall, hne⟩, Scan.accept?_eq_some_iff.1 hpoint, rfl⟩
  · obtain ⟨_, hcomma, hread⟩ := Option.bind_eq_some_iff.1 h
    obtain ⟨run, hall, hne, rfl, _, rfl⟩ := Scan.billionths?_eq_some_iff.1 hread
    exact ⟨⟨true, run, hall, hne⟩, Scan.accept?_eq_some_iff.1 hcomma, rfl⟩

theorem fraction?_of_endsClock {s : List Char} (h : EndsClock s) : fraction? s = none := by
  have hpoint := Scan.accept?_eq_none_iff.2 (h.head?_ne (c := '.') (by decide))
  have hcomma := Scan.accept?_eq_none_iff.2 (h.head?_ne (c := ',') (by decide))
  simp only [fraction?, hpoint, hcomma, Option.bind_none]

theorem attempt_fraction?_text (f : Option SecondFraction) {rest : List Char}
    (hrest : EndsClock rest) : Scan.attempt fraction? (fractionText? f ++ rest)
      = (f.map SecondFraction.nanoseconds, rest) := by
  cases f with
  | none => exact Scan.attempt_of_none (fraction?_of_endsClock hrest)
  | some f => exact Scan.attempt_of_some (fraction?_text f hrest.noDigitAhead)

theorem attempt_fraction?_sound {s rest : List Char} {found : Option Nat}
    (h : Scan.attempt fraction? s = (found, rest)) :
    ∃ f : Option SecondFraction, s = fractionText? f ++ rest ∧ found.getD 0 = nanoseconds? f := by
  rcases Scan.attempt_cases h with ⟨n, rfl, hread⟩ | ⟨rfl, rfl, _⟩
  · obtain ⟨f, htext, hvalue⟩ := fraction?_sound hread
    exact ⟨some f, htext, hvalue⟩
  · exact ⟨none, rfl, rfl⟩

theorem noDigitAhead_fractionText? (f : Option SecondFraction) {rest : List Char}
    (hrest : EndsClock rest) : NoDigitAhead (fractionText? f ++ rest) := by
  cases f with
  | none => exact hrest.noDigitAhead
  | some f =>
    refine noDigitAhead_cons ?_
    split
    all_goals decide

/-! ### Minutes and seconds -/

theorem minute?_text (colon : Bool) (m : DigitRun 2 2) (rest : List Char) :
    minute? (separator ':' colon ++ (m.digits ++ rest)) = some (m.value, rest) := by
  rw [minute?, skip_separator colon (m.head?_append_ne (by decide) rest (by decide))]
  exact digits?_fixed m rest

theorem minute?_of_endsClock {s : List Char} (h : EndsClock s) : minute? s = none := by
  rw [minute?, Scan.skip_of_head (h.head?_ne (by decide))]
  exact digits?_nothing h.noDigitAhead (by decide) (by decide)

theorem minute?_single (colon : Bool) (n : DigitRun 1 1) {rest : List Char}
    (hrest : NoDigitAhead rest) : minute? (separator ':' colon ++ (n.digits ++ rest)) = none := by
  have hlength := n.length_eq
  rw [minute?, skip_separator colon (n.head?_append_ne (by decide) rest (by decide))]
  exact Scan.digits?_eq_none n.allDigits hrest (by omega) (by decide)

theorem minute?_sound {s rest : List Char} {n : Nat} (h : minute? s = some (n, rest)) :
    ∃ (colon : Bool) (m : DigitRun 2 2), s = separator ':' colon ++ (m.digits ++ rest) ∧
      n = m.value := by
  obtain ⟨colon, hs⟩ := exists_separator ':' s
  obtain ⟨m, hskip, hvalue, _⟩ := Scan.digits?_eq_some_iff.1 h
  rw [hskip] at hs
  exact ⟨colon, m, hs, hvalue⟩

theorem second?_text {least most : Nat} (colon : Bool) (n : DigitRun least most)
    (f : Option SecondFraction) {rest : List Char} (hleast : 1 ≤ least) (hmost : most ≤ 2)
    (hrest : EndsClock rest) :
    second? (separator ':' colon ++ (n.digits ++ (fractionText? f ++ rest)))
      = some ((n.value, nanoseconds? f), rest) := by
  have hdigits := digits?_run n hleast hmost (.inr (noDigitAhead_fractionText? f hrest))
  have hvalue : (f.map SecondFraction.nanoseconds).getD 0 = nanoseconds? f := by
    cases f
    all_goals rfl
  simp only [second?, skip_separator colon (n.head?_append_ne hleast _ (c := ':') (by decide)),
    hdigits, attempt_fraction?_text f hrest, Option.bind_eq_bind, Option.bind_some, hvalue]
  rfl

theorem second?_of_endsClock {s : List Char} (h : EndsClock s) : second? s = none := by
  have hskip := Scan.skip_of_head (h.head?_ne (c := ':') (by decide))
  have hdigits : Scan.digits? 1 2 s = none := digits?_nothing h.noDigitAhead (by decide) (by decide)
  simp only [second?, hskip, hdigits, Option.bind_eq_bind, Option.bind_none]

theorem second?_sound {s rest : List Char} {second nanosecond : Nat}
    (h : second? s = some ((second, nanosecond), rest)) :
    ∃ (colon : Bool) (n : DigitRun 1 2) (f : Option SecondFraction),
      Scan.skip ':' s = n.digits ++ (fractionText? f ++ rest) ∧
      s = separator ':' colon ++ (n.digits ++ (fractionText? f ++ rest)) ∧
      second = n.value ∧ nanosecond = nanoseconds? f := by
  obtain ⟨colon, hs⟩ := exists_separator ':' s
  simp only [second?, Option.bind_eq_bind, Option.bind_eq_some_iff] at h
  obtain ⟨⟨value, behind⟩, hdigits, h⟩ := h
  obtain ⟨n, hskip, rfl, _⟩ := Scan.digits?_eq_some_iff.1 hdigits
  cases hattempt : Scan.attempt fraction? behind with
  | mk found left =>
    rw [hattempt] at h
    cases h
    obtain ⟨f, rfl, hvalue⟩ := attempt_fraction?_sound hattempt
    rw [hskip] at hs
    exact ⟨colon, n, f, hskip, hs, rfl, hvalue⟩

/-! ### Times of day -/

theorem clock?_text (p : TimestampParts) (c : ClockForm) {rest : List Char}
    (hrest : EndsClock rest) : clock? p (c.text ++ rest) = some (c.fill p, rest) := by
  cases c with
  | hour h =>
    have hminute := Scan.attempt_of_none (minute?_of_endsClock hrest)
    have hsecond := Scan.attempt_of_none (second?_of_endsClock hrest)
    simp only [clock?, ClockForm.text, digits?_fixed h rest, hminute, hsecond, Option.bind_eq_bind,
      Option.bind_some]
    rfl
  | minute h colon m =>
    have htext : (ClockForm.minute h colon m).text ++ rest
        = h.digits ++ (separator ':' colon ++ (m.digits ++ rest)) := by simp [ClockForm.text]
    have hminute := Scan.attempt_of_some (minute?_text colon m rest)
    have hsecond := Scan.attempt_of_none (second?_of_endsClock hrest)
    simp only [htext, clock?, digits?_fixed h, hminute, hsecond, Option.bind_eq_bind,
      Option.bind_some]
    rfl
  | second h minuteColon m secondColon s f =>
    have htext : (ClockForm.second h minuteColon m secondColon s f).text ++ rest
        = h.digits ++ (separator ':' minuteColon ++ (m.digits ++ (separator ':' secondColon
          ++ (s.digits ++ (fractionText? f ++ rest))))) := by simp [ClockForm.text]
    have hminute := Scan.attempt_of_some (minute?_text minuteColon m (separator ':' secondColon
      ++ (s.digits ++ (fractionText? f ++ rest))))
    have hsecond :=
      Scan.attempt_of_some (second?_text secondColon s f (by decide) (by decide) hrest)
    simp only [htext, clock?, digits?_fixed h, hminute, hsecond, Option.bind_eq_bind,
      Option.bind_some]
    rfl
  | loneSecond h colon s f =>
    have htext : (ClockForm.loneSecond h colon s f).text ++ rest
        = h.digits ++ (separator ':' colon ++ (s.digits ++ (fractionText? f ++ rest))) := by
      simp [ClockForm.text]
    -- One digit is too short for minutes, and the seconds start again where they were to stand.
    have hminute := Scan.attempt_of_none
      (minute?_single colon s (noDigitAhead_fractionText? f hrest))
    have hsecond := Scan.attempt_of_some (second?_text colon s f (by decide) (by decide) hrest)
    simp only [htext, clock?, digits?_fixed h, hminute, hsecond, Option.bind_eq_bind,
      Option.bind_some]
    rfl

/-- Where no minutes can be read, seconds have one digit. -/
theorem loneSecond_of_minute?_none {s rest : List Char} {second nanosecond : Nat}
    (hminute : minute? s = none) (h : second? s = some ((second, nanosecond), rest)) :
    ∃ (colon : Bool) (n : DigitRun 1 1) (f : Option SecondFraction),
      s = separator ':' colon ++ (n.digits ++ (fractionText? f ++ rest)) ∧ second = n.value ∧
      nanosecond = nanoseconds? f := by
  obtain ⟨colon, n, f, hskip, hs, hsecond, hnanosecond⟩ := second?_sound h
  have hshort : ¬ n.digits.length = 2 := by
    intro hlength
    let pair : DigitRun 2 2 := ⟨n.digits, n.allDigits, by omega, by omega⟩
    have hdigits := digits?_fixed pair (fractionText? f ++ rest)
    rw [minute?, hskip, hdigits] at hminute
    cases hminute
  have hmost := n.le_most
  exact ⟨colon, ⟨n.digits, n.allDigits, n.least_le, by omega⟩, f, hs, hsecond, hnanosecond⟩

theorem clock?_sound {p q : TimestampParts} {s rest : List Char} (h : clock? p s = some (q, rest)) :
    ∃ c : ClockForm, s = c.text ++ rest ∧ q = c.fill p := by
  simp only [clock?, Option.bind_eq_bind, Option.bind_eq_some_iff] at h
  obtain ⟨⟨hour, behind⟩, hdigits, h⟩ := h
  obtain ⟨hh, rfl, rfl, _⟩ := Scan.digits?_eq_some_iff.1 hdigits
  cases hminutes : Scan.attempt minute? behind with
  | mk minutes behind' =>
  cases hseconds : Scan.attempt second? behind' with
  | mk seconds left =>
  simp only [hminutes, hseconds] at h
  cases h
  rcases Scan.attempt_cases hminutes with ⟨minute, rfl, hminute⟩ | ⟨rfl, rfl, hnone⟩
  · obtain ⟨colon, m, rfl, rfl⟩ := minute?_sound hminute
    rcases Scan.attempt_cases hseconds with ⟨⟨second, nanosecond⟩, rfl, hsecond⟩ | ⟨rfl, rfl, _⟩
    · obtain ⟨secondColon, n, f, _, rfl, rfl, rfl⟩ := second?_sound hsecond
      exact ⟨.second hh colon m secondColon n f, by simp [ClockForm.text], rfl⟩
    · exact ⟨.minute hh colon m, by simp [ClockForm.text], rfl⟩
  · rcases Scan.attempt_cases hseconds with ⟨⟨second, nanosecond⟩, rfl, hsecond⟩ | ⟨rfl, rfl, _⟩
    · obtain ⟨colon, n, f, rfl, rfl, rfl⟩ := loneSecond_of_minute?_none hnone hsecond
      exact ⟨.loneSecond hh colon n f, by simp [ClockForm.text], rfl⟩
    · exact ⟨.hour hh, rfl, rfl⟩

/-! ### Offsets -/

theorem sign?_signText (west : Bool) (s : List Char) :
    sign? (signText west :: s) = some (west, s) := by
  cases west
  all_goals rfl

theorem sign?_sound {s rest : List Char} {west : Bool} (h : sign? s = some (west, rest)) :
    s = signText west :: rest := by
  unfold sign? at h
  split at h
  · rename_i hplus
    cases h
    exact Scan.accept?_eq_some_iff.1 hplus
  · obtain ⟨_, hminus, heq⟩ := Option.map_eq_some_iff.1 h
    cases heq
    exact Scan.accept?_eq_some_iff.1 hminus

theorem signedOffset?_hours (p : TimestampParts) (west : Bool) (h : DigitRun 2 2) (colon : Bool) :
    signedOffset? p (signText west :: (h.digits ++ separator ':' colon))
      = some ({ p with west := west, offsetHours := h.value, offsetMinutes := 0 }, []) := by
  have hskip : Scan.skip ':' (separator ':' colon) = [] := by
    cases colon
    all_goals rfl
  have hminutes : Scan.attempt (Scan.digits? 2 2) [] = (none, []) := rfl
  simp only [signedOffset?, sign?_signText, digits?_fixed h, hskip, hminutes, Option.bind_eq_bind,
    Option.bind_some]
  rfl

theorem signedOffset?_minutes (p : TimestampParts) (west : Bool) (h : DigitRun 2 2) (colon : Bool)
    (m : DigitRun 2 2) :
    signedOffset? p (signText west :: (h.digits ++ (separator ':' colon ++ m.digits)))
      = some ({ p with west := west, offsetHours := h.value, offsetMinutes := m.value }, []) := by
  have hdigits := digits?_fixed m []
  have hhead := m.head?_append_ne (by decide) [] (c := ':') (by decide)
  rw [List.append_nil] at hdigits hhead
  have hminutes := Scan.attempt_of_some hdigits
  simp only [signedOffset?, sign?_signText, digits?_fixed h, skip_separator colon hhead, hminutes,
    Option.bind_eq_bind, Option.bind_some]
  rfl

theorem offset_of_signed {p q : TimestampParts} {west : Bool} {s : List Char}
    (h : signedOffset? p (signText west :: s) = some (q, [])) :
    offset p (signText west :: s) = (q, []) := by
  have hutc : Scan.accept? 'Z' (signText west :: s) = none := by
    cases west
    all_goals rfl
  simp only [offset, hutc, Scan.attempt_of_some h, Option.getD_some]

theorem offset_text (p : TimestampParts) (o : Option OffsetForm) :
    offset p (offsetText? o) = (o.elim p (OffsetForm.fill p), []) := by
  cases o with
  | none => rfl
  | some o =>
    cases o with
    | utc => rfl
    | hours west h =>
      have hread := signedOffset?_hours p west h false
      rw [separator_false, List.append_nil] at hread
      exact offset_of_signed hread
    | minutes west h colon m => exact offset_of_signed (signedOffset?_minutes p west h colon m)
    | openColon west h => exact offset_of_signed (signedOffset?_hours p west h true)

theorem signedOffset?_sound {p q : TimestampParts} {s rest : List Char}
    (h : signedOffset? p s = some (q, rest)) :
    ∃ o : OffsetForm, s = o.text ++ rest ∧ q = o.fill p := by
  simp only [signedOffset?, Option.bind_eq_bind, Option.bind_eq_some_iff] at h
  obtain ⟨⟨west, behind⟩, hsign, ⟨hours, left⟩, hdigits, h⟩ := h
  have hs := sign?_sound hsign
  obtain ⟨hh, rfl, rfl, _⟩ := Scan.digits?_eq_some_iff.1 hdigits
  obtain ⟨colon, hcolon⟩ := exists_separator ':' left
  cases hminutes : Scan.attempt (Scan.digits? 2 2) (Scan.skip ':' left) with
  | mk minutes left' =>
  simp only [hminutes] at h
  cases h
  rcases Scan.attempt_cases hminutes with ⟨minute, rfl, hminute⟩ | ⟨rfl, rfl, _⟩
  · obtain ⟨m, hskip, rfl, _⟩ := Scan.digits?_eq_some_iff.1 hminute
    rw [hskip] at hcolon
    rw [hcolon] at hs
    exact ⟨.minutes west hh colon m, by simp [hs, OffsetForm.text], rfl⟩
  · rw [hcolon] at hs
    cases colon with
    | false => exact ⟨.hours west hh, by simpa [OffsetForm.text] using hs, rfl⟩
    | true => exact ⟨.openColon west hh, by simpa [OffsetForm.text] using hs, rfl⟩

theorem offset_sound {p q : TimestampParts} {s rest : List Char} (h : offset p s = (q, rest)) :
    ∃ o : Option OffsetForm, s = offsetText? o ++ rest ∧ q = o.elim p (OffsetForm.fill p) := by
  unfold offset at h
  split at h
  · rename_i hutc
    cases h
    exact ⟨some .utc, Scan.accept?_eq_some_iff.1 hutc, rfl⟩
  · cases hattempt : Scan.attempt (signedOffset? p) s with
    | mk found left =>
    simp only [hattempt] at h
    cases h
    rcases Scan.attempt_cases hattempt with ⟨q, rfl, hread⟩ | ⟨rfl, rfl, _⟩
    · obtain ⟨o, htext, hfill⟩ := signedOffset?_sound hread
      exact ⟨some o, htext, hfill⟩
    · exact ⟨none, rfl, rfl⟩

/-! ### Times and offsets -/

theorem time?_text (p : TimestampParts) (space : Bool) (c : ClockForm) (o : Option OffsetForm) :
    time? p ((if space then ' ' else 'T') :: (c.text ++ offsetText? o))
      = some (o.elim (c.fill p) (OffsetForm.fill (c.fill p))) := by
  have haccept : ((Scan.accept? 'T' ((if space then ' ' else 'T') :: (c.text ++ offsetText? o))).or
      (Scan.accept? ' ' ((if space then ' ' else 'T') :: (c.text ++ offsetText? o))))
      = some (c.text ++ offsetText? o) := by
    cases space
    all_goals rfl
  simp only [time?, List.isEmpty_cons, Bool.false_eq_true, if_false, haccept, Option.bind_eq_bind,
    Option.bind_some, clock?_text p c (endsClock_offsetText? o), offset_text, List.isEmpty_nil,
    if_true]

theorem time?_sound {p q : TimestampParts} {s : List Char} (h : time? p s = some q) :
    s = [] ∧ q = p ∨ ∃ (space : Bool) (c : ClockForm) (o : Option OffsetForm),
      s = (if space then ' ' else 'T') :: (c.text ++ offsetText? o) ∧
      q = o.elim (c.fill p) (OffsetForm.fill (c.fill p)) := by
  unfold time? at h
  split at h
  · rename_i hempty
    cases h
    exact .inl ⟨List.isEmpty_iff.1 hempty, rfl⟩
  · simp only [Option.bind_eq_bind, Option.bind_eq_some_iff] at h
    obtain ⟨behind, haccept, ⟨r, left⟩, hclock, h⟩ := h
    have hs : ∃ space : Bool, s = (if space then ' ' else 'T') :: behind := by
      rcases Option.or_eq_some_iff.1 haccept with hletter | ⟨_, hspace⟩
      · exact ⟨false, Scan.accept?_eq_some_iff.1 hletter⟩
      · exact ⟨true, Scan.accept?_eq_some_iff.1 hspace⟩
    obtain ⟨space, rfl⟩ := hs
    obtain ⟨c, rfl, rfl⟩ := clock?_sound hclock
    cases hoffset : offset (c.fill p) left with
    | mk r rest =>
    simp only [hoffset] at h
    split at h
    · rename_i hempty
      cases h
      obtain ⟨o, rfl, rfl⟩ := offset_sound hoffset
      rw [List.isEmpty_iff.1 hempty, List.append_nil]
      exact .inr ⟨space, c, o, rfl, rfl⟩
    · cases h

/-! ### Dates -/

theorem month?_hyphen {least most : Nat} (m : DigitRun least most) {rest : List Char}
    (hleast : 1 ≤ least) (hmost : most ≤ 2) (hrest : m.digits.length = 2 ∨ NoDigitAhead rest) :
    month? ('-' :: (m.digits ++ rest)) = some (m.value, rest) := by
  rw [month?, Scan.accept?_head]
  exact digits?_run m hleast hmost hrest

theorem month?_plain (m : DigitRun 2 2) {rest : List Char} (hrest : rest ≠ []) :
    month? (m.digits ++ rest) = some (m.value, rest) := by
  have hempty : (m.digits ++ rest).isEmpty = false :=
    List.isEmpty_eq_false_iff.2 (List.append_ne_nil_of_right_ne_nil _ hrest)
  have hhyphen :=
    Scan.accept?_eq_none_iff.2 (m.head?_append_ne (by decide) rest (c := '-') (by decide))
  have hleft : (!rest.isEmpty) = true := by simp [hrest]
  simp only [month?, hempty, Bool.false_eq_true, if_false, hhyphen, digits?_fixed m]
  exact Option.filter_eq_some_iff.2 ⟨rfl, hleft⟩

theorem month?_sound {s rest : List Char} {n : Nat} (h : month? s = some (n, rest)) :
    (s = [] ∧ rest = [] ∧ n = 1) ∨
    (∃ m : DigitRun 1 2, s = '-' :: (m.digits ++ rest) ∧ n = m.value ∧
      (m.digits.length = 2 ∨ NoDigitAhead rest)) ∨
    ∃ m : DigitRun 2 2, s = m.digits ++ rest ∧ n = m.value ∧ rest ≠ [] := by
  unfold month? at h
  split at h
  · rename_i hempty
    cases h
    exact .inl ⟨List.isEmpty_iff.1 hempty, List.isEmpty_iff.1 hempty, rfl⟩
  · split at h
    · rename_i hhyphen
      obtain ⟨m, rfl, hvalue, hrest⟩ := Scan.digits?_eq_some_iff.1 h
      exact .inr (.inl ⟨m, Scan.accept?_eq_some_iff.1 hhyphen, hvalue, hrest⟩)
    · obtain ⟨hread, hleft⟩ := Option.filter_eq_some_iff.1 h
      obtain ⟨m, rfl, hvalue, _⟩ := Scan.digits?_eq_some_iff.1 hread
      exact .inr (.inr ⟨m, rfl, hvalue, by simpa using hleft⟩)

theorem day?_hyphen (d : DigitRun 1 2) {rest : List Char} (hrest : NoDigitAhead rest) :
    day? ('-' :: (d.digits ++ rest)) = some (d.value, rest) := by
  rw [day?, Scan.accept?_head]
  exact digits?_run d (by decide) (by decide) (.inr hrest)

theorem day?_plain (d : DigitRun 2 2) (rest : List Char) :
    day? (d.digits ++ rest) = some (d.value, rest) := by
  have hempty : (d.digits ++ rest).isEmpty = false := by
    have hlength := d.length_eq
    refine List.isEmpty_eq_false_iff.2 (List.append_ne_nil_of_left_ne_nil ?_ _)
    exact List.ne_nil_of_length_pos (by omega)
  have hhyphen :=
    Scan.accept?_eq_none_iff.2 (d.head?_append_ne (by decide) rest (c := '-') (by decide))
  simp only [day?, hempty, Bool.false_eq_true, if_false, hhyphen, digits?_fixed d]

theorem day?_sound {s rest : List Char} {n : Nat} (h : day? s = some (n, rest)) :
    (s = [] ∧ rest = [] ∧ n = 1) ∨
    (∃ d : DigitRun 1 2, s = '-' :: (d.digits ++ rest) ∧ n = d.value) ∨
    ∃ d : DigitRun 2 2, s = d.digits ++ rest ∧ n = d.value := by
  unfold day? at h
  split at h
  · rename_i hempty
    cases h
    exact .inl ⟨List.isEmpty_iff.1 hempty, List.isEmpty_iff.1 hempty, rfl⟩
  · split at h
    · rename_i hhyphen
      obtain ⟨d, rfl, hvalue, _⟩ := Scan.digits?_eq_some_iff.1 h
      exact .inr (.inl ⟨d, Scan.accept?_eq_some_iff.1 hhyphen, hvalue⟩)
    · obtain ⟨d, hs, hvalue, _⟩ := Scan.digits?_eq_some_iff.1 h
      exact .inr (.inr ⟨d, hs, hvalue⟩)

/-! ### Whole forms -/

theorem ofText?_day (d : DayForm) {rest : List Char} (hrest : NoDigitAhead rest) :
    ofText? (d.text ++ rest) = time? d.parts rest := by
  cases d with
  | extended y m d =>
    have htext : (DayForm.extended y m d).text ++ rest
        = y.digits ++ '-' :: (m.digits ++ '-' :: (d.digits ++ rest)) := by simp [DayForm.text]
    have hmonth :=
      month?_hyphen m (by decide) (by decide) (.inr (noDigitAhead_hyphen (d.digits ++ rest)))
    rw [htext]
    simp only [ofText?, digits?_fixed y, hmonth, day?_hyphen d hrest, Option.bind_eq_bind,
      Option.bind_some]
    rfl
  | basic y m d =>
    have htext : (DayForm.basic y m d).text ++ rest
        = y.digits ++ (m.digits ++ (d.digits ++ rest)) := by simp [DayForm.text]
    have hleft : d.digits ++ rest ≠ [] := by
      have hlength := d.length_eq
      refine List.append_ne_nil_of_left_ne_nil (List.ne_nil_of_length_pos ?_) _
      omega
    rw [htext]
    simp only [ofText?, digits?_fixed y, month?_plain m hleft, day?_plain d rest,
      Option.bind_eq_bind, Option.bind_some]
    rfl
  | monthHyphen y m d =>
    have htext : (DayForm.monthHyphen y m d).text ++ rest
        = y.digits ++ '-' :: (m.digits ++ (d.digits ++ rest)) := by simp [DayForm.text]
    have hmonth : month? ('-' :: (m.digits ++ (d.digits ++ rest)))
        = some (m.value, d.digits ++ rest) :=
      month?_hyphen m (by decide) (by decide) (.inl m.length_eq)
    rw [htext]
    simp only [ofText?, digits?_fixed y, hmonth, day?_plain d rest, Option.bind_eq_bind,
      Option.bind_some]
    rfl
  | dayHyphen y m d =>
    have htext : (DayForm.dayHyphen y m d).text ++ rest
        = y.digits ++ (m.digits ++ '-' :: (d.digits ++ rest)) := by simp [DayForm.text]
    have hmonth := month?_plain m (List.cons_ne_nil '-' (d.digits ++ rest))
    rw [htext]
    simp only [ofText?, digits?_fixed y, hmonth, day?_hyphen d hrest, Option.bind_eq_bind,
      Option.bind_some]
    rfl

theorem ofText?_text (f : TimestampForm) : ofText? f.text = some f.parts := by
  cases f with
  | year y =>
    have hyear := digits?_fixed y []
    rw [List.append_nil] at hyear
    simp only [TimestampForm.text, ofText?, hyear, Option.bind_eq_bind, Option.bind_some]
    rfl
  | month y m =>
    have hmonth := month?_hyphen m (by decide) (by decide) (.inr noDigitAhead_nil)
    rw [List.append_nil] at hmonth
    simp only [TimestampForm.text, ofText?, digits?_fixed y, hmonth, Option.bind_eq_bind,
      Option.bind_some]
    rfl
  | day d =>
    have hday := ofText?_day d noDigitAhead_nil
    rw [List.append_nil] at hday
    exact hday
  | moment d space c o =>
    exact (ofText?_day d (noDigitAhead_timeMark space _)).trans (time?_text d.parts space c o)

theorem exists_form_of_time? (d : DayForm) {rest : List Char} {p : TimestampParts}
    (h : time? d.parts rest = some p) : ∃ f : TimestampForm, f.text = d.text ++ rest ∧
    f.parts = p := by
  rcases time?_sound h with ⟨rfl, rfl⟩ | ⟨space, c, o, rfl, rfl⟩
  · exact ⟨.day d, (List.append_nil _).symm, rfl⟩
  · exact ⟨.moment d space c o, rfl, rfl⟩

theorem time?_nil {p q : TimestampParts} (h : time? p [] = some q) : q = p := by
  cases h
  rfl

theorem exists_form_of_ofText? {s : List Char} {p : TimestampParts} (h : ofText? s = some p) :
    ∃ f : TimestampForm, f.text = s ∧ f.parts = p := by
  simp only [ofText?, Option.bind_eq_bind, Option.bind_eq_some_iff] at h
  obtain ⟨⟨year, behind⟩, hyear, ⟨month, behind'⟩, hmonth, ⟨day, rest⟩, hday, htime⟩ := h
  obtain ⟨y, rfl, rfl, _⟩ := Scan.digits?_eq_some_iff.1 hyear
  rcases month?_sound hmonth with ⟨rfl, rfl, rfl⟩ | ⟨m, rfl, rfl, hgreedy⟩ | ⟨m, rfl, rfl, hne⟩
  · -- Behind a year alone there is nothing to read.
    cases hday
    exact ⟨.year y, (List.append_nil _).symm, (time?_nil htime).symm⟩
  · rcases day?_sound hday with ⟨rfl, rfl, rfl⟩ | ⟨d, rfl, rfl⟩ | ⟨d, rfl, rfl⟩
    · exact ⟨.month y m, by simp [TimestampForm.text], (time?_nil htime).symm⟩
    · obtain ⟨f, htext, hparts⟩ := exists_form_of_time? (.extended y m d) htime
      exact ⟨f, by simp [htext, DayForm.text], hparts⟩
    · -- A digit follows the month, so the month has taken two.
      have hlength : m.digits.length = 2 := by
        rcases hgreedy with hlength | hstop
        · exact hlength
        · exact absurd hstop (d.not_noDigitAhead (by decide) rest)
      let pair : DigitRun 2 2 := ⟨m.digits, m.allDigits, by omega, by omega⟩
      obtain ⟨f, htext, hparts⟩ := exists_form_of_time? (.monthHyphen y pair d) htime
      exact ⟨f, by simp [htext, DayForm.text, pair], hparts⟩
  · rcases day?_sound hday with ⟨rfl, _, _⟩ | ⟨d, rfl, rfl⟩ | ⟨d, rfl, rfl⟩
    · exact absurd rfl hne
    · obtain ⟨f, htext, hparts⟩ := exists_form_of_time? (.dayHyphen y m d) htime
      exact ⟨f, by simp [htext, DayForm.text], hparts⟩
    · obtain ⟨f, htext, hparts⟩ := exists_form_of_time? (.basic y m d) htime
      exact ⟨f, by simp [htext, DayForm.text], hparts⟩

/-- The parts that are read from a text are those of a form that the text has. -/
theorem ofText?_eq_some_iff {s : List Char} {p : TimestampParts} :
    ofText? s = some p ↔ ∃ f : TimestampForm, f.text = s ∧ f.parts = p := by
  apply Iff.intro
  · exact exists_form_of_ofText?
  · rintro ⟨f, rfl, rfl⟩
    exact ofText?_text f

end TimestampParts

end SidecarIndex

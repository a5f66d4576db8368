import SidecarIndex.Json.Reader
import SidecarIndex.Proofs.Number.Spelling
import SidecarIndex.Proofs.Outcome

/-! # Numbers of a side-car are read back

The text that a finite number has in a side-car is read as this number, with its sign, also that of
zero. Behind it has to stand something that cannot belong to a number. -/

namespace SidecarIndex.Json

/-- What stands in front cannot continue a number. -/
def EndsNumber (s : List Char) : Prop :=
  ∀ c ∈ s.head?, c.isDigit = false ∧ c ≠ '.' ∧ c ≠ 'e' ∧ c ≠ 'E'

theorem EndsNumber.noDigitAhead {s : List Char} (h : EndsNumber s) : NoDigitAhead s :=
  fun c hc => (h c hc).1

/-! ### The parts of a number -/

theorem digits_append {run rest : List Char} (hne : run ≠ []) (hrun : AllDigits run)
    (hrest : NoDigitAhead rest) : digits (run ++ rest) = .ok (run, rest) := by
  have hnonempty : run.isEmpty = false := by
    simpa using hne
  simp only [digits, takeWhile_digits hrun hrest, dropWhile_digits hrun hrest, hnonempty,
    Bool.false_eq_true, if_false]

theorem wholeDigits_append {run rest : List Char} (hne : run ≠ []) (hrun : AllDigits run)
    (hzero : run.head? = some '0' → run.length = 1) (hrest : NoDigitAhead rest) :
    wholeDigits (run ++ rest) = .ok (run, rest) := by
  rw [wholeDigits, digits_append hne hrun hrest]
  apply if_neg
  intro h
  have hlength := hzero h.1
  have hmore : 1 < run.length := h.2
  omega

theorem fractionDigits_point {run rest : List Char} (hne : run ≠ []) (hrun : AllDigits run)
    (hrest : NoDigitAhead rest) : fractionDigits ('.' :: (run ++ rest)) = .ok (run, rest) :=
  digits_append hne hrun hrest

theorem fractionDigits_none {rest : List Char} (h : ∀ c ∈ rest.head?, c ≠ '.') :
    fractionDigits rest = .ok ([], rest) := by
  unfold fractionDigits
  split
  · exact absurd rfl (h '.' rfl)
  · rfl

theorem exponentPart_none {rest : List Char} (h : EndsNumber rest) :
    exponentPart rest = .ok (none, rest) := by
  cases rest with
  | nil => rfl
  | cons c rest =>
    obtain ⟨_, _, he, hE⟩ := h c rfl
    simp only [exponentPart, he, hE, or_self, if_false]

theorem exponentPart_signed (exponent : Int) {rest : List Char} (h : EndsNumber rest) :
    exponentPart ('e' :: (if exponent < 0 then '-' else '+')
      :: (Nat.toDigits 10 exponent.natAbs ++ rest)) = .ok (some exponent, rest) := by
  have hdigits : digits (Nat.toDigits 10 exponent.natAbs ++ rest)
      = .ok (Nat.toDigits 10 exponent.natAbs, rest) :=
    digits_append Nat.toDigits_ne_nil (allDigits_toDigits _) h.noDigitAhead
  by_cases hneg : exponent < 0
  · have hvalue : -(exponent.natAbs : Int) = exponent := by omega
    simp only [exponentPart, hneg, if_true, true_or]
    rw [hdigits]
    simp only [bind_eq_ok_iff]
    exact ⟨_, rfl, by simp only [Decimal.valueOfDigits_toDigits, hvalue]⟩
  · have hvalue : (exponent.natAbs : Int) = exponent := by omega
    simp only [exponentPart, hneg, if_false, true_or, if_true]
    rw [hdigits]
    simp only [bind_eq_ok_iff]
    exact ⟨_, rfl, by simp [Decimal.valueOfDigits_toDigits, hvalue]⟩

/-- A number is read when its parts are and the decimal that they write denotes it. -/
theorem unsignedNumber_of_parts (negative : Bool) {m : Magnitude} {whole fraction : List Char}
    {exponent : Option Int} {s t u rest : List Char} (hwhole : wholeDigits s = .ok (whole, t))
    (hfraction : fractionDigits t = .ok (fraction, u))
    (hexponent : exponentPart u = .ok (exponent, rest))
    (hm : (Decimal.ofDigits whole fraction (exponent.getD 0)).Denotes m) :
    ∃ whole?, unsignedNumber negative s = .ok (.number (.finite negative m) whole?, rest) := by
  have hnumber : (Decimal.ofDigits whole fraction (exponent.getD 0)).toNumber negative
      = .finite negative m := by
    rw [Decimal.toNumber, hm]
  have hfinite : (Number.finite negative m).isFinite = true := rfl
  refine ⟨if fraction.isEmpty && exponent.isNone then
    wholeValue? negative (Decimal.valueOfDigits whole) else none, ?_⟩
  simp only [unsignedNumber, bind_eq_ok_iff]
  refine ⟨(whole, t), hwhole, (fraction, u), hfraction, (exponent, rest), hexponent, ?_⟩
  simp only [hnumber, hfinite, if_true]

/-! ### The layouts -/

theorem unsignedNumber_scientific {negative : Bool} {d : Decimal} {m : Magnitude} {rest : List Char}
    (hd : d.Denotes m) (h : EndsNumber rest) :
    ∃ whole?, unsignedNumber negative (d.scientific ++ rest)
      = .ok (.number (.finite negative m) whole?, rest) := by
  have hvalue : Decimal.valueOfDigits d.digitsText = d.digits := Decimal.valueOfDigits_toDigits _
  have hall : AllDigits d.digitsText := allDigits_toDigits _
  have hlength : d.magnitudeExponent = d.exponent + d.digitsText.length - 1 := rfl
  have hexponent := exponentPart_signed d.magnitudeExponent h
  have hahead : ∀ t, NoDigitAhead ('e' :: t) := fun t => noDigitAhead_cons (by decide)
  unfold Decimal.scientific
  cases hdigits : d.digitsText with
  | nil => exact absurd hdigits Nat.toDigits_ne_nil
  | cons c tail =>
    rw [hdigits] at hvalue hall hlength
    have hc : AllDigits [c] := by
      intro x hx
      rw [List.mem_singleton.1 hx]
      exact hall c (List.mem_cons_self ..)
    have htail : AllDigits tail := fun x hx => hall x (List.mem_cons_of_mem _ hx)
    have hdecimal : Decimal.ofDigits [c] tail d.magnitudeExponent = d := by
      obtain ⟨digits, exponent⟩ := d
      simp only [List.length_cons] at hlength
      simp only [Decimal.ofDigits, List.singleton_append, hvalue, Decimal.mk.injEq, true_and]
      omega
    have hm : (Decimal.ofDigits [c] tail ((some d.magnitudeExponent).getD 0)).Denotes m := by
      rw [Option.getD_some, hdecimal]
      exact hd
    cases tail with
    | nil =>
      have hwhole := wholeDigits_append (List.cons_ne_nil c []) hc (fun _ => rfl) (hahead
        ((if d.magnitudeExponent < 0 then '-' else '+') ::
          (Nat.toDigits 10 d.magnitudeExponent.natAbs ++ rest)))
      simpa using unsignedNumber_of_parts negative hwhole rfl hexponent hm
    | cons second others =>
      have hpoint : NoDigitAhead ('.' :: (second :: others ++ 'e' ::
          (if d.magnitudeExponent < 0 then '-' else '+') ::
          (Nat.toDigits 10 d.magnitudeExponent.natAbs ++ rest))) := noDigitAhead_cons (by decide)
      have hwhole := wholeDigits_append (List.cons_ne_nil c []) hc (fun _ => rfl) hpoint
      have hfraction := fractionDigits_point (List.cons_ne_nil second others) htail (hahead
        ((if d.magnitudeExponent < 0 then '-' else '+') ::
          (Nat.toDigits 10 d.magnitudeExponent.natAbs ++ rest)))
      simpa using unsignedNumber_of_parts negative hwhole hfraction hexponent hm

theorem unsignedNumber_places (negative : Bool) {m : Magnitude} {whole fraction rest : List Char}
    (hspells : Spells whole fraction m) (h : EndsNumber rest) :
    ∃ whole?, unsignedNumber negative (placesText whole fraction ++ rest)
      = .ok (.number (.finite negative m) whole?, rest) := by
  by_cases hfraction : fraction = []
  · subst hfraction
    rw [placesText, if_pos rfl]
    exact unsignedNumber_of_parts negative
      (wholeDigits_append hspells.nonempty hspells.wholeDigits hspells.zero h.noDigitAhead)
      (fractionDigits_none fun c hc => (h c hc).2.1) (exponentPart_none h) hspells.denotes
  · have hpoint : NoDigitAhead ('.' :: (fraction ++ rest)) := noDigitAhead_cons (by decide)
    rw [placesText, if_neg hfraction, List.append_assoc, List.cons_append]
    exact unsignedNumber_of_parts negative
      (wholeDigits_append hspells.nonempty hspells.wholeDigits hspells.zero hpoint)
      (fractionDigits_point hfraction hspells.fractionDigits h.noDigitAhead) (exponentPart_none h)
      hspells.denotes

/-- The text of a magnitude in a side-car is read as this magnitude. -/
theorem unsignedNumber_magnitudeText (negative : Bool) (m : Magnitude) {rest : List Char}
    (h : EndsNumber rest) :
    ∃ whole?, unsignedNumber negative (NumberLayout.sidecar.magnitudeText m ++ rest)
      = .ok (.number (.finite negative m) whole?, rest) := by
  by_cases hscientific :
      NumberLayout.sidecar.scientific (Decimal.shortest NumberLayout.sidecar.tie m) = true
  · rw [NumberLayout.magnitudeText, if_pos hscientific]
    exact unsignedNumber_scientific (Decimal.shortest_denotes ..) h
  · obtain ⟨whole, fraction, hspells, htext⟩ := NumberLayout.exists_spells_magnitudeText
      (Bool.eq_false_iff.2 hscientific) rfl
    rw [htext]
    exact unsignedNumber_places negative hspells h

/-! ### Numbers as values -/

theorem scalar_of_isDigit {c : Char} {tail : List Char} (h : c.isDigit = true) :
    scalar (c :: tail) = unsignedNumber false (c :: tail) := by
  unfold scalar
  split
  · contradiction
  iterate 5
    · rename_i heq
      cases heq
      exact absurd h (by decide)
  · rename_i heq
    cases heq
    exact if_pos h

theorem head_of_unsignedNumber {negative : Bool} {s : List Char} {r : Json × List Char}
    (h : unsignedNumber negative s = .ok r) : ∃ c tail, s = c :: tail ∧ c.isDigit = true := by
  simp only [unsignedNumber, wholeDigits, digits, bind_eq_ok_iff] at h
  obtain ⟨_, ⟨_, hdigits, _⟩, _⟩ := h
  cases s with
  | nil => cases hdigits
  | cons c tail =>
    refine ⟨c, tail, rfl, ?_⟩
    by_cases hc : c.isDigit = true
    · exact hc
    · simp [hc] at hdigits

theorem scalar_sidecarText (negative : Bool) (m : Magnitude) {rest : List Char}
    (h : EndsNumber rest) :
    ∃ whole?, scalar ((Number.finite negative m).sidecarText ++ rest)
      = .ok (.number (.finite negative m) whole?, rest) := by
  obtain ⟨whole?, hread⟩ := unsignedNumber_magnitudeText negative m h
  refine ⟨whole?, ?_⟩
  rw [Number.sidecarText]
  generalize NumberLayout.sidecar.magnitudeText m = text at hread ⊢
  cases negative with
  | true => exact hread
  | false =>
    have hsign : Number.signText false ++ text ++ rest = text ++ rest := rfl
    obtain ⟨c, tail, htext, hdigit⟩ := head_of_unsignedNumber hread
    rw [hsign, htext, scalar_of_isDigit hdigit, ← htext]
    exact hread

end SidecarIndex.Json

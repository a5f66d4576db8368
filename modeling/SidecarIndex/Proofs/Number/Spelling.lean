import SidecarIndex.Number.Reader
import SidecarIndex.Proofs.Number.Digits
import SidecarIndex.Proofs.Number.Denotation

/-! # Texts without an exponent

Digits, and a point only where digits stand after it. Both layouts write magnitudes in this way when
they write no exponent, and what is written denotes the magnitude. -/

namespace SidecarIndex

def placesText (whole fraction : List Char) : List Char :=
  if fraction = [] then whole else whole ++ '.' :: fraction

/-- Digits before and after a point that denote a magnitude. A zero in front stands alone. -/
structure Spells (whole fraction : List Char) (m : Magnitude) : Prop where
  nonempty : whole ≠ []
  wholeDigits : AllDigits whole
  fractionDigits : AllDigits fraction
  zero : whole.head? = some '0' → whole.length = 1
  denotes : (Decimal.ofDigits whole fraction 0).Denotes m

namespace Decimal

theorem exponent_le_of_denotes {d : Decimal} {m : Magnitude} (hdigits : d.digits ≠ 0)
    (hd : d.Denotes m) : d.exponent ≤ 400 := by
  refine Int.not_lt.1 fun hlarge => ?_
  rw [Denotes, magnitude?, if_neg hdigits, if_pos hlarge] at hd
  cases hd

theorem length_toDigits_of_head {n : Nat} (h : (Nat.toDigits 10 n).head? = some '0') :
    (Nat.toDigits 10 n).length = 1 := by
  by_cases hn : n = 0
  · rw [hn]
    rfl
  · exact absurd h (head_toDigits_ne_zero hn)

/-! ### The places of a decimal -/

theorem spells_zeros {digits places : Nat} {m : Magnitude} (hdigits : digits ≠ 0)
    (hlarge : places ≤ 400) (hd : Denotes ⟨digits, places⟩ m) :
    Spells (Nat.toDigits 10 digits ++ List.replicate places '0') [] m where
  nonempty := List.append_ne_nil_of_left_ne_nil Nat.toDigits_ne_nil _
  wholeDigits := allDigits_append (allDigits_toDigits digits) (allDigits_zeros places)
  fractionDigits := allDigits_nil
  zero := by
    have hfront := head_toDigits_ne_zero hdigits
    cases hlist : Nat.toDigits 10 digits with
    | nil => exact absurd hlist Nat.toDigits_ne_nil
    | cons c tail =>
      rw [hlist] at hfront
      exact fun hzero => absurd hzero hfront
  denotes := by
    have hvalue := valueOfDigits_append_zeros (Nat.toDigits 10 digits) places
    rw [valueOfDigits_toDigits] at hvalue
    rw [ofDigits, List.append_nil, hvalue]
    exact denotes_of_zeros hdigits hlarge hd

theorem spells_inside {digits places : Nat} {m : Magnitude} (hdigits : digits ≠ 0)
    (hlt : places < (Nat.toDigits 10 digits).length) (hd : Denotes ⟨digits, -places⟩ m) :
    Spells ((Nat.toDigits 10 digits).take ((Nat.toDigits 10 digits).length - places))
      ((Nat.toDigits 10 digits).drop ((Nat.toDigits 10 digits).length - places)) m := by
  have hhead := head_toDigits_ne_zero hdigits
  have hall := allDigits_toDigits digits
  have hvalue := valueOfDigits_toDigits digits
  generalize Nat.toDigits 10 digits = run at hlt hhead hall hvalue ⊢
  generalize hcut : run.length - places = cut
  have hlength : (run.drop cut).length = places := by
    rw [List.length_drop]
    omega
  have hnonempty : run.take cut ≠ [] := by
    intro hnil
    have hzero := congrArg List.length hnil
    rw [List.length_take, List.length_nil] at hzero
    omega
  have hnozero : (run.take cut).head? ≠ some '0' := by
    rw [List.head?_take, if_neg (by omega)]
    exact hhead
  have hdecimal : ofDigits (run.take cut) (run.drop cut) 0 = ⟨digits, -places⟩ := by
    rw [ofDigits, List.take_append_drop, hvalue, hlength, Int.zero_sub]
  exact ⟨hnonempty, fun c hc => hall c (List.mem_of_mem_take hc),
    fun c hc => hall c (List.mem_of_mem_drop hc), fun hzero => absurd hzero hnozero, hdecimal ▸ hd⟩

theorem spells_below {digits places : Nat} {m : Magnitude}
    (hle : (Nat.toDigits 10 digits).length ≤ places) (hd : Denotes ⟨digits, -places⟩ m) :
    Spells ['0'] (List.replicate (places - (Nat.toDigits 10 digits).length) '0'
      ++ Nat.toDigits 10 digits) m := by
  have hvalue := valueOfDigits_toDigits digits
  have hall := allDigits_toDigits digits
  generalize Nat.toDigits 10 digits = run at hle hall hvalue ⊢
  have hdecimal : ofDigits ['0'] (List.replicate (places - run.length) '0' ++ run) 0
      = ⟨digits, -places⟩ := by
    have hzeros := valueOfDigits_zeros_append (places - run.length + 1) run
    rw [hvalue, List.replicate_succ] at hzeros
    have hlength : (List.replicate (places - run.length) '0' ++ run).length = places := by
      rw [List.length_append, List.length_replicate]
      omega
    rw [ofDigits, hlength, Int.zero_sub]
    exact congrArg (Decimal.mk · _) hzeros
  exact ⟨List.cons_ne_nil _ _, allDigits_zeros 1, allDigits_append (allDigits_zeros _) hall,
    fun _ => rfl, hdecimal ▸ hd⟩

theorem exists_spells_positional {d : Decimal} {m : Magnitude} (hdigits : d.digits ≠ 0)
    (hd : d.Denotes m) :
    ∃ whole fraction, Spells whole fraction m ∧ d.positional = placesText whole fraction := by
  have hlarge := exponent_le_of_denotes hdigits hd
  obtain ⟨digits, exponent⟩ := d
  cases exponent with
  | ofNat places =>
    have hplaces : (places : Int) ≤ 400 := hlarge
    exact ⟨_, [], spells_zeros hdigits (by omega) hd, (if_pos rfl).symm⟩
  | negSucc places =>
    by_cases hlt : places + 1 < (Nat.toDigits 10 digits).length
    · have hspells := spells_inside hdigits hlt hd
      have hpoint : (Nat.toDigits 10 digits).drop ((Nat.toDigits 10 digits).length - (places + 1))
          ≠ [] := by
        rw [Ne, List.drop_eq_nil_iff]
        omega
      refine ⟨_, _, hspells, ?_⟩
      rw [placesText, if_neg hpoint]
      exact if_pos hlt
    · have hspells := spells_below (Nat.not_lt.1 hlt) hd
      refine ⟨_, _, hspells, ?_⟩
      rw [placesText, if_neg (List.append_ne_nil_of_right_ne_nil _ Nat.toDigits_ne_nil)]
      exact if_neg hlt

end Decimal

/-- A whole magnitude is written with a zero after the point. -/
theorem Magnitude.spells_whole {m : Magnitude} (h : m.isWhole = true) :
    Spells (Nat.toDigits 10 m.whole) ['0'] m where
  nonempty := Nat.toDigits_ne_nil
  wholeDigits := allDigits_toDigits m.whole
  fractionDigits := allDigits_zeros 1
  zero := Decimal.length_toDigits_of_head
  denotes := by
    have hvalue := Decimal.valueOfDigits_append_zeros (Nat.toDigits 10 m.whole) 1
    rw [Decimal.valueOfDigits_toDigits, Nat.pow_one] at hvalue
    have hdecimal : Decimal.ofDigits (Nat.toDigits 10 m.whole) ['0'] 0 = ⟨m.whole * 10, -1⟩ := by
      rw [← hvalue]
      rfl
    exact hdecimal ▸ Decimal.whole_denotes h

/-- A layout that puts a point behind zero writes every magnitude that it gives no exponent with
digits that denote it. -/
theorem NumberLayout.exists_spells_magnitudeText {layout : NumberLayout} {m : Magnitude}
    (hplain : layout.scientific (Decimal.shortest layout.tie m) = false)
    (hzero : layout.pointed Magnitude.zero = true) :
    ∃ whole fraction, Spells whole fraction m ∧
    layout.magnitudeText m = placesText whole fraction := by
  have hd := Decimal.shortest_denotes layout.tie m
  rw [magnitudeText]
  generalize Decimal.shortest layout.tie m = d at hplain hd ⊢
  simp only [hplain, Bool.false_eq_true, if_false]
  by_cases hpointed : (m.isWhole && layout.pointed m) = true
  · rw [if_pos hpointed]
    rw [Bool.and_eq_true] at hpointed
    exact ⟨_, _, m.spells_whole hpointed.1, (if_neg (by decide)).symm⟩
  · rw [if_neg hpointed]
    refine Decimal.exists_spells_positional ?_ hd
    -- A decimal without digits denotes zero, and zero has a point.
    intro hdigits
    have hmagnitude : d.magnitude? = some Magnitude.zero := if_pos hdigits
    rw [Decimal.Denotes, hmagnitude] at hd
    cases hd
    rw [Magnitude.isWhole_zero, hzero] at hpointed
    exact hpointed rfl

/-! ### Reading -/

theorem Spells.ofText? {whole fraction : List Char} {m : Magnitude} (h : Spells whole fraction m) :
    Decimal.ofText? (placesText whole fraction) = some (Decimal.ofDigits whole fraction 0) := by
  have hne : whole.isEmpty = false := by
    simpa using h.nonempty
  by_cases hfraction : fraction = []
  · subst hfraction
    have htake := takeWhile_digits h.wholeDigits noDigitAhead_nil
    have hdrop := dropWhile_digits h.wholeDigits noDigitAhead_nil
    rw [List.append_nil] at htake hdrop
    rw [placesText, if_pos rfl, Decimal.ofText?]
    simp [htake, hdrop, hne]
  · have hpoint : NoDigitAhead ('.' :: fraction) := noDigitAhead_cons (by decide)
    have htake := takeWhile_digits h.fractionDigits noDigitAhead_nil
    have hdrop := dropWhile_digits h.fractionDigits noDigitAhead_nil
    rw [List.append_nil] at htake hdrop
    rw [placesText, if_neg hfraction, Decimal.ofText?]
    simp [takeWhile_digits h.wholeDigits hpoint, dropWhile_digits h.wholeDigits hpoint, htake,
      hdrop, hne]

theorem Spells.placesText_ne_nil {whole fraction : List Char} {m : Magnitude}
    (h : Spells whole fraction m) : placesText whole fraction ≠ [] := by
  rw [placesText]
  split
  · exact h.nonempty
  · exact List.append_ne_nil_of_left_ne_nil h.nonempty _

theorem Spells.mem_placesText {whole fraction : List Char} {m : Magnitude}
    (h : Spells whole fraction m) {c : Char} (hc : c ∈ placesText whole fraction) :
    c.isDigit = true ∨ c = '.' := by
  rw [placesText] at hc
  by_cases hfraction : fraction = []
  · rw [if_pos hfraction] at hc
    exact .inl (h.wholeDigits c hc)
  · rw [if_neg hfraction, List.mem_append, List.mem_cons] at hc
    rcases hc with hc | rfl | hc
    · exact .inl (h.wholeDigits c hc)
    · exact .inr rfl
    · exact .inl (h.fractionDigits c hc)

namespace Number

theorem ofUnsignedText?_places (negative : Bool) {whole fraction : List Char} {m : Magnitude}
    (h : Spells whole fraction m) :
    ofUnsignedText? negative (placesText whole fraction) = some (finite negative m) := by
  have hdenotes : (Decimal.ofDigits whole fraction 0).magnitude? = some m := h.denotes
  simp only [ofUnsignedText?, h.ofText?, Decimal.toNumber, hdenotes]

theorem ofText?_unsigned {s : List Char} (h : ∀ c ∈ s.head?, c ≠ '-' ∧ c ≠ '+') :
    ofText? s = ofUnsignedText? false s := by
  unfold ofText?
  split
  · exact absurd rfl (h '-' rfl).1
  · exact absurd rfl (h '+' rfl).2
  · rfl

theorem pointed_zero : NumberLayout.shown.pointed Magnitude.zero = true := by
  have hone := stepsInOne_pos
  have hzero : Magnitude.zero.steps = 0 := rfl
  simp only [NumberLayout.shown, hzero]
  generalize stepsInOne = one at hone
  exact decide_eq_true (Nat.mul_pos (by decide) hone)

theorem exists_spells_shown (m : Magnitude) :
    ∃ whole fraction, Spells whole fraction m ∧
      NumberLayout.shown.magnitudeText m = placesText whole fraction :=
  NumberLayout.exists_spells_magnitudeText rfl pointed_zero

/-- The text that shows a finite number is read as this number, also that of negative zero. -/
theorem ofText?_shownText {n : Number} (h : n.isFinite = true) : ofText? n.shownText = some n := by
  cases n with
  | nan => cases h
  | infinite negative => cases h
  | finite negative m =>
    obtain ⟨whole, fraction, hspells, htext⟩ := exists_spells_shown m
    rw [shownText, htext]
    cases negative with
    | true => exact ofUnsignedText?_places true hspells
    | false =>
      have hsign : ∀ c ∈ (placesText whole fraction).head?, c ≠ '-' ∧ c ≠ '+' := by
        intro c hc
        rcases hspells.mem_placesText (List.mem_of_head? hc) with hdigit | rfl
        · refine ⟨?_, ?_⟩
          · rintro rfl
            exact absurd hdigit (by decide)
          · rintro rfl
            exact absurd hdigit (by decide)
        · decide
      have hread := ofUnsignedText?_places false hspells
      rwa [← ofText?_unsigned hsign] at hread

end Number

end SidecarIndex

import SidecarIndex.Proofs.Query.Operators

/-! # Thresholds

The order of values is transitive, and as strict as either of two steps. So a document that meets a
comparison with one literal also meets it with every literal that lies further in the direction of
the comparison, however the two literals are written. -/

namespace SidecarIndex

/-! ### Two steps in one direction -/

/-- Whether two outcomes lead the same way, where either may stand still. -/
def sameDirection (o p : Ordering) : Bool := (o.isLE && p.isLE) || (o.isGE && p.isGE)

theorem compare_of_sameDirection {α : Type} {cmp : α → α → Ordering} [Std.TransCmp cmp] {a b c : α}
    (h : sameDirection (cmp a b) (cmp b c) = true) : cmp a c = (cmp a b).then (cmp b c) := by
  cases hab : cmp a b with
  | eq => exact Std.TransCmp.congr_left hab
  | lt =>
    cases hbc : cmp b c with
    | lt => exact Std.TransCmp.lt_trans hab hbc
    | eq => exact Std.TransCmp.lt_of_lt_of_eq hab hbc
    | gt =>
      rw [hab, hbc] at h
      cases h
  | gt =>
    cases hbc : cmp b c with
    | gt => exact Std.TransCmp.gt_trans hab hbc
    | eq => exact Std.TransCmp.gt_of_gt_of_eq hab hbc
    | lt =>
      rw [hab, hbc] at h
      cases h

/-! ### The order of values is transitive -/

instance : Std.TransCmp Timestamp.compare :=
  inferInstanceAs (Std.TransCmp (compareLex (compareOn Timestamp.unixSeconds)
    (compareOn fun t : Timestamp => t.clock.nanosecond)))

theorem Number.compare?_eq_some_iff {a b : Number} {o : Ordering} :
    a.compare? b = some o ↔ ∃ x y, a.place? = some x ∧ b.place? = some y ∧ compare x y = o := by
  rw [compare?]
  cases a.place? with
  | none => simp
  | some x =>
    cases b.place? with
    | none => simp
    | some y => simp

namespace Value

theorem compare?_swap (v w : Value) : w.compare? v = (v.compare? w).map Ordering.swap := by
  cases v with
  | number a =>
    cases w with
    | number b =>
      simp only [compare?, Number.compare?]
      cases a.place? with
      | none =>
        cases b.place?
        all_goals rfl
      | some x =>
        cases b.place? with
        | none => rfl
        | some y => exact congrArg some Std.OrientedOrd.eq_swap
    | _ => rfl
  | text s =>
    cases w with
    | text t => exact congrArg some Std.OrientedOrd.eq_swap
    | _ => rfl
  | boolean b =>
    cases w with
    | boolean c => exact congrArg some Std.OrientedOrd.eq_swap
    | _ => rfl
  | timestamp t =>
    cases w with
    | timestamp u =>
      have hswap : u.compare t = (t.compare u).swap := Std.OrientedCmp.eq_swap
      exact congrArg some hswap
    | _ => rfl

theorem compare?_trans {u v w : Value} {o p : Ordering} (huv : u.compare? v = some o)
    (hvw : v.compare? w = some p) (h : sameDirection o p = true) :
    u.compare? w = some (o.then p) := by
  cases u with
  | number a =>
    cases v with
    | number b =>
      cases w with
      | number c =>
        obtain ⟨x, y, hx, hy, rfl⟩ := Number.compare?_eq_some_iff.1 huv
        obtain ⟨y', z, hy', hz, rfl⟩ := Number.compare?_eq_some_iff.1 hvw
        cases hy.symm.trans hy'
        exact Number.compare?_eq_some_iff.2 ⟨x, z, hx, hz, compare_of_sameDirection h⟩
      | _ => cases hvw
    | _ => cases huv
  | text s =>
    cases v with
    | text t =>
      cases w with
      | text r =>
        cases huv
        cases hvw
        exact congrArg some (compare_of_sameDirection h)
      | _ => cases hvw
    | _ => cases huv
  | boolean b =>
    cases v with
    | boolean c =>
      cases w with
      | boolean d =>
        cases huv
        cases hvw
        exact congrArg some (compare_of_sameDirection h)
      | _ => cases hvw
    | _ => cases huv
  | timestamp t =>
    cases v with
    | timestamp r =>
      cases w with
      | timestamp s =>
        cases huv
        cases hvw
        have hthen : t.compare s = (t.compare r).then (r.compare s) := compare_of_sameDirection h
        exact congrArg some hthen
      | _ => cases hvw
    | _ => cases huv

theorem ne_nan_of_compare? {v w : Value} {o : Ordering} (h : v.compare? w = some o) :
    v ≠ .number .nan ∧ w ≠ .number .nan := by
  refine ⟨?_, ?_⟩
  · rintro rfl
    rw [compare?_swap, compare?_nan] at h
    cases h
  · rintro rfl
    rw [compare?_nan] at h
    cases h

end Value

namespace Document

variable {d : Document} {name near far : String} {values : List Value} {x y : Value}

/-! ### Moving a threshold -/

/-- A value that has been compared with one reading compares with a reading further on in the same
direction as the two steps together. -/
theorem Compares.matches_far (hnear : d.Compares name near values x)
    (hfar : d.Compares name far values y)
    {o : Ordering} (hxy : x.compare? y = some o) {op op' : Operator}
    (hselects : ∀ p, op.selects p = true → sameDirection p o = true ∧ op'.selects (p.then o) = true)
    (h : d.Matches name near op) : d.Matches name far op' := by
  obtain ⟨v, hv, p, hp, hop⟩ := (hnear.matches_iff op).1 h
  obtain ⟨hdirection, hop'⟩ := hselects p hop
  exact (hfar.matches_iff op').2 ⟨v, hv, p.then o, Value.compare?_trans hp hxy hdirection, hop'⟩

/-- Of two literals with readings in order, a loaded document that has a smaller value than the
first has a smaller one than the second, and one with a greater value than the second has a greater
one than the first, and so where values may also be equal. Where the first reading is strictly
smaller, the comparison with the other literal is strict. -/
theorem thresholds_monotone {text : String} (h : ofText text = .ok d) {first : Value}
    {rest : List Value} (hvalues : d.get? name = some (first :: rest)) {low high : String}
    (hlow : Value.ofLiteral? low first.variant = some x)
    (hhigh : Value.ofLiteral? high first.variant = some y) :
    (x.compare? y = some .lt ∨ x.compare? y = some .eq →
      (d.Matches name low .lt → d.Matches name high .lt) ∧
      (d.Matches name low .le → d.Matches name high .le) ∧
      (d.Matches name high .gt → d.Matches name low .gt) ∧
      (d.Matches name high .ge → d.Matches name low .ge)) ∧
    (x.compare? y = some .lt →
      (d.Matches name low .le → d.Matches name high .lt) ∧
      (d.Matches name high .ge → d.Matches name low .gt) ∧
      (d.Matches name low .eq → d.Matches name high .lt)) := by
  obtain ⟨hstorable, _⟩ := isStorable_of_ofText h
  have hcompares : ∀ {o}, x.compare? y = some o →
      d.Compares name low (first :: rest) x ∧ d.Compares name high (first :: rest) y := by
    intro o ho
    obtain ⟨hx, hy⟩ := Value.ne_nan_of_compare? ho
    exact ⟨hstorable.compares hvalues hlow hx, hstorable.compares hvalues hhigh hy⟩
  have hback : ∀ {o}, x.compare? y = some o → y.compare? x = some o.swap := by
    intro o ho
    rw [Value.compare?_swap, ho, Option.map_some]
  refine ⟨?_, ?_⟩
  · intro hle
    rcases hle with ho | ho
    all_goals
      obtain ⟨hx, hy⟩ := hcompares ho
      exact ⟨hx.matches_far hy ho (by decide), hx.matches_far hy ho (by decide),
        hy.matches_far hx (hback ho) (by decide), hy.matches_far hx (hback ho) (by decide)⟩
  · intro ho
    obtain ⟨hx, hy⟩ := hcompares ho
    exact ⟨hx.matches_far hy ho (by decide), hy.matches_far hx (hback ho) (by decide),
      hx.matches_far hy ho (by decide)⟩

/-- A month against an hour of its first day at another offset, and a zero with an exponent against
infinity. -/
theorem thresholds_monotone_of_forms :
    ∃ d, ofText "\x7b\"due\": [\"#2016-04-01\", \"#2017\"], \"size\": [0]\x7d" = .ok d ∧
      (d.Matches "due" "2016-04" .eq ∧ d.Matches "due" "#2016-04-01T02:00+01:00" .lt) ∧
      (d.Matches "due" "#2016-04-01T02:00+01:00" .gt ∧ d.Matches "due" "2016-04" .gt) ∧
      d.Matches "size" "-0e7" .le ∧ d.Matches "size" "inf" .lt := by
  let midnight : Clock := ⟨0, 0, 0, 0, by decide, by decide, by decide, by decide⟩
  let april : Value := .timestamp ⟨⟨2016, 4, 1, by decide, by decide⟩, midnight, .utc⟩
  let later : Value := .timestamp ⟨⟨2016, 4, 1, by decide, by decide⟩,
    ⟨2, 0, 0, 0, by decide, by decide, by decide, by decide⟩, ⟨3600, by decide, by decide⟩⟩
  let dates : List Value := [april, .timestamp ⟨⟨2017, 1, 1, by decide, by decide⟩, midnight, .utc⟩]
  let d : Document := .ofList [("due", dates), ("size", [.number .zero])]
  have hok : ofText "\x7b\"due\": [\"#2016-04-01\", \"#2017\"], \"size\": [0]\x7d" = .ok d := by
    decide +kernel
  have heq : d.Matches "due" "2016-04" .eq := by
    unfold Matches
    decide +kernel
  have hgt : d.Matches "due" "#2016-04-01T02:00+01:00" .gt := by
    unfold Matches
    decide +kernel
  have hle : d.Matches "size" "-0e7" .le := by
    unfold Matches
    decide +kernel
  have hapril : Value.ofLiteral? "2016-04" .timestamp = some april := by decide +kernel
  have hlater : Value.ofLiteral? "#2016-04-01T02:00+01:00" .timestamp
      = some later := by decide +kernel
  have hzero : Value.ofLiteral? "-0e7" .number
      = some (.number (.finite true .zero)) := by decide +kernel
  have hinf : Value.ofLiteral? "inf" .number = some (.number (.infinite false)) := by decide +kernel
  have hdue : d.get? "due" = some dates := by decide
  have hsize : d.get? "size" = some [.number .zero] := by decide
  obtain ⟨hrise, hstrict⟩ := thresholds_monotone hok hdue hapril hlater
  obtain ⟨_, hsizes⟩ := thresholds_monotone hok hsize hzero hinf
  exact ⟨d, hok, ⟨heq, (hstrict (by decide)).2.2 heq⟩, ⟨hgt, (hrise (by decide)).2.2.1 hgt⟩,
    hle, (hsizes (by decide +kernel)).1 hle⟩

end Document

end SidecarIndex

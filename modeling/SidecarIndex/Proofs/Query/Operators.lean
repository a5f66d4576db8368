import SidecarIndex.Query.Selection
import SidecarIndex.Proofs.Document.Storable

/-! # The six operators

Equality of two values is one of the outcomes of their comparison, so each operator selects some of
these outcomes. In a loaded document all values of an attribute compare with a reading of the
literal, unless the literal reads as no number; then only inequality holds. -/

namespace SidecarIndex

/-! ### The order of values -/

theorem Number.exists_place? {n : Number} (h : n ≠ .nan) : ∃ x, n.place? = some x := by
  cases n with
  | nan => exact absurd rfl h
  | infinite negative =>
    cases negative
    all_goals exact ⟨_, rfl⟩
  | finite negative m =>
    cases negative
    all_goals exact ⟨_, rfl⟩

namespace Value

/-- Two values are equal exactly when they compare as equal, numbers that are none and values of
different variants included. -/
theorem same_eq_true_iff (v w : Value) : v.same w = true ↔ v.compare? w = some .eq := by
  cases v with
  | number n =>
    cases w with
    | number m => exact beq_iff_eq
    | _ => simp [same, compare?]
  | text s =>
    cases w with
    | text t =>
      simp only [same, compare?, beq_iff_eq, Option.some.injEq]
      exact Std.LawfulEqOrd.compare_eq_iff_eq.symm
    | _ => simp [same, compare?]
  | boolean b =>
    cases w with
    | boolean c =>
      simp only [same, compare?, beq_iff_eq, Option.some.injEq]
      exact Std.LawfulEqOrd.compare_eq_iff_eq.symm
    | _ => simp [same, compare?]
  | timestamp t =>
    cases w with
    | timestamp u =>
      simp only [same, compare?, Option.some.injEq]
      exact (t.compare_eq_iff_same u).symm
    | _ => simp [same, compare?]

theorem exists_compare? {v w : Value} (hvariant : v.variant = w.variant) (hv : v ≠ .number .nan)
    (hw : w ≠ .number .nan) : ∃ o, v.compare? w = some o := by
  cases v with
  | number n =>
    cases w with
    | number m =>
      obtain ⟨x, hx⟩ := Number.exists_place? fun h => hv (congrArg number h)
      obtain ⟨y, hy⟩ := Number.exists_place? fun h => hw (congrArg number h)
      exact ⟨compare x y, by simp only [compare?, Number.compare?, hx, hy]⟩
    | _ => cases hvariant
  | text s =>
    cases w with
    | text t => exact ⟨_, rfl⟩
    | _ => cases hvariant
  | boolean b =>
    cases w with
    | boolean c => exact ⟨_, rfl⟩
    | _ => cases hvariant
  | timestamp t =>
    cases w with
    | timestamp u => exact ⟨_, rfl⟩
    | _ => cases hvariant

theorem compare?_nan (v : Value) : v.compare? (.number .nan) = none := by
  cases v with
  | number n =>
    rw [compare?, Number.compare?]
    cases n.place?
    all_goals rfl
  | _ => rfl

theorem ne_nan_of_isStorable {v : Value} (h : v.isStorable = true) : v ≠ .number .nan := by
  intro heq
  rw [heq] at h
  cases h

end Value

/-! ### Outcomes that an operator selects -/

namespace Operator

/-- Whether the operator holds where a value compares with a literal as given. -/
def selects : Operator → Ordering → Bool
  | eq, o => o == .eq
  | ne, o => o != .eq
  | lt, o => o == .lt
  | gt, o => o == .gt
  | le, o => o.isLE
  | ge, o => o.isGE

/-- The one of `<`, `=` and `>` that selects the outcome. -/
def ofOutcome : Ordering → Operator
  | .lt => lt
  | .eq => eq
  | .gt => gt

theorem existsUnique_selects (o : Ordering) :
    ∃! op : Operator, op ∈ [.lt, .eq, .gt] ∧ op.selects o = true := by
  refine ⟨ofOutcome o, ?_, ?_⟩
  · cases o
    all_goals decide
  · intro op
    cases o
    all_goals
      cases op
      all_goals decide

theorem holds_of_compare? {value literal : Value} {o : Ordering}
    (h : value.compare? literal = some o)
    (op : Operator) : op.holds value literal = op.selects o := by
  have hsame : value.same literal = (o == .eq) := by
    rw [Bool.eq_iff_iff, Value.same_eq_true_iff, h, Option.some.injEq, beq_iff_eq]
  cases op with
  | eq => exact hsame
  | ne => exact congrArg not hsame
  | lt | gt | le | ge =>
    rw [holds, h]
    cases o
    all_goals rfl

theorem holds_of_compare?_none {value literal : Value} (h : value.compare? literal = none)
    (op : Operator) : op.holds value literal = true ↔ op = .ne := by
  have hsame : value.same literal = false := by
    rw [Bool.eq_false_iff, Ne, Value.same_eq_true_iff, h]
    simp
  cases op
  all_goals simp [holds, hsame, h]

end Operator

/-! ### Comparisons of a document -/

/-- The document meets the comparison of the attribute with the literal. -/
def Document.Matches (d : Document) (name literal : String) (op : Operator) : Prop :=
  (Predicate.comparison name op literal).accepts d = true

/-- The attribute has values, and all of them compare with the reading of the literal. -/
structure Document.Compares (d : Document) (name literal : String) (values : List Value)
    (reading : Value) : Prop where
  operands : Predicate.operands? d name literal = some (values, reading)
  nonempty : values ≠ []
  orders : ∀ v ∈ values, ∃ o, v.compare? reading = some o

namespace Document

variable {d : Document} {name literal : String} {values : List Value} {reading : Value}

theorem operands?_of_get? {first : Value} {rest : List Value}
    (hvalues : d.get? name = some (first :: rest)) (literal : String) :
    Predicate.operands? d name literal
      = (Value.ofLiteral? literal first.variant).map fun reading => (first :: rest, reading) := by
  simp only [Predicate.operands?, hvalues, List.head?_cons, Option.bind_eq_bind, Option.bind_some]
  cases Value.ofLiteral? literal first.variant
  all_goals rfl

theorem not_matches_of_operands?_none (h : Predicate.operands? d name literal = none)
    (op : Operator) : ¬ d.Matches name literal op := by
  simp [Matches, Predicate.accepts, h]

theorem matches_iff_exists_holds (h : Predicate.operands? d name literal = some (values, reading))
    (op : Operator) : d.Matches name literal op ↔ ∃ v ∈ values, op.holds v reading = true := by
  simp only [Matches, Predicate.accepts, h, List.any_eq_true]

namespace Compares

theorem matches_iff (h : d.Compares name literal values reading) (op : Operator) :
    d.Matches name literal op ↔ ∃ v ∈ values, ∃ o, v.compare? reading = some o ∧
    op.selects o = true := by
  rw [matches_iff_exists_holds h.operands]
  apply exists_congr
  intro v
  apply and_congr_right
  intro hv
  obtain ⟨o, ho⟩ := h.orders v hv
  rw [Operator.holds_of_compare? ho, ho]
  simp

theorem matches_or_iff (h : d.Compares name literal values reading) {op front back : Operator}
    (hor : ∀ o, op.selects o = (front.selects o || back.selects o)) :
    d.Matches name literal op ↔ d.Matches name literal front ∨ d.Matches name literal back := by
  simp only [h.matches_iff, hor, Bool.or_eq_true, and_or_left, exists_or]

theorem matches_strictly (h : d.Compares name literal values reading) :
    d.Matches name literal .lt ∨ d.Matches name literal .eq ∨ d.Matches name literal .gt := by
  obtain ⟨v, hv⟩ := List.exists_mem_of_ne_nil values h.nonempty
  obtain ⟨o, ho⟩ := h.orders v hv
  simp only [h.matches_iff]
  cases o with
  | lt => exact .inl ⟨v, hv, .lt, ho, rfl⟩
  | eq => exact .inr (.inl ⟨v, hv, .eq, ho, rfl⟩)
  | gt => exact .inr (.inr ⟨v, hv, .gt, ho, rfl⟩)

theorem existsUnique_of_singleton {v : Value} (h : d.Compares name literal [v] reading) :
    ∃! op : Operator, op ∈ [.lt, .eq, .gt] ∧ d.Matches name literal op := by
  obtain ⟨o, ho⟩ := h.orders v (List.mem_singleton_self v)
  have hmatches : ∀ op : Operator, d.Matches name literal op ↔ op.selects o = true := by
    intro op
    rw [h.matches_iff]
    simp [ho]
  simp only [hmatches]
  exact Operator.existsUnique_selects o

end Compares

theorem matches_nan_iff (h : Predicate.operands? d name literal = some (values, .number .nan))
    (hnonempty : values ≠ []) (op : Operator) : d.Matches name literal op ↔ op = .ne := by
  rw [matches_iff_exists_holds h]
  simp only [Operator.holds_of_compare?_none (Value.compare?_nan _)]
  obtain ⟨v, hv⟩ := List.exists_mem_of_ne_nil values hnonempty
  exact ⟨fun ⟨_, _, hop⟩ => hop, fun hop => ⟨v, hv, hop⟩⟩

theorem IsStorable.allOf_of_get? {first : Value} {rest : List Value} (hd : d.IsStorable)
    (hvalues : d.get? name = some (first :: rest)) : AllOf first.variant (first :: rest) := by
  obtain ⟨variant, hall⟩ := (hd _ (OrderedMap.mem_entries_of_get? hvalues)).homogeneous
  rw [hall first (List.mem_cons_self ..)]
  exact hall

/-- In a document that can be stored, all values of an attribute compare with a reading of the
literal in their variant. -/
theorem IsStorable.compares {first : Value} {rest : List Value} (hd : d.IsStorable)
    (hvalues : d.get? name = some (first :: rest))
    (hreading : Value.ofLiteral? literal first.variant = some reading)
    (hnan : reading ≠ .number .nan) : d.Compares name literal (first :: rest) reading where
  operands := by
    rw [operands?_of_get? hvalues literal, hreading, Option.map_some]
  nonempty := List.cons_ne_nil first rest
  orders := by
    intro v hv
    have hvariant : v.variant = reading.variant :=
      (hd.allOf_of_get? hvalues v hv).trans (Value.variant_of_ofLiteral? hreading).symm
    have hstorable := (hd _ (OrderedMap.mem_entries_of_get? hvalues)).storable v hv
    exact Value.exists_compare? hvariant (Value.ne_nan_of_isStorable hstorable) hnan

/-- In a loaded document no operator holds for an attribute that is missing or has no value, nor
against a literal without a reading in the variant of the values. Otherwise `<=`, `>=` and `!=` are
what they are made of and one of `<`, `=` and `>` holds, just one for a single value; against a
literal that reads as no number `!=` alone holds. -/
theorem operators_cohere {text : String} (h : ofText text = .ok d) (name literal : String) :
    (d.get? name = none → ∀ op, ¬ d.Matches name literal op) ∧
    ∀ values, d.get? name = some values →
      (values = [] → ∀ op, ¬ d.Matches name literal op) ∧
      ∀ first ∈ values.head?, AllOf first.variant values ∧
        (Value.ofLiteral? literal first.variant = none → ∀ op, ¬ d.Matches name literal op) ∧
        ∀ reading, Value.ofLiteral? literal first.variant = some reading →
          (reading ≠ .number .nan →
            (d.Matches name literal .le ↔ d.Matches name literal .lt ∨ d.Matches name literal .eq) ∧
            (d.Matches name literal .ge ↔ d.Matches name literal .gt ∨ d.Matches name literal .eq) ∧
            (d.Matches name literal .ne ↔ d.Matches name literal .lt ∨ d.Matches name literal .gt) ∧
            (d.Matches name literal .lt ∨ d.Matches name literal .eq ∨ d.Matches name literal .gt) ∧
            (values.length = 1 →
              ∃! op : Operator, op ∈ [.lt, .eq, .gt] ∧ d.Matches name literal op)) ∧
          (reading = .number .nan → ∀ op, d.Matches name literal op ↔ op = .ne) := by
  obtain ⟨hstorable, _⟩ := isStorable_of_ofText h
  refine ⟨?_, ?_⟩
  · intro hnone op
    exact not_matches_of_operands?_none (by simp [Predicate.operands?, hnone]) op
  · intro values hvalues
    refine ⟨?_, ?_⟩
    · intro hnil op
      rw [hnil] at hvalues
      exact not_matches_of_operands?_none (by simp [Predicate.operands?, hvalues]) op
    · intro first hfirst
      obtain ⟨rest, rfl⟩ := List.head?_eq_some_iff.1 hfirst
      have hoperands := operands?_of_get? hvalues literal
      refine ⟨hstorable.allOf_of_get? hvalues, ?_, ?_⟩
      · intro hnone
        rw [hnone] at hoperands
        exact not_matches_of_operands?_none hoperands
      · intro reading hreading
        refine ⟨?_, ?_⟩
        · intro hnan
          have hcompares := hstorable.compares hvalues hreading hnan
          refine ⟨hcompares.matches_or_iff (by decide), hcompares.matches_or_iff (by decide),
            hcompares.matches_or_iff (by decide), hcompares.matches_strictly, ?_⟩
          intro hlength
          rw [List.length_cons, Nat.add_eq_right, List.length_eq_zero_iff] at hlength
          rw [hlength] at hcompares
          exact hcompares.existsUnique_of_singleton
        · intro hnan
          rw [hreading, hnan] at hoperands
          exact matches_nan_iff hoperands (List.cons_ne_nil first rest)

/-- Zeros of both signs against a zero, `NaN` and a word, and a name that is missing. -/
theorem operators_cohere_of_zeros : ∃ d, ofText "\x7b\"level\": [0, -0.0]\x7d" = .ok d ∧
    d.Matches "level" "0e5" .eq ∧ d.Matches "level" "0e5" .le ∧ d.Matches "level" "0e5" .ge ∧
    (∀ op, d.Matches "level" "NaN" op ↔ op = .ne) ∧ (∀ op, ¬ d.Matches "level" "zero" op) ∧
    ∀ op, ¬ d.Matches "size" "0" op := by
  let zeros : List Value := [.number .zero, .number (.finite true .zero)]
  let d : Document := .ofList [("level", zeros)]
  have hok : ofText "\x7b\"level\": [0, -0.0]\x7d" = .ok d := by decide +kernel
  have hvalues : d.get? "level" = some zeros := by decide
  have heq : d.Matches "level" "0e5" .eq := by
    unfold Matches
    decide +kernel
  obtain ⟨_, hlevel⟩ := operators_cohere hok "level" "0e5"
  obtain ⟨hle, hge, _⟩ :=
    (((hlevel zeros hvalues).2 _ rfl).2.2 (.number .zero) (by decide +kernel)).1
    (by decide)
  obtain ⟨_, hnan⟩ := operators_cohere hok "level" "NaN"
  obtain ⟨_, hzero⟩ := operators_cohere hok "level" "zero"
  obtain ⟨hsize, _⟩ := operators_cohere hok "size" "0"
  exact ⟨d, hok, heq, hle.2 (.inr heq), hge.2 (.inr heq),
    (((hnan zeros hvalues).2 _ rfl).2.2 (.number .nan) (by decide +kernel)).2 rfl,
    ((hzero zeros hvalues).2 _ rfl).2.1 (by decide +kernel), hsize (by decide)⟩

end Document

end SidecarIndex

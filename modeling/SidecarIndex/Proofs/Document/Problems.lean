import SidecarIndex.Proofs.Document.Shape
import SidecarIndex.Proofs.OrderedMap

/-! # The problems of a side-car

What a reader of the rules expects to be told about a side-car, pair by pair and in the order of the
text, and that this is what reading it reports: every problem once, in order, with nothing around
them, and no problem at all exactly where there is a document. -/

namespace SidecarIndex

/-! ### The rules -/

namespace RawScalar

/-- What is wrong with a scalar: a string that is no literal, or the mark of a timestamp before
something else. -/
def fault? : RawScalar → Option ValueFault
  | number _ => none
  | boolean _ => none
  | string s =>
    if isLiteral s.toList = false then some (.text s)
    else if s.toList.head? = some '#' ∧ Timestamp.ofText? s.toList.tail = none then
      some (.date (String.ofList s.toList.tail))
    else none

def reading? : RawScalar → Option Value
  | number n => some (.number n)
  | boolean b => some (.boolean b)
  | string s =>
    if isLiteral s.toList = false then none
    else if s.toList.head? = some '#' then (Timestamp.ofText? s.toList.tail).map .timestamp
    else some (.text s)

/-- A scalar is read as a value and has no fault, or it has the fault that is met. -/
theorem toValue_cases (scalar : RawScalar) :
    (∃ value, scalar.toValue = .ok value ∧ scalar.reading? = some value ∧ scalar.fault? = none) ∨
    ∃ fault, scalar.toValue = .error fault ∧ scalar.reading? = none ∧
      scalar.fault? = some fault := by
  cases scalar with
  | number n => exact .inl ⟨.number n, rfl, rfl, rfl⟩
  | boolean b => exact .inl ⟨.boolean b, rfl, rfl, rfl⟩
  | string s =>
    simp only [toValue, valueOfString, reading?, fault?]
    by_cases hliteral : isLiteral s.toList = true
    · simp only [hliteral, if_true, Bool.true_eq_false, if_false]
      cases hs : s.toList with
      | nil => exact .inl ⟨.text s, rfl, rfl, rfl⟩
      | cons c payload =>
        by_cases hc : c = '#'
        · subst hc
          cases ht : Timestamp.ofText? payload with
          | some t => exact .inl ⟨.timestamp t, by simp [ht]⟩
          | none => exact .inr ⟨.date (String.ofList payload), by simp [ht]⟩
        · exact .inl ⟨.text s, by simp [hc]⟩
    · exact .inr ⟨.text s, by simp [hliteral]⟩

theorem toValue_eq_ok_iff {scalar : RawScalar} {value : Value} :
    scalar.toValue = .ok value ↔ scalar.reading? = some value := by
  rcases scalar.toValue_cases with ⟨found, hvalue, hreading, _⟩ | ⟨fault, hvalue, hreading, _⟩
  · rw [hvalue, hreading, Except.ok.injEq, Option.some.injEq]
  · simp only [hvalue, hreading, reduceCtorEq]

theorem value?_eq_reading? : value? = reading? := by
  funext scalar
  rw [value?]
  rcases scalar.toValue_cases with ⟨value, hvalue, hreading, _⟩ | ⟨fault, hvalue, hreading, _⟩
  · rw [hvalue, hreading]
    rfl
  · rw [hvalue, hreading]
    rfl

theorem problem?_eq_fault? (scalar : RawScalar) :
    scalar.problem? = scalar.fault?.map .valueFormat := by
  rw [problem?]
  rcases scalar.toValue_cases with ⟨value, hvalue, _, hfault⟩ | ⟨fault, hvalue, _, hfault⟩
  · rw [hvalue, hfault]
    rfl
  · rw [hvalue, hfault]
    rfl

theorem problem?_eq_none_iff {scalar : RawScalar} :
    scalar.problem? = none ↔ ∃ value, scalar.reading? = some value := by
  rw [problem?_eq_fault?, Option.map_eq_none_iff]
  rcases scalar.toValue_cases with ⟨value, _, hreading, hfault⟩ | ⟨fault, _, hreading, hfault⟩
  · exact iff_of_true hfault ⟨value, hreading⟩
  · simp only [hreading, hfault, reduceCtorEq, exists_false]

end RawScalar

def mixedVariants? : List Value → Option (Variant × Variant)
  | [] => none
  | first :: rest =>
    (rest.find? fun value => value.variant ≠ first.variant).map fun other =>
      (first.variant, other.variant)

theorem commonVariant_eq_error_iff {values : List Value} {mixed : Variant × Variant} :
    commonVariant values = .error mixed ↔ mixedVariants? values = some mixed := by
  cases values with
  | nil => simp [commonVariant, mixedVariants?]
  | cons first rest =>
    simp only [commonVariant, mixedVariants?, List.find?_map, Function.comp_def]
    cases rest.find? fun value => decide (value.variant ≠ first.variant) <;> simp

theorem commonVariant_eq_ok_iff {values : List Value} {found : Option Variant} :
    commonVariant values = .ok found ↔
      found = values.head?.map Value.variant ∧ ∃ variant, AllOf variant values := by
  cases values with
  | nil =>
    apply Iff.intro
    · intro h
      cases h
      exact ⟨rfl, .text, fun _ hv => absurd hv List.not_mem_nil⟩
    · rintro ⟨rfl, _⟩
      rfl
  | cons first rest =>
    apply Iff.intro
    · intro h
      have hfound : found = some first.variant := by
        simp only [commonVariant] at h
        split at h
        · cases h
        · cases h
          rfl
      subst hfound
      exact ⟨rfl, first.variant, allOf_of_commonVariant h⟩
    · rintro ⟨rfl, variant, hall⟩
      have hfirst : first.variant = variant := hall first (List.mem_cons_self ..)
      exact commonVariant_cons_ok fun v hv => (hall v (List.mem_cons_of_mem _ hv)).trans hfirst.symm

namespace RawPair

def readings (pair : RawPair) : List Value := pair.2.filterMap RawScalar.reading?

/-- The problems of one pair, given the pairs before it. -/
def expected (earlier : List RawPair) (pair : RawPair) : List Problem :=
  (if isName pair.1.toList then [] else [.attributeFormat pair.1])
    ++ (if ∃ other ∈ earlier, other.1 = pair.1 then [.duplicateAttribute pair.1] else [])
    ++ (pair.2.filterMap RawScalar.fault?).map .valueFormat
    ++ (mixedVariants? pair.readings).toList.map fun mixed =>
      .typeHomogeneity pair.1 mixed.1 mixed.2

def expectedProblems (pairs : List RawPair) : List Problem :=
  pairs.zipIdx.flatMap fun place => place.1.expected (pairs.take place.2)

theorem values_eq_readings (pair : RawPair) : pair.values = pair.readings := by
  rw [values, RawScalar.value?_eq_reading?, readings]

theorem problems_eq_expected {seen : List String} {earlier : List RawPair}
    (h : ∀ name, name ∈ seen ↔ ∃ other ∈ earlier, other.1 = name) (pair : RawPair) :
    pair.problems seen = pair.expected earlier := by
  have hfaults : pair.2.filterMap RawScalar.problem?
      = (pair.2.filterMap RawScalar.fault?).map Problem.valueFormat := by
    rw [List.map_filterMap]
    exact congrFun (congrArg List.filterMap (funext RawScalar.problem?_eq_fault?)) _
  simp only [problems, expected, hfaults, h, values_eq_readings]
  congr 1
  cases hc : commonVariant pair.readings with
  | error mixed =>
    rw [commonVariant_eq_error_iff.1 hc]
    rfl
  | ok found =>
    have hnone : mixedVariants? pair.readings = none := by
      refine Option.eq_none_iff_forall_ne_some.2 fun mixed hmixed => ?_
      cases hc.symm.trans (commonVariant_eq_error_iff.2 hmixed)
    rw [hnone]
    rfl

/-- Going through the pairs with the names seen so far finds the problems of each at its place. -/
theorem allProblems_eq_expectedProblems (pairs : List RawPair) :
    allProblems [] pairs = expectedProblems pairs := by
  suffices hall : ∀ (seen : List String) (earlier rest : List RawPair), earlier ++ rest = pairs →
      (∀ name, name ∈ seen ↔ ∃ other ∈ earlier, other.1 = name) →
      allProblems seen rest
        = (rest.zipIdx earlier.length).flatMap fun place => place.1.expected (pairs.take place.2) by
    exact hall [] [] pairs rfl (by simp)
  intro seen earlier rest
  induction rest generalizing seen earlier with
  | nil =>
    intro _ _
    rfl
  | cons pair rest ih =>
    intro hpairs hseen
    have hearlier : pairs.take earlier.length = earlier := by
      rw [← hpairs, List.take_left]
    have hnext := ih (pair.1 :: seen) (earlier ++ [pair]) (by simpa using hpairs) (by
      intro name
      rw [List.mem_cons, hseen]
      apply Iff.intro
      · intro h
        rcases h with rfl | ⟨other, hother, rfl⟩
        · exact ⟨pair, by simp, rfl⟩
        · exact ⟨other, by simp [hother], rfl⟩
      · intro h
        obtain ⟨other, hother, rfl⟩ := h
        rcases List.mem_append.1 hother with hother | hother
        · exact .inr ⟨other, hother, rfl⟩
        · rw [List.mem_singleton.1 hother]
          exact .inl rfl)
    rw [allProblems, hnext, List.zipIdx_cons, List.flatMap_cons, hearlier,
      problems_eq_expected hseen, List.length_append, List.length_singleton]

/-! ### Pairs without problems -/

/-- A pair in which nothing is wrong but, maybe, that its name stands before it already. -/
structure IsSound (pair : RawPair) : Prop where
  isName : isName pair.1.toList = true
  reading : ∀ scalar ∈ pair.2, ∃ value, scalar.reading? = some value
  homogeneous : ∃ variant, AllOf variant pair.readings

theorem problems_eq_nil_iff {seen : List String} {pair : RawPair} :
    pair.problems seen = [] ↔ pair.1 ∉ seen ∧ pair.IsSound := by
  simp only [problems, List.append_eq_nil_iff, values_eq_readings, List.filterMap_eq_nil_iff]
  apply Iff.intro
  · intro h
    obtain ⟨⟨⟨hname, hseen⟩, hfaults⟩, hmixed⟩ := h
    refine ⟨?_, ?_, ?_, ?_⟩
    · intro hmem
      simp [hmem] at hseen
    · by_cases hvalid : SidecarIndex.isName pair.1.toList = true
      · exact hvalid
      · simp [hvalid] at hname
    · intro scalar hscalar
      exact RawScalar.problem?_eq_none_iff.1 (hfaults scalar hscalar)
    · cases hc : commonVariant pair.readings with
      | ok found => exact (commonVariant_eq_ok_iff.1 hc).2
      | error mixed => simp [hc] at hmixed
  · intro h
    obtain ⟨hseen, hname, hreading, hhomogeneous⟩ := h
    refine ⟨⟨⟨if_pos hname, if_neg hseen⟩, ?_⟩, ?_⟩
    · intro scalar hscalar
      exact RawScalar.problem?_eq_none_iff.2 (hreading scalar hscalar)
    · rw [commonVariant_eq_ok_iff.2 ⟨rfl, hhomogeneous⟩]

theorem allProblems_eq_nil_iff {seen : List String} {pairs : List RawPair} :
    allProblems seen pairs = [] ↔
      (pairs.map Prod.fst).Nodup ∧ ∀ pair ∈ pairs, pair.1 ∉ seen ∧ pair.IsSound := by
  induction pairs generalizing seen with
  | nil => simp [allProblems]
  | cons pair rest ih =>
    rw [allProblems, List.append_eq_nil_iff, problems_eq_nil_iff, ih, List.map_cons,
      List.nodup_cons, List.forall_mem_cons]
    simp only [List.mem_cons, not_or]
    apply Iff.intro
    · intro h
      obtain ⟨hpair, hnodup, hrest⟩ := h
      refine ⟨⟨?_, hnodup⟩, hpair, fun other hother =>
        ⟨(hrest other hother).1.2, (hrest other hother).2⟩⟩
      intro hmem
      obtain ⟨other, hother, heq⟩ := List.mem_map.1 hmem
      exact (hrest other hother).1.1 heq
    · intro h
      obtain ⟨⟨hfresh, hnodup⟩, hpair, hrest⟩ := h
      refine ⟨hpair, hnodup, fun other hother =>
        ⟨⟨?_, (hrest other hother).1⟩, (hrest other hother).2⟩⟩
      intro heq
      exact hfresh (List.mem_map.2 ⟨other, hother, heq⟩)

end RawPair

namespace DocumentError

theorem ofProblems?_eq_none_iff {problems : List Problem} :
    ofProblems? problems = none ↔ problems = [] := by
  cases problems with
  | nil => simp [ofProblems?]
  | cons first rest =>
    cases rest with
    | nil => simp [ofProblems?]
    | cons second rest => simp [ofProblems?]

theorem errors_of_ofProblems? {problems : List Problem} {error : DocumentError}
    (h : ofProblems? problems = some error) : error.errors = problems.map single := by
  cases problems with
  | nil => cases h
  | cons first rest =>
    cases rest with
    | nil =>
      cases h
      rfl
    | cons second rest =>
      cases h
      rfl

end DocumentError

/-! ### Reading -/

namespace Document

theorem ofPairs_eq_ok_iff {pairs : List RawPair} {d : Document} :
    ofPairs pairs = .ok d ↔ RawPair.allProblems [] pairs = [] ∧
      d = ofList (pairs.map fun pair => (pair.1, pair.readings)) := by
  have hvalues : (fun pair : RawPair => (pair.1, pair.values))
      = fun pair : RawPair => (pair.1, pair.readings) :=
    funext fun pair => by rw [RawPair.values_eq_readings]
  simp only [ofPairs, hvalues]
  cases h : DocumentError.ofProblems? (RawPair.allProblems [] pairs) with
  | none =>
    have hnone := DocumentError.ofProblems?_eq_none_iff.1 h
    simp [hnone, eq_comm]
  | some error =>
    have hsome : RawPair.allProblems [] pairs ≠ [] := by
      intro hnil
      rw [DocumentError.ofProblems?_eq_none_iff.2 hnil] at h
      cases h
    simp [hsome]

theorem ofText_eq_ok_iff {text : String} {d : Document} :
    ofText text = .ok d ↔ ∃ pairs, RawPair.Reads text.toList pairs ∧ ofPairs pairs = .ok d := by
  simp only [ofText, bind_eq_ok_iff, mapError_eq_ok_iff, RawPair.ofText_eq_ok_iff]

theorem ofText_of_reads {text : String} {pairs : List RawPair}
    (h : RawPair.Reads text.toList pairs) : ofText text = ofPairs pairs := by
  rw [ofText, RawPair.ofText_eq_ok_iff.2 h]
  rfl

theorem ofText_of_not_reads {text : String} (h : ∀ pairs, ¬ RawPair.Reads text.toList pairs) :
    ∃ fault, ofText text = .error (.structural fault) := by
  cases hpairs : RawPair.ofText text.toList with
  | ok pairs => exact absurd (RawPair.ofText_eq_ok_iff.1 hpairs) (h pairs)
  | error fault =>
    refine ⟨fault, ?_⟩
    rw [ofText, hpairs]
    rfl

theorem get?_of_ofPairs {pairs : List RawPair} {d : Document} (h : ofPairs pairs = .ok d)
    {name : String} {values : List Value} :
    d.get? name = some values ↔ ∃ pair ∈ pairs, pair.1 = name ∧ pair.readings = values := by
  obtain ⟨hnone, rfl⟩ := ofPairs_eq_ok_iff.1 h
  have hkeys : ((pairs.map fun pair => (pair.1, pair.readings)).map Prod.fst).Nodup := by
    rw [List.map_map]
    exact (RawPair.allProblems_eq_nil_iff.1 hnone).1
  rw [get?, ofList, OrderedMap.get?_ofList_eq_some_iff hkeys, List.mem_map]
  constructor
  · intro hmem
    obtain ⟨pair, hpair, heq⟩ := hmem
    cases heq
    exact ⟨pair, hpair, rfl, rfl⟩
  · intro hmem
    obtain ⟨pair, hpair, rfl, rfl⟩ := hmem
    exact ⟨pair, hpair, rfl⟩

/-- Reading a side-car reports exactly its problems. A text that is, as a whole, no object of lists
of scalars gives one structural error. Any other text gives the document of its pairs when the rules
find no problem, the problem itself when they find one, and else all of them, flat and in order. -/
theorem ofText_reports_problems (text : String) :
    ((∀ pairs, ¬ RawPair.Reads text.toList pairs) →
      ∃ fault, ofText text = .error (.structural fault)
        ∧ (DocumentError.structural fault).errors = [.structural fault]) ∧
    ∀ pairs, RawPair.Reads text.toList pairs →
      (RawPair.expectedProblems pairs = [] → ∃ d, ofText text = .ok d ∧
        ∀ name values, d.get? name = some values ↔
          ∃ pair ∈ pairs, pair.1 = name ∧ pair.readings = values) ∧
      (∀ problem, RawPair.expectedProblems pairs = [problem] →
        ofText text = .error (.single problem)) ∧
      (2 ≤ (RawPair.expectedProblems pairs).length →
        ofText text = .error (.several (RawPair.expectedProblems pairs))) ∧
      ∀ error, ofText text = .error error →
        error.errors = (RawPair.expectedProblems pairs).map .single := by
  refine ⟨?_, ?_⟩
  · intro h
    obtain ⟨fault, hfault⟩ := ofText_of_not_reads h
    exact ⟨fault, hfault, rfl⟩
  · intro pairs hreads
    rw [ofText_of_reads hreads, ← RawPair.allProblems_eq_expectedProblems]
    refine ⟨?_, ?_, ?_, ?_⟩
    · intro hnone
      have hok := ofPairs_eq_ok_iff.2 ⟨hnone, rfl⟩
      exact ⟨_, hok, fun name values => get?_of_ofPairs hok⟩
    · intro problem hone
      simp only [ofPairs, hone, DocumentError.ofProblems?]
    · intro hmany
      cases hall : RawPair.allProblems [] pairs with
      | nil => simp [hall] at hmany
      | cons first rest =>
        cases rest with
        | nil => simp [hall] at hmany
        | cons second rest => simp only [ofPairs, hall, DocumentError.ofProblems?]
    · intro error herror
      have hsome : DocumentError.ofProblems? (RawPair.allProblems [] pairs) = some error := by
        rw [ofPairs] at herror
        split at herror
        · rename_i found hfound
          cases herror
          exact hfound
        · cases herror
      exact DocumentError.errors_of_ofProblems? hsome

/-- Three faults in three pairs are reported together, and a list in place of an object alone. -/
theorem ofText_reports_three_problems :
    ofText "\x7b\"author\": [\"me\"], \"author\": [\"a b\"], \"mix\": [true, \"x\"]\x7d"
      = .error (.several [.duplicateAttribute "author", .valueFormat (.text "a b"),
        .typeHomogeneity "mix" .boolean .text]) ∧
    ∃ fault, ofText "[true]" = .error (.structural fault) := by
  have hreads : RawPair.Reads
      "\x7b\"author\": [\"me\"], \"author\": [\"a b\"], \"mix\": [true, \"x\"]\x7d".toList
      [("author", [.string "me"]), ("author", [.string "a b"]),
        ("mix", [.boolean true, .string "x"])] :=
    RawPair.ofText_eq_ok_iff.1 (by decide +kernel)
  have hexpected :
      RawPair.expectedProblems [("author", [.string "me"]), ("author", [.string "a b"]),
      ("mix", [.boolean true, .string "x"])] = [.duplicateAttribute "author",
        .valueFormat (.text "a b"), .typeHomogeneity "mix" .boolean .text] := by decide +kernel
  have hmany := ((ofText_reports_problems _).2 _ hreads).2.2.1 (by rw [hexpected]; decide)
  have hshape : ∀ pairs, ¬ RawPair.Reads "[true]".toList pairs := by
    intro pairs hpairs
    have hok : (RawPair.ofText "[true]".toList).toBool = true := by
      rw [RawPair.ofText_eq_ok_iff.2 hpairs]
      rfl
    exact absurd hok (by decide +kernel)
  obtain ⟨fault, hfault, _⟩ := (ofText_reports_problems "[true]").1 hshape
  rw [hexpected] at hmany
  exact ⟨hmany, fault, hfault⟩

end Document

end SidecarIndex

import SidecarIndex.Proofs.Document.Problems

/-! # Documents that can be stored

What a document has to satisfy so that a side-car can hold it. Every document that is read from a
side-car satisfies it, and setting an attribute keeps it up when the new name and the new values
satisfy it themselves. -/

namespace SidecarIndex

/-- A name of an attribute with values of one variant that a side-car can hold. -/
structure StorableAttribute (name : String) (values : List Value) : Prop where
  isName : isName name.toList = true
  homogeneous : ∃ variant, AllOf variant values
  storable : ∀ value ∈ values, value.isStorable = true

def Timestamp.IsRead (t : Timestamp) : Prop := ∃ s, Timestamp.ofText? s = some t

def Value.IsRead : Value → Prop
  | .timestamp t => t.IsRead
  | _ => True

namespace Document

def IsStorable (d : Document) : Prop :=
  ∀ entry ∈ d.entries, StorableAttribute entry.1 entry.2

def IsRead (d : Document) : Prop := ∀ entry ∈ d.entries, ∀ value ∈ entry.2, value.IsRead

theorem mem_entries_set {d : Document} {name : String} {values : List Value}
    {entry : String × List Value} : entry ∈ (d.set name values).entries ↔
      entry = (name, values) ∨ entry.1 ≠ name ∧ entry ∈ d.entries :=
  OrderedMap.mem_entries_insert

theorem isStorable_set {d : Document} {name : String} {values : List Value} (hd : d.IsStorable)
    (hnew : StorableAttribute name values) : (d.set name values).IsStorable := by
  intro entry hentry
  rcases mem_entries_set.1 hentry with rfl | ⟨_, hold⟩
  · exact hnew
  · exact hd entry hold

theorem isRead_set {d : Document} {name : String} {values : List Value} (hd : d.IsRead)
    (hnew : ∀ value ∈ values, value.IsRead) : (d.set name values).IsRead := by
  intro entry hentry
  rcases mem_entries_set.1 hentry with rfl | ⟨_, hold⟩
  · exact hnew
  · exact hd entry hold

end Document

/-! ### Documents from texts -/

theorem RawScalar.isStorable_of_reading? {scalar : RawScalar} {value : Value}
    (hfinite : ∀ n, scalar = .number n → n.isFinite = true) (h : scalar.reading? = some value) :
    value.isStorable = true ∧ value.IsRead := by
  cases scalar with
  | number n =>
    cases h
    exact ⟨hfinite n rfl, trivial⟩
  | boolean b =>
    cases h
    exact ⟨rfl, trivial⟩
  | string s =>
    rw [reading?] at h
    by_cases hliteral : isLiteral s.toList = false
    · rw [if_pos hliteral] at h
      cases h
    · rw [if_neg hliteral] at h
      by_cases hmark : s.toList.head? = some '#'
      · rw [if_pos hmark] at h
        obtain ⟨t, ht, rfl⟩ := Option.map_eq_some_iff.1 h
        exact ⟨rfl, s.toList.tail, ht⟩
      · rw [if_neg hmark] at h
        cases h
        refine ⟨?_, trivial⟩
        simp only [Bool.not_eq_false] at hliteral
        simp [Value.isStorable, isPlainLiteral, hliteral, hmark]

theorem RawPair.IsSound.storableAttribute {pair : RawPair} (h : pair.IsSound)
    (hfinite : ∀ n, RawScalar.number n ∈ pair.2 → n.isFinite = true) :
    StorableAttribute pair.1 pair.readings := by
  refine ⟨h.isName, h.homogeneous, ?_⟩
  intro value hvalue
  obtain ⟨scalar, hscalar, hreading⟩ := List.mem_filterMap.1 hvalue
  exact (RawScalar.isStorable_of_reading? (fun n hn => hfinite n (hn ▸ hscalar)) hreading).1

theorem RawPair.isRead_of_readings {pair : RawPair}
    (hfinite : ∀ n, RawScalar.number n ∈ pair.2 → n.isFinite = true) :
    ∀ value ∈ pair.readings, value.IsRead := by
  intro value hvalue
  obtain ⟨scalar, hscalar, hreading⟩ := List.mem_filterMap.1 hvalue
  exact (RawScalar.isStorable_of_reading? (fun n hn => hfinite n (hn ▸ hscalar)) hreading).2

/-- What is read from a side-car can be stored in one. -/
theorem Document.isStorable_of_ofText {text : String} {d : Document} (h : ofText text = .ok d) :
    d.IsStorable ∧ d.IsRead := by
  obtain ⟨pairs, hreads, hok⟩ := ofText_eq_ok_iff.1 h
  have hnone := (ofPairs_eq_ok_iff.1 hok).1
  have hpair : ∀ entry ∈ d.entries, ∃ pair ∈ pairs, pair.1 = entry.1 ∧ pair.readings = entry.2 :=
    fun entry hentry => (get?_of_ofPairs hok).1 (OrderedMap.mem_entries_iff.1 hentry)
  refine ⟨?_, ?_⟩
  · intro entry hentry
    obtain ⟨pair, hmem, hname, hvalues⟩ := hpair entry hentry
    have hsound := ((RawPair.allProblems_eq_nil_iff.1 hnone).2 pair hmem).2
    have hattribute := hsound.storableAttribute fun n hn => RawPair.isFinite_of_reads hreads hmem hn
    rwa [hname, hvalues] at hattribute
  · intro entry hentry
    obtain ⟨pair, hmem, _, hvalues⟩ := hpair entry hentry
    have hread := RawPair.isRead_of_readings fun n hn => RawPair.isFinite_of_reads hreads hmem hn
    rwa [hvalues] at hread

end SidecarIndex

import SidecarIndex.Document.Reader
import SidecarIndex.Proofs.Json.Reader

/-! # The shape of a side-car

A side-car is read pair by pair, and the first pair of another shape stops the reading. What is read
in this way is exactly what is found when the whole text is read as one JSON value first and the
shape of that value is looked at afterwards. -/

namespace SidecarIndex

def Json.ofText? (s : List Char) : Option Json :=
  match Json.value (RawPair.nesting + 1) s with
  | .ok (json, rest) => if (Json.skipSpace rest).isEmpty then some json else none
  | .error _ => none

/-- A JSON value is a number, a string or a boolean. -/
inductive RawScalar.Stands : Json → RawScalar → Prop where
  | number (value : Number) (whole? : Option Int) : Stands (.number value whole?) (.number value)
  | string (s : String) : Stands (.string s) (.string s)
  | boolean (b : Bool) : Stands (.boolean b) (.boolean b)

def RawPair.Stands (member : String × Json) (pair : RawPair) : Prop :=
  member.1 = pair.1 ∧ ∃ items, member.2 = .array items ∧ List.Forall₂ RawScalar.Stands items pair.2

/-- As a whole, a text is a JSON object whose members are these pairs. -/
def RawPair.Reads (s : List Char) (pairs : List RawPair) : Prop :=
  ∃ members, Json.ofText? s = some (.object members) ∧ List.Forall₂ RawPair.Stands members pairs

namespace Json

theorem ofText?_eq_some_iff {s : List Char} {json : Json} :
    ofText? s = some json ↔
      ∃ rest, value (RawPair.nesting + 1) s = .ok (json, rest) ∧ skipSpace rest = [] := by
  rw [ofText?]
  cases h : value (RawPair.nesting + 1) s with
  | error fault =>
    apply Iff.intro
    · intro hnone
      cases hnone
    · intro hok
      obtain ⟨_, hok, _⟩ := hok
      cases hok
  | ok found =>
    obtain ⟨json', rest'⟩ := found
    simp only [Except.ok.injEq, Prod.mk.injEq, List.isEmpty_iff]
    constructor
    · intro hsome
      by_cases hend : skipSpace rest' = []
      · rw [if_pos hend] at hsome
        exact ⟨rest', ⟨Option.some.inj hsome, rfl⟩, hend⟩
      · rw [if_neg hend] at hsome
        cases hsome
    · intro hok
      obtain ⟨_, ⟨rfl, rfl⟩, hend⟩ := hok
      rw [if_pos hend]

/-- A value that is no list and no object; a number among them is finite. -/
def IsScalar : Json → Prop
  | array _ => False
  | object _ => False
  | number n _ => n.isFinite = true
  | _ => True

theorem isScalar_of_unsignedNumber {negative : Bool} {s rest : List Char} {json : Json}
    (h : unsignedNumber negative s = .ok (json, rest)) : json.IsScalar := by
  simp only [unsignedNumber, bind_eq_ok_iff] at h
  obtain ⟨whole, _, fraction, _, exponent, _, h⟩ := h
  split at h
  · rename_i hfinite
    cases h
    exact hfinite
  · cases h

theorem isScalar_of_scalar {s rest : List Char} {json : Json} (h : scalar s = .ok (json, rest)) :
    json.IsScalar := by
  unfold scalar at h
  split at h
  · cases h
  · obtain ⟨_, _, heq⟩ := map_eq_ok_iff.1 h
    cases heq
    trivial
  · obtain ⟨_, _, heq⟩ := map_eq_ok_iff.1 h
    cases heq
    trivial
  · obtain ⟨_, _, heq⟩ := map_eq_ok_iff.1 h
    cases heq
    trivial
  · obtain ⟨_, _, heq⟩ := map_eq_ok_iff.1 h
    cases heq
    trivial
  · exact isScalar_of_unsignedNumber h
  · split at h
    · exact isScalar_of_unsignedNumber h
    · cases h

/-- Reads the value of a member and keeps its name. -/
def namedValue (depth : Nat) (name : String) (s : List Char) :
    Except Fault ((String × Json) × List Char) :=
  (value depth s).map fun r => ((name, r.1), r.2)

theorem value_succ_object_iff {depth : Nat} {s rest : List Char} {found : List (String × Json)} :
    value (depth + 1) s = .ok (.object found, rest) ↔
      ∃ tail, skipSpace s = '{' :: tail ∧
      members id (namedValue depth) tail = .ok (found, rest) := by
  rw [value]
  split
  · rename_i tail hs
    rw [map_eq_ok_iff, hs]
    apply Iff.intro
    · intro h
      obtain ⟨_, _, heq⟩ := h
      cases heq
    · intro h
      obtain ⟨_, heq, _⟩ := h
      cases heq
  · rename_i tail hs
    rw [map_eq_ok_iff, hs]
    apply Iff.intro
    · intro h
      obtain ⟨⟨found', rest'⟩, hread, heq⟩ := h
      cases heq
      exact ⟨tail, rfl, hread⟩
    · intro h
      obtain ⟨_, heq, hread⟩ := h
      cases heq
      exact ⟨(found, rest), hread, rfl⟩
  · rename_i hlist hobject
    apply Iff.intro
    · intro h
      exact (isScalar_of_scalar h).elim
    · intro h
      obtain ⟨tail, hs, _⟩ := h
      exact (hobject tail hs).elim

theorem value_number_isFinite {depth : Nat} {s rest : List Char} {n : Number} {whole? : Option Int}
    (h : value depth s = .ok (.number n whole?, rest)) : n.isFinite = true := by
  cases depth with
  | zero =>
    rw [value] at h
    split at h
    · cases h
    · cases h
    · exact isScalar_of_scalar h
  | succ depth =>
    rw [value] at h
    split at h
    · obtain ⟨_, _, heq⟩ := map_eq_ok_iff.1 h
      cases heq
    · obtain ⟨_, _, heq⟩ := map_eq_ok_iff.1 h
      cases heq
    · exact isScalar_of_scalar h

theorem value_array_isFinite {depth : Nat} {s rest : List Char} {items : List Json}
    (h : value depth s = .ok (.array items, rest)) {n : Number} {whole? : Option Int}
    (hmem : .number n whole? ∈ items) : n.isFinite = true := by
  cases depth with
  | zero =>
    rw [value] at h
    split at h
    · cases h
    · cases h
    · exact (isScalar_of_scalar h).elim
  | succ depth =>
    rw [value] at h
    split at h
    · obtain ⟨⟨items', _⟩, hread, heq⟩ := map_eq_ok_iff.1 h
      cases heq
      obtain ⟨t, r, ht⟩ := exists_read_of_elements hread _ hmem
      exact value_number_isFinite ht
    · obtain ⟨_, _, heq⟩ := map_eq_ok_iff.1 h
      cases heq
    · exact (isScalar_of_scalar h).elim

end Json

/-! ### Pairs -/

theorem RawScalar.ofJson_eq_ok_iff {name : String} {json : Json} {scalar : RawScalar} :
    RawScalar.ofJson name json = .ok scalar ↔ RawScalar.Stands json scalar := by
  apply Iff.intro
  · intro h
    unfold RawScalar.ofJson at h
    split at h
    · cases h
      exact .number _ _
    · cases h
      exact .string _
    · cases h
      exact .boolean _
    · cases h
  · intro h
    cases h with
    | number value whole? => rfl
    | string s => rfl
    | boolean b => rfl

namespace RawPair

theorem ofJson_eq_ok_iff {name : String} {json : Json} {pair : RawPair} :
    ofJson name json = .ok pair ↔ RawPair.Stands (name, json) pair := by
  apply Iff.intro
  · intro h
    unfold ofJson at h
    split at h
    · rename_i items
      obtain ⟨scalars, hscalars, rfl⟩ := map_eq_ok_iff.1 h
      refine ⟨rfl, items, rfl, ?_⟩
      exact (mapM_eq_ok_iff.1 hscalars).imp fun _ _ hj => RawScalar.ofJson_eq_ok_iff.1 hj
    · cases h
  · intro h
    obtain ⟨hname, items, hitems, hscalars⟩ := h
    obtain ⟨found, scalars⟩ := pair
    cases hname
    cases hitems
    refine map_eq_ok_iff.2 ⟨scalars, ?_, rfl⟩
    exact mapM_eq_ok_iff.2 (hscalars.imp fun _ _ hj => RawScalar.ofJson_eq_ok_iff.2 hj)

theorem refines_read : Json.Refines (Json.namedValue nesting) read RawPair.Stands := by
  intro name s pair rest
  simp only [read, Json.namedValue, bind_eq_ok_iff, mapError_eq_ok_iff, map_eq_ok_iff]
  constructor
  · intro h
    obtain ⟨⟨json, rest'⟩, hjson, found, hfound, heq⟩ := h
    cases heq
    exact ⟨(name, json), ⟨(json, _), hjson, rfl⟩, ofJson_eq_ok_iff.1 hfound⟩
  · intro h
    obtain ⟨_, ⟨⟨json, rest'⟩, hjson, heq⟩, hstands⟩ := h
    cases heq
    exact ⟨(json, _), hjson, pair, ofJson_eq_ok_iff.2 hstands, rfl⟩

theorem ofText_object {s tail : List Char} (h : Json.skipSpace s = '{' :: tail)
    {pairs : List RawPair} : ofText s = .ok pairs ↔
      ∃ rest, Json.members .json read tail = .ok (pairs, rest) ∧ Json.skipSpace rest = [] := by
  unfold ofText
  rw [h]
  simp only [bind_eq_ok_iff, List.isEmpty_iff]
  apply Iff.intro
  · intro hok
    obtain ⟨⟨found, rest⟩, hread, hok⟩ := hok
    by_cases hend : Json.skipSpace rest = []
    · rw [if_pos hend] at hok
      cases hok
      exact ⟨rest, hread, hend⟩
    · rw [if_neg hend] at hok
      cases hok
  · intro hok
    obtain ⟨rest, hread, hend⟩ := hok
    exact ⟨(pairs, rest), hread, if_pos hend⟩

/-- Reading pair by pair finds what the whole text is, and fails where it is nothing of that
shape. -/
theorem ofText_eq_ok_iff {s : List Char} {pairs : List RawPair} :
    ofText s = .ok pairs ↔ RawPair.Reads s pairs := by
  have hobject : ∀ tail, Json.skipSpace s = '{' :: tail →
      (ofText s = .ok pairs ↔ RawPair.Reads s pairs) := by
    intro tail hs
    rw [ofText_object hs]
    apply Iff.intro
    · intro h
      obtain ⟨rest, hread, hend⟩ := h
      obtain ⟨found, hfound, hpairs⟩ := (refines_read.members_iff id).1 hread
      refine ⟨found, Json.ofText?_eq_some_iff.2 ⟨rest, ?_, hend⟩, hpairs⟩
      exact Json.value_succ_object_iff.2 ⟨tail, hs, hfound⟩
    · intro h
      obtain ⟨found, hwhole, hpairs⟩ := h
      obtain ⟨rest, hvalue, hend⟩ := Json.ofText?_eq_some_iff.1 hwhole
      obtain ⟨tail', hs', hfound⟩ := Json.value_succ_object_iff.1 hvalue
      cases hs.symm.trans hs'
      exact ⟨rest, (refines_read.members_iff id).2 ⟨found, hfound, hpairs⟩, hend⟩
  by_cases hs : ∃ tail, Json.skipSpace s = '{' :: tail
  · obtain ⟨tail, hs⟩ := hs
    exact hobject tail hs
  · apply Iff.intro
    · intro h
      unfold ofText at h
      split at h
      · rename_i tail hs'
        exact absurd ⟨tail, hs'⟩ hs
      · cases h
    · intro h
      obtain ⟨found, hwhole, _⟩ := h
      obtain ⟨rest, hvalue, _⟩ := Json.ofText?_eq_some_iff.1 hwhole
      obtain ⟨tail, hs', _⟩ := Json.value_succ_object_iff.1 hvalue
      exact absurd ⟨tail, hs'⟩ hs

theorem isFinite_of_reads {s : List Char} {pairs : List RawPair} (h : RawPair.Reads s pairs)
    {pair : RawPair} (hpair : pair ∈ pairs) {n : Number} (hn : RawScalar.number n ∈ pair.2) :
    n.isFinite = true := by
  obtain ⟨found, hwhole, hpairs⟩ := h
  obtain ⟨rest, hvalue, _⟩ := Json.ofText?_eq_some_iff.1 hwhole
  obtain ⟨tail, _, hfound⟩ := Json.value_succ_object_iff.1 hvalue
  obtain ⟨member, hmember, _, items, hitems, hscalars⟩ := exists_of_forall₂_of_mem hpairs hpair
  obtain ⟨name, t, r, hread⟩ := Json.exists_read_of_members hfound member hmember
  obtain ⟨⟨json, _⟩, hjson, heq⟩ := map_eq_ok_iff.1 hread
  cases heq
  cases hitems
  obtain ⟨item, hitem, hstands⟩ := exists_of_forall₂_of_mem hscalars hn
  cases hstands
  exact Json.value_array_isFinite hjson hitem

end RawPair

end SidecarIndex

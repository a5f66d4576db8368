import SidecarIndex.Proofs.Registry

/-! # Conflicts between documents

An attribute takes its variant from the first values it has anywhere. Every later list of other
values is a conflict of its own. A registry is made from documents list by list and stops at the
first conflict in this order, so it reports that one and no other. -/

namespace SidecarIndex.Registry

/-- An attribute with its values, as it is found in the document of a path. -/
structure Sighting where
  path : Path
  name : String
  values : List Value

def Sighting.variant? (o : Sighting) : Option Variant := o.values.head?.map Value.variant

/-- The attributes of some documents, in the order in which they are recorded. -/
def sightings (entries : List (Path × Document)) : List Sighting :=
  entries.flatMap fun entry => entry.2.entries.map fun attr => ⟨entry.1, attr.1, attr.2⟩

def firstVariant? (seen : List Sighting) (name : String) : Option Variant :=
  seen.findSome? fun o => if o.name = name then o.variant? else none

/-- What is wrong with the values of an attribute: their variant is another than that of its first
ones. -/
def conflict? (seen : List Sighting) (o : Sighting) : Option Error :=
  match firstVariant? seen o.name, o.variant? with
  | some registered, some found =>
    if registered = found then none else some (.typeConsistency o.name o.path registered found)
  | _, _ => none

def allConflicts (entries : List (Path × Document)) : List Error :=
  (sightings entries).filterMap (conflict? (sightings entries))

/-! ### First variants -/

theorem firstVariant?_append (before after : List Sighting) (name : String) :
    firstVariant? (before ++ after) name = (firstVariant? before name).or
      (firstVariant? after name) :=
  List.findSome?_append

theorem firstVariant?_cons (o : Sighting) (rest : List Sighting) (name : String) :
    firstVariant? (o :: rest) name
      = (if o.name = name then o.variant? else none).or (firstVariant? rest name) := by
  rw [firstVariant?, List.findSome?_cons, firstVariant?]
  cases (if o.name = name then o.variant? else none) with
  | none => rfl
  | some variant => rfl

theorem conflict?_eq_some_iff {seen : List Sighting} {o : Sighting} {e : Error} :
    conflict? seen o = some e ↔ ∃ registered found, firstVariant? seen o.name = some registered ∧
      o.variant? = some found ∧ registered ≠ found ∧
      e = .typeConsistency o.name o.path registered found := by
  unfold conflict?
  cases firstVariant? seen o.name with
  | none => simp
  | some registered =>
    cases o.variant? with
    | none => simp
    | some found =>
      by_cases h : registered = found
      · simp [h]
      · simp [h, eq_comm]

/-! ### One list of values -/

/-- The variants that a registry knows are those of the first values seen so far. -/
def Follows (r : Registry) (seen : List Sighting) : Prop :=
  ∀ name, r.variant? name = firstVariant? seen name

theorem follows_empty : Follows empty [] := fun _ => rfl

theorem follows_register {r : Registry} {before : List Sighting} (hr : Follows r before)
    (o : Sighting) : Follows (r.register o.name o.variant?) (before ++ [o]) := by
  intro name
  rw [variant?_register, firstVariant?_append, firstVariant?_cons, ← hr]
  by_cases h : name = o.name
  · rw [if_pos h, if_pos h.symm, h]
    exact congrArg (r.variant? o.name).or (Option.or_none.symm)
  · rw [if_neg h, if_neg (Ne.symm h)]
    exact Option.or_none.symm

/-- Values pass the check unless they are a conflict. What comes after them does not matter, as the
first values of their attribute are among those before, or they are the first ones. -/
theorem check_of_follows {r : Registry} {before : List Sighting} (hr : Follows r before)
    (o : Sighting) (after : List Sighting) : r.check o.path o.name o.variant?
      = match conflict? (before ++ o :: after) o with
        | none => .ok ()
        | some e => .error e := by
  have hfirst : firstVariant? (before ++ o :: after) o.name
      = ((r.variant? o.name).or o.variant?).or (firstVariant? after o.name) := by
    rw [firstVariant?_append, firstVariant?_cons, if_pos rfl, ← hr, Option.or_assoc]
  unfold check conflict?
  rw [hfirst]
  cases r.variant? o.name with
  | none =>
    cases o.variant? with
    | none =>
      cases firstVariant? after o.name with
      | none => rfl
      | some registered => rfl
    | some found => simp
  | some registered =>
    cases o.variant? with
    | none => rfl
    | some found =>
      by_cases h : registered = found
      · simp [h]
      · simp [h]

theorem observe_of_follows {r : Registry} {before : List Sighting} (hr : Follows r before)
    (o : Sighting) (after : List Sighting) : r.observe o.path o.name o.values
      = match conflict? (before ++ o :: after) o with
        | none => .ok (r.register o.name o.variant?)
        | some e => .error e := by
  have hobserve : r.observe o.path o.name o.values
      = (r.check o.path o.name o.variant? >>= fun _ => .ok (r.register o.name o.variant?)) := rfl
  rw [hobserve, check_of_follows hr o after]
  cases conflict? (before ++ o :: after) o with
  | none => rfl
  | some e => rfl

/-! ### All lists of values -/

theorem foldlM_observe {r : Registry} {before : List Sighting} (hr : Follows r before)
    (rest : List Sighting) :
    match rest.filterMap (conflict? (before ++ rest)) with
    | [] => ∃ s, rest.foldlM (fun r o => r.observe o.path o.name o.values) r = .ok s ∧
        Follows s (before ++ rest)
    | e :: _ => rest.foldlM (fun r o => r.observe o.path o.name o.values) r = .error e := by
  -- Recording goes on up to the first conflict; what it has seen moves from `rest` to `before`.
  induction rest generalizing r before with
  | nil => exact ⟨r, rfl, by rwa [List.append_nil]⟩
  | cons o rest ih =>
    have hstep := observe_of_follows hr o rest
    rw [List.foldlM_cons, hstep]
    cases hconflict : conflict? (before ++ o :: rest) o with
    | some e =>
      rw [List.filterMap_cons_some hconflict]
      rfl
    | none =>
      have hnext := ih (follows_register hr o)
      rw [List.append_assoc, List.singleton_append] at hnext
      rw [List.filterMap_cons_none hconflict]
      exact hnext

theorem ofEntries_eq_foldlM (entries : List (Path × Document)) :
    ofEntries entries
      = (sightings entries).foldlM (fun r o => r.observe o.path o.name o.values) empty := by
  rw [ofEntries, sightings]
  generalize empty = r
  induction entries generalizing r with
  | nil => rfl
  | cons entry rest ih =>
    rw [List.foldlM_cons, List.flatMap_cons, List.foldlM_append, List.foldlM_map]
    exact congrArg _ (funext fun s => ih s)

/-- A registry is made from documents without conflicts; else the first conflict is reported. -/
theorem ofEntries_of_allConflicts (entries : List (Path × Document)) :
    match allConflicts entries with
    | [] => ∃ r, ofEntries entries = .ok r ∧ Follows r (sightings entries)
    | e :: _ => ofEntries entries = .error e := by
  rw [ofEntries_eq_foldlM]
  exact foldlM_observe follows_empty (sightings entries)

/-- A conflict is a list of values in some document, of another variant than the first values of its
attribute. -/
theorem mem_allConflicts_iff {entries : List (Path × Document)} {e : Error} :
    e ∈ allConflicts entries ↔ ∃ path d name values registered found, (path, d) ∈ entries ∧
      d.get? name = some values ∧ firstVariant? (sightings entries) name = some registered ∧
      values.head?.map Value.variant = some found ∧ registered ≠ found ∧
      e = .typeConsistency name path registered found := by
  rw [allConflicts, List.mem_filterMap]
  apply Iff.intro
  · intro h
    obtain ⟨o, ho, hconflict⟩ := h
    obtain ⟨registered, found, hfirst, hfound, hne, rfl⟩ := conflict?_eq_some_iff.1 hconflict
    obtain ⟨entry, hentry, hmem⟩ := List.mem_flatMap.1 ho
    obtain ⟨attr, hattr, rfl⟩ := List.mem_map.1 hmem
    exact ⟨entry.1, entry.2, attr.1, attr.2, registered, found, hentry,
      OrderedMap.mem_entries_iff.1 hattr, hfirst, hfound, hne, rfl⟩
  · intro h
    obtain ⟨path, d, name, values, registered, found, hentry, hvalues, hfirst, hfound, hne, rfl⟩ :=
      h
    refine ⟨⟨path, name, values⟩, List.mem_flatMap.2 ⟨(path, d), hentry, ?_⟩, ?_⟩
    · exact List.mem_map.2 ⟨(name, values), OrderedMap.mem_entries_iff.2 hvalues, rfl⟩
    · exact conflict?_eq_some_iff.2 ⟨registered, found, hfirst, hfound, hne, rfl⟩

end SidecarIndex.Registry

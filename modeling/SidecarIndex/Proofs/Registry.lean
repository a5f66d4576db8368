import SidecarIndex.Registry
import SidecarIndex.Proofs.Document.Storable
import SidecarIndex.Proofs.Outcome

/-! # What a registry records

Recording only adds to a registry: names stay, and so does a variant once it is known. So a registry
that is made from documents records every attribute of theirs, and it can be made unless two of
their values disagree. -/

namespace SidecarIndex.Registry

/-- One registry is reached from another by recording: names and known variants are still there. -/
structure Extends (later earlier : Registry) : Prop where
  contains : ∀ name, earlier.contains name = true → later.contains name = true
  variant : ∀ name variant, earlier.variant? name = some variant →
  later.variant? name = some variant

theorem Extends.refl (r : Registry) : r.Extends r := ⟨fun _ h => h, fun _ _ h => h⟩

theorem Extends.trans {a b c : Registry} (hab : a.Extends b) (hbc : b.Extends c) : a.Extends c :=
  ⟨fun name h => hab.contains name (hbc.contains name h),
    fun name variant h => hab.variant name variant (hbc.variant name variant h)⟩

/-- An attribute is recorded, and with the variant of its values if there are any. -/
structure Records (r : Registry) (name : String) (values : List Value) : Prop where
  contains : r.contains name = true
  variant : ∀ value ∈ values, r.variant? name = some value.variant

theorem Records.of_extends {later earlier : Registry} {name : String} {values : List Value}
    (h : earlier.Records name values) (hext : later.Extends earlier) : later.Records name values :=
  ⟨hext.contains name h.contains, fun value hv => hext.variant name _ (h.variant value hv)⟩

/-! ### Recording -/

theorem contains_eq_true_iff {r : Registry} {name : String} :
    r.contains name = true ↔ ∃ found, r.types.get? name = some found :=
  OrderedMap.contains_iff

theorem contains_register (r : Registry) (name other : String) (found : Option Variant) :
    (r.register name found).contains other = true ↔ other = name ∨ r.contains other = true := by
  have hinsert : (Registry.mk (r.types.insert name found)).contains other = true ↔
      other = name ∨ r.contains other = true := by
    simp only [contains_eq_true_iff, OrderedMap.get?_insert]
    by_cases h : other = name
    · simp [h]
    · simp [h]
  have hknown : ∀ old, r.types.get? name = some old →
      (r.contains other = true ↔ other = name ∨ r.contains other = true) := by
    intro old hold
    refine ⟨?_, ?_⟩
    · exact .inr
    · rintro (rfl | h)
      · exact contains_eq_true_iff.2 ⟨old, hold⟩
      · exact h
  cases hold : r.types.get? name with
  | none => simpa only [register, hold] using hinsert
  | some old =>
    cases old with
    | some v => simpa only [register, hold] using hknown _ hold
    | none =>
      cases found with
      | some v => simpa only [register, hold, Option.isSome_some, if_true] using hinsert
      | none => simpa [register, hold] using hknown _ hold

/-- Recording writes one record: what was known of the attribute, or else what has been found. -/
theorem register_eq (r : Registry) (name : String) (found : Option Variant) :
    r.register name found = ⟨r.types.insert name ((r.variant? name).or found)⟩ := by
  have hkeep : ∀ old, r.types.get? name = some old → r = ⟨r.types.insert name old⟩ :=
    fun old hold => congrArg Registry.mk (OrderedMap.insert_of_get? hold).symm
  cases hold : r.types.get? name with
  | none => simp only [register, variant?, hold, Option.join_none, Option.none_or]
  | some old =>
    simp only [register, variant?, hold, Option.join_some]
    cases old with
    | some known => exact hkeep (some known) hold
    | none =>
      cases found with
      | some variant => rfl
      | none => exact hkeep none hold

theorem extends_register (r : Registry) (name : String) (found : Option Variant) :
    (r.register name found).Extends r := by
  refine ⟨fun other h => (contains_register ..).2 (.inr h), ?_⟩
  intro other variant h
  rw [variant?_register]
  by_cases heq : other = name
  · subst heq
    rw [if_pos rfl, h, Option.some_or]
  · rw [if_neg heq]
    exact h

theorem variant?_register_self {r : Registry} {name : String} {found : Option Variant}
    (h : ∀ registered ∈ r.variant? name, ∀ variant ∈ found, registered = variant)
    {variant : Variant} (hfound : found = some variant) :
    (r.register name found).variant? name = some variant := by
  rw [variant?_register, if_pos rfl, hfound]
  cases hr : r.variant? name with
  | none => rfl
  | some registered => rw [Option.some_or, h registered hr variant hfound]

theorem check_eq_ok_iff {r : Registry} {path : Path} {name : String} {found : Option Variant} :
    r.check path name found = .ok () ↔
      ∀ registered ∈ r.variant? name, ∀ variant ∈ found, registered = variant := by
  simp only [check]
  cases hr : r.variant? name with
  | none => simp
  | some registered =>
    cases found with
    | none => simp
    | some variant =>
      by_cases h : registered = variant
      · simp [h]
      · simp [h]

theorem records_of_observe {r s : Registry} {path : Path} {name : String} {values : List Value}
    {variant : Variant} (hall : AllOf variant values) (h : r.observe path name values = .ok s) :
    s.Extends r ∧ s.Records name values := by
  simp only [observe, bind_eq_ok_iff] at h
  obtain ⟨_, hcheck, hs⟩ := h
  cases hs
  have hagree := check_eq_ok_iff.1 hcheck
  refine ⟨extends_register .., (contains_register ..).2 (.inl rfl), ?_⟩
  cases values with
  | nil => simp
  | cons first rest =>
    have hfound : (first :: rest).head?.map Value.variant = some first.variant := rfl
    have hself := variant?_register_self hagree hfound
    intro value hvalue
    rw [hself, hall value hvalue, hall first (List.mem_cons_self ..)]

/-! ### Documents -/

def RecordsAll (r : Registry) (d : Document) : Prop :=
  ∀ entry ∈ d.entries, r.Records entry.1 entry.2

theorem RecordsAll.of_extends {later earlier : Registry} {d : Document} (h : earlier.RecordsAll d)
    (hext : later.Extends earlier) : later.RecordsAll d :=
  fun entry hentry => (h entry hentry).of_extends hext

/-- What each step of a fold settles is settled at its end, as later steps only add. -/
theorem settled_of_foldlM {α : Type} {f : Registry → α → Except Error Registry}
    (Settled : Registry → α → Prop)
    (hkeep : ∀ later earlier x, Settled earlier x → later.Extends earlier → Settled later x)
    {xs : List α} (hstep : ∀ r s, ∀ x ∈ xs, f r x = .ok s → s.Extends r ∧ Settled s x)
    {r s : Registry} (h : xs.foldlM f r = .ok s) : s.Extends r ∧ ∀ x ∈ xs, Settled s x := by
  induction xs generalizing r with
  | nil =>
    cases h
    exact ⟨.refl _, fun _ hx => absurd hx List.not_mem_nil⟩
  | cons x xs ih =>
    rw [List.foldlM_cons, bind_eq_ok_iff] at h
    obtain ⟨t, ht, hrest⟩ := h
    obtain ⟨hext, hx⟩ := hstep r t x (List.mem_cons_self ..) ht
    obtain ⟨hexts, hxs⟩ := ih (fun r s y hy => hstep r s y (List.mem_cons_of_mem _ hy)) hrest
    refine ⟨hexts.trans hext, ?_⟩
    intro y hy
    rcases List.mem_cons.1 hy with rfl | hy
    · exact hkeep s t y hx hexts
    · exact hxs y hy

theorem recordsAll_of_observeDocument {r s : Registry} {path : Path} {d : Document}
    (hd : d.IsStorable) (h : r.observeDocument path d = .ok s) : s.Extends r ∧ s.RecordsAll d := by
  refine settled_of_foldlM (fun r entry => r.Records entry.1 entry.2) ?_ ?_ h
  · exact fun _ _ _ hrec hext => hrec.of_extends hext
  · intro r s entry hentry hstep
    obtain ⟨variant, hall⟩ := (hd entry hentry).homogeneous
    exact records_of_observe hall hstep

theorem recordsAll_of_ofEntries {entries : List (Path × Document)} {s : Registry}
    (hd : ∀ entry ∈ entries, entry.2.IsStorable) (h : ofEntries entries = .ok s) :
    ∀ entry ∈ entries, s.RecordsAll entry.2 := by
  refine (settled_of_foldlM (fun r entry => r.RecordsAll entry.2) ?_ ?_ h).2
  · exact fun _ _ _ hrec hext => hrec.of_extends hext
  · exact fun _ _ entry hentry hstep => recordsAll_of_observeDocument (hd entry hentry) hstep

/-! ### Conflicts -/

variable {entries : List (Path × Document)}

/-- A variant that some value of an attribute has. -/
def Shown (entries : List (Path × Document)) (name : String) (variant : Variant) : Prop :=
  ∃ entry ∈ entries, ∃ values, entry.2.get? name = some values ∧ ∃ v ∈ values, v.variant = variant

/-- Some attribute has values of two variants. -/
def Disagree (entries : List (Path × Document)) : Prop :=
  ∃ name first second, Shown entries name first ∧ Shown entries name second ∧ first ≠ second

/-- An error that names a document and an attribute of it with a variant that is not the one the
attribute has elsewhere. -/
def Reports (entries : List (Path × Document)) : Error → Prop
  | .typeConsistency name path registered found =>
    registered ≠ found ∧ Shown entries name registered ∧
      ∃ d, (path, d) ∈ entries ∧ Shown [(path, d)] name found
  | _ => False

theorem Reports.disagree {e : Error} (h : Reports entries e) : Disagree entries := by
  cases e with
  | typeConsistency name path registered found =>
    obtain ⟨hne, hregistered, d, hmem, hfound⟩ := h
    obtain ⟨entry, hentry, hvalues⟩ := hfound
    rw [List.mem_singleton] at hentry
    exact ⟨name, registered, found, hregistered, ⟨entry, hentry ▸ hmem, hvalues⟩, hne⟩
  | _ => cases h

/-- All variants that a registry knows come from values. -/
def Known (entries : List (Path × Document)) (r : Registry) : Prop :=
  ∀ name variant, r.variant? name = some variant → Shown entries name variant

theorem check_meets {r : Registry} {path : Path} {d : Document} {name : String}
    {found : Option Variant} (hknown : Known entries r) (hmem : (path, d) ∈ entries)
    (hfound : ∀ variant ∈ found, Shown [(path, d)] name variant) :
    Meets (fun _ => True) (Reports entries) (r.check path name found) := by
  unfold check
  split
  · rename_i registered variant hregistered
    split
    · trivial
    · rename_i hne
      exact ⟨hne, hknown name registered hregistered, d, hmem, hfound variant rfl⟩
  · trivial

theorem known_register {r : Registry} {name : String} {found : Option Variant}
    (hknown : Known entries r) (hfound : ∀ variant ∈ found, Shown entries name variant) :
    Known entries (r.register name found) := by
  intro other variant hother
  rw [variant?_register] at hother
  by_cases heq : other = name
  · subst heq
    rw [if_pos rfl, Option.or_eq_some_iff] at hother
    rcases hother with hold | ⟨_, hnew⟩
    · exact hknown other variant hold
    · exact hfound variant hnew
  · rw [if_neg heq] at hother
    exact hknown other variant hother

theorem observe_meets {r : Registry} {path : Path} {d : Document} {name : String}
    {values : List Value} (hknown : Known entries r) (hmem : (path, d) ∈ entries)
    (hvalues : (name, values) ∈ d.entries) :
    Meets (Known entries) (Reports entries) (r.observe path name values) := by
  have hfound : ∀ variant ∈ values.head?.map Value.variant, Shown [(path, d)] name variant := by
    intro variant hvariant
    obtain ⟨first, hfirst, rfl⟩ := Option.map_eq_some_iff.1 hvariant
    exact ⟨(path, d), List.mem_singleton.2 rfl, values, OrderedMap.mem_entries_iff.1 hvalues, first,
      List.mem_of_head? hfirst, rfl⟩
  refine (check_meets hknown hmem hfound).bind fun _ _ =>
    known_register hknown fun variant hvariant => ?_
  obtain ⟨entry, hentry, hshown⟩ := hfound variant hvariant
  exact ⟨entry, List.mem_singleton.1 hentry ▸ hmem, hshown⟩

/-- What a registry of documents knows comes from them, and where they have none there is a
conflict. -/
theorem ofEntries_meets (entries : List (Path × Document)) :
    Meets (Known entries) (Reports entries) (ofEntries entries) := by
  have hempty : Known entries empty := fun _ _ h => nomatch h
  -- One fold goes over the documents, and in each of its steps another over their attributes.
  refine Meets.foldlM hempty fun r hr entry hentry => ?_
  exact Meets.foldlM hr fun r hr pair hpair => observe_meets hr hentry hpair

theorem variant?_of_shown {r : Registry} (h : ∀ entry ∈ entries, r.RecordsAll entry.2)
    {name : String} {variant : Variant} (hshown : Shown entries name variant) :
    r.variant? name = some variant := by
  obtain ⟨entry, hentry, values, hvalues, v, hv, rfl⟩ := hshown
  exact (h entry hentry (name, values) (OrderedMap.mem_entries_iff.2 hvalues)).variant v hv

theorem not_disagree_of_recordsAll {r : Registry} (h : ∀ entry ∈ entries, r.RecordsAll entry.2) :
    ¬ Disagree entries := by
  rintro ⟨name, first, second, hfirst, hsecond, hne⟩
  have hsame := (variant?_of_shown h hfirst).symm.trans (variant?_of_shown h hsecond)
  exact hne (Option.some.inj hsame)

/-- Documents have no common registry exactly when two of their values disagree. -/
theorem ofEntries_eq_error_iff (hd : ∀ entry ∈ entries, entry.2.IsStorable) :
    (∃ e, ofEntries entries = .error e) ↔ Disagree entries := by
  have hmeets := ofEntries_meets entries
  apply Iff.intro
  · rintro ⟨e, he⟩
    rw [he] at hmeets
    exact hmeets.disagree
  · intro hdisagree
    cases h : ofEntries entries with
    | error e => exact ⟨e, rfl⟩
    | ok r => exact absurd hdisagree (not_disagree_of_recordsAll (recordsAll_of_ofEntries hd h))

theorem ofEntries_eq_ok_of_recordsAll {s : Registry} (h : ∀ entry ∈ entries, s.RecordsAll entry.2) :
    ∃ r, ofEntries entries = .ok r := by
  have hmeets := ofEntries_meets entries
  cases hr : ofEntries entries with
  | ok r => exact ⟨r, rfl⟩
  | error e =>
    rw [hr] at hmeets
    exact absurd hmeets.disagree (not_disagree_of_recordsAll h)

end SidecarIndex.Registry

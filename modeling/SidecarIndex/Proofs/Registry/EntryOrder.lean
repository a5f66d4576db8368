import SidecarIndex.Proofs.Registry.Conflict
import SidecarIndex.Proofs.Index.Rebuild

/-! # The order of the entries

A registry is made entry by entry, and each list of values passes or fails by what came before it.
Whether the whole succeeds does not depend on this order, and neither does the registry: it is a
summary of what the documents hold. Only the error does, as it names the first values that stand
against earlier ones. -/

namespace SidecarIndex

/-- The variant of the values of an attribute, as the first of them has it. -/
def Document.variant? (d : Document) (name : String) : Option Variant :=
  (d.get? name).bind fun values => values.head?.map Value.variant

namespace Registry

variable {entries others : List (Path × Document)} {r s : Registry} {d : Document} {path : Path}
  {name : String} {variant registered found : Variant}

/-! ### What the entries hold -/

/-- Some entry has values of the variant under the attribute. -/
def Holds (entries : List (Path × Document)) (name : String) (variant : Variant) : Prop :=
  ∃ entry ∈ entries, entry.2.variant? name = some variant

/-- The variant of the earliest values of an attribute. -/
def earliest? (entries : List (Path × Document)) (name : String) : Option Variant :=
  entries.findSome? fun entry => entry.2.variant? name

/-- The values of an attribute in a document are of another variant than its earliest ones. -/
structure Deviates (entries : List (Path × Document)) (d : Document) (name : String)
    (registered found : Variant) : Prop where
  earliest : earliest? entries name = some registered
  variant : d.variant? name = some found
  ne : registered ≠ found

theorem firstVariant?_sightings (entries : List (Path × Document)) (name : String) :
    firstVariant? (sightings entries) name = earliest? entries name := by
  induction entries with
  | nil => rfl
  | cons entry rest ih =>
    have hentry : firstVariant? (entry.2.entries.map fun attr => ⟨entry.1, attr.1, attr.2⟩) name
        = entry.2.variant? name := by
      rw [firstVariant?, List.findSome?_map]
      exact OrderedMap.Entries.findSome?_key entry.2.attributes.nodup_keys name
        fun values => values.head?.map Value.variant
    rw [sightings, List.flatMap_cons, firstVariant?_append, hentry, earliest?, List.findSome?_cons]
    rw [sightings, earliest?] at ih
    rw [ih]
    cases entry.2.variant? name
    all_goals rfl

theorem holds_of_earliest? (h : earliest? entries name = some variant) :
    Holds entries name variant :=
  List.exists_of_findSome?_eq_some h

theorem exists_earliest? (h : Holds entries name variant) :
    ∃ first, earliest? entries name = some first := by
  obtain ⟨entry, hentry, hvariant⟩ := h
  exact Option.isSome_iff_exists.1
    (List.findSome?_isSome_iff.2 ⟨entry, hentry, by rw [hvariant]; rfl⟩)

/-- There is no deviation exactly where all values of an attribute are of one variant. -/
theorem forall_not_deviates_iff :
    (∀ entry ∈ entries, ∀ name registered found, ¬ Deviates entries entry.2 name registered found) ↔
      ∀ name first second, Holds entries name first → Holds entries name second →
        first = second := by
  apply Iff.intro
  · intro h name first second hfirst hsecond
    obtain ⟨registered, hearliest⟩ := exists_earliest? hfirst
    have hsame : ∀ variant, Holds entries name variant → registered = variant := by
      rintro variant ⟨entry, hentry, hvariant⟩
      by_contra hne
      exact h entry hentry name registered variant ⟨hearliest, hvariant, hne⟩
    exact (hsame first hfirst).symm.trans (hsame second hsecond)
  · intro h entry hentry name registered found hdeviates
    exact hdeviates.ne (h name registered found (holds_of_earliest? hdeviates.earliest)
      ⟨entry, hentry, hdeviates.variant⟩)

/-! ### Conflicts -/

theorem conflict?_eq_some_iff_deviates {attr : String × List Value} (hattr : attr ∈ d.entries)
    {e : Error} : conflict? (sightings entries) ⟨path, attr.1, attr.2⟩ = some e ↔
      ∃ registered found, Deviates entries d attr.1 registered found ∧
        e = .typeConsistency attr.1 path registered found := by
  have hvariant : d.variant? attr.1 = attr.2.head?.map Value.variant := by
    have hvalues : d.get? attr.1 = some attr.2 := OrderedMap.mem_entries_iff.1 hattr
    rw [Document.variant?, hvalues, Option.bind_some]
  simp only [conflict?_eq_some_iff, firstVariant?_sightings, Sighting.variant?, ← hvariant]
  apply Iff.intro
  · rintro ⟨registered, found, hearliest, hfound, hne, he⟩
    exact ⟨registered, found, ⟨hearliest, hfound, hne⟩, he⟩
  · rintro ⟨registered, found, ⟨hearliest, hfound, hne⟩, he⟩
    exact ⟨registered, found, hearliest, hfound, hne, he⟩

/-- Values that are no conflict do not deviate. -/
theorem not_deviates_of_conflict?_none {attrs : List (String × List Value)}
    (hattrs : ∀ attr ∈ attrs, conflict? (sightings entries) ⟨path, attr.1, attr.2⟩ = none)
    (hmem : ∀ values, (name, values) ∈ d.entries → (name, values) ∈ attrs) :
    ¬ Deviates entries d name registered found := by
  intro hdeviates
  obtain ⟨values, hvalues, _⟩ := Option.bind_eq_some_iff.1 hdeviates.variant
  have hentry : (name, values) ∈ d.entries := OrderedMap.mem_entries_iff.2 hvalues
  have hconflict : conflict? (sightings entries) ⟨path, name, values⟩
      = some (.typeConsistency name path registered found) :=
    (conflict?_eq_some_iff_deviates hentry).2 ⟨_, _, hdeviates, rfl⟩
  rw [hattrs (name, values) (hmem values hentry)] at hconflict
  cases hconflict

theorem head?_allConflicts (entries : List (Path × Document)) :
    (allConflicts entries).head? = entries.findSome? fun entry =>
      entry.2.entries.findSome? fun attr =>
        conflict? (sightings entries) ⟨entry.1, attr.1, attr.2⟩ := by
  rw [allConflicts]
  -- The entries are gone through once for what is seen and once for what is looked for.
  generalize conflict? (sightings entries) = f
  simp only [sightings, List.filterMap_flatMap, List.head?_flatMap, List.head?_filterMap,
    List.findSome?_map, Function.comp_def]

theorem allConflicts_eq_nil_iff : allConflicts entries = [] ↔
    ∀ entry ∈ entries, ∀ name registered found,
      ¬ Deviates entries entry.2 name registered found := by
  rw [← List.head?_eq_none_iff, head?_allConflicts]
  simp only [List.findSome?_eq_none_iff]
  apply Iff.intro
  · intro h entry hentry name registered found
    exact not_deviates_of_conflict?_none (h entry hentry) fun _ hvalues => hvalues
  · intro h entry hentry attr hattr
    refine Option.eq_none_iff_forall_ne_some.2 fun e he => ?_
    obtain ⟨registered, found, hdeviates, _⟩ := (conflict?_eq_some_iff_deviates hattr).1 he
    exact h entry hentry attr.1 registered found hdeviates

/-- The first conflict is that of the first entry with one, and in it of the first name with one. -/
theorem deviates_of_head?_allConflicts {e : Error} (h : (allConflicts entries).head? = some e) :
    ∃ before path d after name registered found, entries = before ++ (path, d) :: after ∧
      e = .typeConsistency name path registered found ∧ Deviates entries d name registered found ∧
      (∀ entry ∈ before, ∀ other registered found,
        ¬ Deviates entries entry.2 other registered found) ∧
      ∀ other < name, ∀ registered found, ¬ Deviates entries d other registered found := by
  rw [head?_allConflicts] at h
  obtain ⟨before, ⟨path, d⟩, after, hentries, hd, hbefore⟩ := List.findSome?_eq_some_iff.1 h
  obtain ⟨attrs, attr, _, hattrs, hattr, hnone⟩ := List.findSome?_eq_some_iff.1 hd
  have hmem : attr ∈ d.entries := by
    rw [hattrs]
    exact List.mem_append_right _ (List.mem_cons_self ..)
  obtain ⟨registered, found, hdeviates, he⟩ := (conflict?_eq_some_iff_deviates hmem).1 hattr
  refine ⟨before, path, d, after, attr.1, registered, found, hentries, he, hdeviates, ?_, ?_⟩
  · intro entry hentry other registered found
    exact not_deviates_of_conflict?_none (List.findSome?_eq_none_iff.1 (hbefore entry hentry))
      fun _ hvalues => hvalues
  · intro other hlt registered found
    have hsorted : d.entries.Pairwise fun a b => a.1 < b.1 := d.attributes.sorted
    refine not_deviates_of_conflict?_none hnone fun values hvalues => ?_
    rw [hattrs] at hsorted hvalues
    exact OrderedMap.Entries.mem_before_of_lt hsorted hvalues hlt

/-! ### Registries -/

/-- A registry is made where there is no conflict, and then it knows the earliest variants; else the
first conflict is the error. -/
theorem ofEntries_cases (entries : List (Path × Document)) :
    (allConflicts entries = [] ∧ ∃ r, ofEntries entries = .ok r ∧
      ∀ name, r.variant? name = earliest? entries name) ∨
    ∃ e, (allConflicts entries).head? = some e ∧ ofEntries entries = .error e := by
  have hconflicts := ofEntries_of_allConflicts entries
  cases h : allConflicts entries with
  | nil =>
    rw [h] at hconflicts
    obtain ⟨r, hr, hfollows⟩ := hconflicts
    exact .inl ⟨rfl, r, hr,
      fun name => (hfollows name).trans (firstVariant?_sightings entries name)⟩
  | cons first rest =>
    rw [h] at hconflicts
    exact .inr ⟨first, rfl, hconflicts⟩

theorem exists_ofEntries_iff : (∃ r, ofEntries entries = .ok r) ↔
    ∀ name first second, Holds entries name first → Holds entries name second → first = second := by
  rw [← forall_not_deviates_iff, ← allConflicts_eq_nil_iff]
  rcases ofEntries_cases entries with ⟨hnil, r, hr, _⟩ | ⟨e, hhead, he⟩
  · exact ⟨fun _ => hnil, fun _ => ⟨r, hr⟩⟩
  · apply Iff.intro
    · rintro ⟨r, hr⟩
      cases he.symm.trans hr
    · intro hnil
      rw [hnil] at hhead
      cases hhead

theorem variant?_of_ofEntries (h : ofEntries entries = .ok r) :
    r.variant? name = some variant ↔ Holds entries name variant := by
  have hagree := exists_ofEntries_iff.1 ⟨r, h⟩
  rcases ofEntries_cases entries with ⟨_, r', hr', hvariant⟩ | ⟨e, _, he⟩
  · cases hr'.symm.trans h
    rw [hvariant]
    apply Iff.intro
    · exact holds_of_earliest?
    · intro hholds
      obtain ⟨first, hfirst⟩ := exists_earliest? hholds
      rw [hfirst, hagree name first variant (holds_of_earliest? hfirst) hholds]
  · cases he.symm.trans h

theorem contains_of_observe {values : List Value} (h : r.observe path name values = .ok s) :
    s.Extends r ∧ s.contains name = true := by
  obtain ⟨_, _, hs⟩ := bind_eq_ok_iff.1 h
  cases hs
  exact ⟨extends_register .., (contains_register ..).2 (.inl rfl)⟩

theorem mem_names_iff : name ∈ r.names ↔ r.contains name = true := OrderedMap.mem_keys_iff

theorem mem_names_of_ofEntries (h : ofEntries entries = .ok r) :
    name ∈ r.names ↔ ∃ entry ∈ entries, name ∈ entry.2.names := by
  rw [mem_names_iff]
  apply Iff.intro
  · intro hname
    obtain ⟨d, hd, hcontains⟩ := backed_of_ofEntries h name hname
    obtain ⟨entry, hentry, rfl⟩ := List.mem_map.1 hd
    exact ⟨entry, hentry, OrderedMap.mem_keys_iff.2 hcontains⟩
  · rintro ⟨entry, hentry, hname⟩
    obtain ⟨values, hvalues⟩ := OrderedMap.contains_iff.1 (OrderedMap.mem_keys_iff.1 hname)
    rw [ofEntries_eq_foldlM] at h
    -- What one step has recorded is not lost in later ones.
    have hall := (settled_of_foldlM (fun r o => r.contains o.name = true)
      (fun later earlier o ho hext => hext.contains o.name ho)
      (fun r s o _ hstep => contains_of_observe hstep) h).2
    refine hall ⟨entry.1, name, values⟩ (List.mem_flatMap.2 ⟨entry, hentry, ?_⟩)
    exact List.mem_map.2 ⟨(name, values), OrderedMap.mem_entries_iff.2 hvalues, rfl⟩

/-- A registry is fixed by its names and the variants that it knows. -/
theorem eq_of_names_of_variant? (hnames : ∀ name, name ∈ r.names ↔ name ∈ s.names)
    (hvariant : ∀ name variant, r.variant? name = some variant ↔ s.variant? name = some variant) :
    r = s := by
  have hget : ∀ (t : Registry) name found, t.types.get? name = some found ↔
      name ∈ t.names ∧ found = t.variant? name := by
    intro t name found
    rw [mem_names_iff, contains_eq_true_iff, Registry.variant?]
    apply Iff.intro
    · intro h
      rw [h]
      exact ⟨⟨found, rfl⟩, rfl⟩
    · rintro ⟨⟨known, hknown⟩, rfl⟩
      rw [hknown]
      rfl
  have htypes : r.types = s.types := by
    refine OrderedMap.ext_get? fun name => Option.ext fun found => ?_
    rw [hget, hget, hnames, Option.ext (hvariant name)]
  cases r
  cases s
  cases htypes
  rfl

theorem holds_perm (h : others.Perm entries) : Holds others name variant ↔
    Holds entries name variant :=
  exists_congr fun _ => and_congr_left' h.mem_iff

/-- The same entries in another order have the same registry. -/
theorem ofEntries_perm (hperm : others.Perm entries) (h : ofEntries entries = .ok r) :
    ofEntries others = .ok r := by
  have hagree : ∀ name first second, Holds others name first → Holds others name second →
      first = second := by
    simp only [holds_perm hperm]
    exact exists_ofEntries_iff.1 ⟨r, h⟩
  obtain ⟨s, hs⟩ := exists_ofEntries_iff.2 hagree
  have hsame : s = r := by
    refine eq_of_names_of_variant? (fun name => ?_) fun name variant => ?_
    · rw [mem_names_of_ofEntries hs, mem_names_of_ofEntries h]
      exact exists_congr fun _ => and_congr_left' hperm.mem_iff
    · rw [variant?_of_ofEntries hs, variant?_of_ofEntries h]
      exact holds_perm hperm
  rw [hs, hsame]

/-- A registry is made from entries exactly when no attribute has values of two variants. It then
has the names of all documents, each with the variant of its values, or unknown where there are
none, and any order of the entries gives the same one. Otherwise the error names the first entry
with values of another variant than the earliest ones of their attribute, and of these values in it
those with the first name. -/
theorem ofEntries_by_contents (entries : List (Path × Document)) :
    ((∃ r, ofEntries entries = .ok r) ↔
      ∀ name first second, Holds entries name first → Holds entries name second → first = second) ∧
    (∀ r, ofEntries entries = .ok r →
      (∀ name, name ∈ r.names ↔ ∃ entry ∈ entries, name ∈ entry.2.names) ∧
      (∀ name variant, r.variant? name = some variant ↔ Holds entries name variant) ∧
      (∀ name, name ∈ r.unknown ↔
        (∃ entry ∈ entries, name ∈ entry.2.names) ∧ ∀ variant, ¬ Holds entries name variant) ∧
      ∀ others, others.Perm entries → ofEntries others = .ok r) ∧
    ∀ e, ofEntries entries = .error e →
      ∃ before path d after name registered found, entries = before ++ (path, d) :: after ∧
        e = .typeConsistency name path registered found ∧ Deviates entries d name registered found ∧
        (∀ entry ∈ before, ∀ other registered found,
          ¬ Deviates entries entry.2 other registered found) ∧
        ∀ other < name, ∀ registered found, ¬ Deviates entries d other registered found := by
  refine ⟨exists_ofEntries_iff, fun r hr => ⟨fun name => mem_names_of_ofEntries hr, ?_, ?_, ?_⟩, ?_⟩
  · exact fun name variant => variant?_of_ofEntries hr
  · intro name
    rw [mem_unknown_iff, ← mem_names_iff, mem_names_of_ofEntries hr,
      Option.eq_none_iff_forall_ne_some]
    simp only [ne_eq, variant?_of_ofEntries hr]
  · exact fun others hperm => ofEntries_perm hperm hr
  · intro e he
    rcases ofEntries_cases entries with ⟨_, r, hr, _⟩ | ⟨e', hhead, he'⟩
    · cases hr.symm.trans he
    · cases he'.symm.trans he
      exact deviates_of_head?_allConflicts hhead

/-- A rating without values, a number and a text, in pairs. -/
theorem ofEntries_by_contents_of_ratings :
    let bare : Path × Document := (⟨"a"⟩, .ofList [("author", [.text "me"]), ("rating", [])])
    let rated : Path × Document := (⟨"b"⟩, .ofList [("rating", [.number .zero])])
    let worded : Path × Document := (⟨"c"⟩, .ofList [("author", []), ("rating", [.text "good"])])
    (∃ r, ofEntries [bare, rated] = .ok r ∧ r.variant? "rating" = some .number ∧
      ofEntries [rated, bare] = .ok r) ∧
    (∃ r, ofEntries [bare] = .ok r ∧ "rating" ∈ r.unknown) ∧
    ofEntries [bare, rated, worded] = .error (.typeConsistency "rating" ⟨"c"⟩ .number .text) ∧
    ∀ other < "rating", ∀ registered found,
      ¬ Deviates [bare, rated, worded] worded.2 other registered found := by
  intro bare rated worded
  have hrated : ofEntries [bare, rated]
      = .ok ⟨.ofList [("author", some .text), ("rating", some .number)]⟩ := by decide +kernel
  have hbare : ofEntries [bare] = .ok ⟨.ofList [("author", some .text), ("rating", none)]⟩ := by
    decide +kernel
  have herror :
      ofEntries [bare, rated, worded] = .error (.typeConsistency "rating" ⟨"c"⟩ .number .text) := by
    decide +kernel
  obtain ⟨_, hvariant, _, hperm⟩ := (ofEntries_by_contents [bare, rated]).2.1 _ hrated
  obtain ⟨_, _, hunknown, _⟩ := (ofEntries_by_contents [bare]).2.1 _ hbare
  refine ⟨⟨_, hrated, ?_, hperm _ (.swap bare rated [])⟩, ⟨_, hbare, ?_⟩, herror, ?_⟩
  · exact (hvariant "rating" .number).2 ⟨rated, by simp, by decide⟩
  · refine (hunknown "rating").2 ⟨⟨bare, by simp, by decide⟩, fun variant hholds => ?_⟩
    obtain ⟨entry, hentry, hvalues⟩ := hholds
    rw [List.mem_singleton.1 hentry] at hvalues
    cases hvalues
  · obtain ⟨before, path, d, after, name, registered, found, hentries, he, _, _, hothers⟩ :=
      (ofEntries_by_contents [bare, rated, worded]).2.2 _ herror
    cases he
    have hmem : ((⟨"c"⟩, d) : Path × Document) ∈ [bare, rated, worded] := by simp [hentries]
    have hd : d = worded.2 := by simpa [bare, rated, worded] using hmem
    rwa [hd] at hothers

end Registry

end SidecarIndex

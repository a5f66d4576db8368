import SidecarIndex.Proofs.Index.Session

/-! # The registry agrees with a rebuild

The registry of a session is kept up edit by edit, and no edit takes a record away. Still it records
the attributes of the documents and no others. A registry that is made anew from the documents can
differ in one way alone: it does not know the variant of an attribute that has lost its last
value. -/

namespace SidecarIndex

theorem Document.contains_set (d : Document) (name other : String) (values : List Value) :
    (d.set name values).contains other = true ↔ other = name ∨ d.contains other = true := by
  simp only [contains, OrderedMap.contains, set, OrderedMap.get?_insert]
  by_cases h : other = name
  · simp [h]
  · simp [h]

theorem Document.contains_of_mem {d : Document} {attr : String × List Value}
    (h : attr ∈ d.entries) : d.contains attr.1 = true :=
  OrderedMap.contains_iff.2 ⟨attr.2, OrderedMap.mem_entries_iff.1 h⟩

namespace Registry

variable {r s : Registry} {entries : List (Path × Document)} {documents : List Document}
    {name : String}

/-! ### Registries of documents -/

/-- Every attribute that is recorded is one of some document. -/
def Backed (r : Registry) (documents : List Document) : Prop :=
  ∀ name, r.contains name = true → ∃ d ∈ documents, d.contains name = true

theorem Backed.register (h : r.Backed documents) (hname : ∃ d ∈ documents, d.contains name = true)
    (found : Option Variant) : (r.register name found).Backed documents := by
  intro other hother
  rcases (contains_register ..).1 hother with rfl | hold
  · exact hname
  · exact h other hold

theorem ofEntries_meets_backed (entries : List (Path × Document)) :
    Meets (fun r => Backed r (entries.map Prod.snd)) (fun _ => True) (ofEntries entries) := by
  have hempty : Backed empty (entries.map Prod.snd) := fun _ h => nomatch h
  -- One fold goes over the documents, and in each of its steps another over their attributes.
  refine Meets.foldlM hempty fun r hr entry hentry => ?_
  refine Meets.foldlM hr fun r hr attr hattr => ?_
  have hcheck : Meets (fun _ => True) (fun _ => True)
      (r.check entry.1 attr.1 (attr.2.head?.map Value.variant)) := by
    cases r.check entry.1 attr.1 (attr.2.head?.map Value.variant)
    all_goals trivial
  exact hcheck.bind fun _ _ =>
    hr.register ⟨entry.2, List.mem_map_of_mem hentry, Document.contains_of_mem hattr⟩ _

theorem backed_of_ofEntries (h : ofEntries entries = .ok r) : r.Backed (entries.map Prod.snd) := by
  have hmeets := ofEntries_meets_backed entries
  rw [h] at hmeets
  exact hmeets

theorem contains_iff_of_backed (h : r.Backed documents) (hall : ∀ d ∈ documents, r.RecordsAll d) :
    r.contains name = true ↔ ∃ d ∈ documents, d.contains name = true := by
  apply Iff.intro
  · exact h name
  · rintro ⟨d, hd, hname⟩
    obtain ⟨values, hvalues⟩ := OrderedMap.contains_iff.1 hname
    exact (hall d hd (name, values) (OrderedMap.mem_entries_of_get? hvalues)).contains

theorem names_eq_of_backed (hr : r.Backed documents) (hs : s.Backed documents)
    (hallr : ∀ d ∈ documents, r.RecordsAll d) (halls : ∀ d ∈ documents, s.RecordsAll d) :
    r.names = s.names :=
  OrderedMap.keys_eq_of_contains_iff fun _ =>
    (contains_iff_of_backed hr hallr).trans (contains_iff_of_backed hs halls).symm

theorem mem_unknown_iff : name ∈ r.unknown ↔ r.contains name = true ∧ r.variant? name = none := by
  have hentry : name ∈ r.unknown ↔ r.types.get? name = some none := by
    simp only [unknown, List.mem_map, List.mem_filter, Option.isNone_iff_eq_none]
    apply Iff.intro
    · rintro ⟨entry, ⟨hentry, hnone⟩, rfl⟩
      rw [OrderedMap.mem_entries_iff.1 hentry, hnone]
    · intro h
      exact ⟨(name, none), ⟨OrderedMap.mem_entries_of_get? h, rfl⟩, rfl⟩
  rw [hentry, contains_eq_true_iff, variant?, Option.join_eq_none_iff]
  apply Iff.intro
  · exact fun h => ⟨⟨none, h⟩, .inr h⟩
  · rintro ⟨⟨found, hfound⟩, hnone | hnone⟩
    · rw [hfound] at hnone
      cases hnone
    · exact hnone

/-! ### Attributes with values -/

/-- Some document has a value under the attribute. -/
def Held (entries : List (Path × Document)) (name : String) : Prop :=
  ∃ entry ∈ entries, ∃ values, entry.2.get? name = some values ∧ values ≠ []

theorem held_iff_shown : Held entries name ↔ ∃ variant, Shown entries name variant := by
  apply Iff.intro
  · rintro ⟨entry, hentry, values, hvalues, hne⟩
    obtain ⟨v, hv⟩ := List.exists_mem_of_ne_nil values hne
    exact ⟨v.variant, entry, hentry, values, hvalues, v, hv, rfl⟩
  · rintro ⟨_, entry, hentry, values, hvalues, v, hv, _⟩
    exact ⟨entry, hentry, values, hvalues, List.ne_nil_of_mem hv⟩

theorem known_of_ofEntries (h : ofEntries entries = .ok r) : Known entries r := by
  have hmeets := ofEntries_meets entries
  rw [h] at hmeets
  exact hmeets

/-- What a registry that was made anew has in common with one that was kept up. -/
structure Rebuilds (rebuilt live : Registry) (entries : List (Path × Document)) : Prop where
  names : rebuilt.names = live.names
  held : ∀ name, Held entries name →
    ∃ variant, live.variant? name = some variant ∧ rebuilt.variant? name = some variant
  emptied : ∀ name ∈ live.names, ¬ Held entries name → name ∈ rebuilt.unknown
  unknown : ∀ name ∈ live.unknown, ¬ Held entries name

/-- Documents that a registry records, and no other attributes, have a registry of their own. -/
theorem exists_rebuilds (hd : ∀ entry ∈ entries, entry.2.IsStorable)
    (hall : ∀ entry ∈ entries, s.RecordsAll entry.2) (hs : s.Backed (entries.map Prod.snd)) :
    ∃ r, ofEntries entries = .ok r ∧ r.Rebuilds s entries := by
  obtain ⟨r, hr⟩ := ofEntries_eq_ok_of_recordsAll hall
  have hallr := recordsAll_of_ofEntries hd hr
  have hnames : r.names = s.names :=
    names_eq_of_backed (backed_of_ofEntries hr) hs (List.forall_mem_map.2 hallr)
      (List.forall_mem_map.2 hall)
  refine ⟨r, hr, hnames, ?_, ?_, ?_⟩
  · intro name hheld
    obtain ⟨variant, hshown⟩ := held_iff_shown.1 hheld
    exact ⟨variant, variant?_of_shown hall hshown, variant?_of_shown hallr hshown⟩
  · intro name hname hnot
    rw [← hnames] at hname
    refine mem_unknown_iff.2 ⟨OrderedMap.mem_keys_iff.1 hname, ?_⟩
    exact Option.eq_none_iff_forall_ne_some.2 fun variant hvariant =>
      hnot (held_iff_shown.2 ⟨variant, known_of_ofEntries hr name variant hvariant⟩)
  · intro name hname hheld
    obtain ⟨variant, hshown⟩ := held_iff_shown.1 hheld
    have hvariant := variant?_of_shown hall hshown
    rw [(mem_unknown_iff.1 hname).2] at hvariant
    cases hvariant

end Registry

namespace Catalog

variable {c : Catalog} {view : View}

/-! ### The entries of a full view -/

/-- A view of all documents, in the order of their slots. -/
def IsFull (c : Catalog) (view : View) : Prop := view.map Entry.slot = List.range c.documents.length

theorem isFull_of_build {entries : List (Path × Document)} (h : build entries = .ok (c, view)) :
    c.IsFull view := by
  obtain ⟨_, hdocuments, rfl⟩ := build_eq_ok_iff.1 h
  rw [IsFull, map_slot_entriesFrom, hdocuments, List.length_map, List.range_eq_range']

theorem documents_eq_map_range (c : Catalog) :
    c.documents = (List.range c.documents.length).map c.document := by
  refine List.ext_getElem (by simp) fun i hi _ => ?_
  rw [List.getElem_map, List.getElem_range, document, List.getD_eq_getElem?_getD,
    List.getElem?_eq_getElem hi, Option.getD_some]

theorem IsFull.map_snd_contents (h : c.IsFull view) :
    (c.contents view).map Prod.snd = c.documents := by
  have hmap : (c.contents view).map Prod.snd = (view.map Entry.slot).map c.document := by
    rw [contents, List.map_map, List.map_map]
    rfl
  rw [hmap, h, ← documents_eq_map_range]

theorem entriesFrom_contents (first : Nat)
    (h : view.map Entry.slot = List.range' first view.length) :
    entriesFrom first (c.contents view) = view := by
  induction view generalizing first with
  | nil => rfl
  | cons entry rest ih =>
    rw [List.map_cons, List.length_cons, List.range'_succ] at h
    obtain ⟨hslot, hrest⟩ := List.cons.inj h
    have hentries : entriesFrom first (c.contents (entry :: rest))
        = ⟨entry.path, first⟩ :: entriesFrom (first + 1) (c.contents rest) := rfl
    rw [hentries, ih (first + 1) hrest, ← hslot]

theorem IsFull.entriesFrom_contents (h : c.IsFull view) :
    entriesFrom 0 (c.contents view) = view := by
  have hlength : view.length = c.documents.length := by
    rw [← List.length_map (f := Entry.slot), h, List.length_range]
  refine Catalog.entriesFrom_contents 0 ?_
  rw [h, hlength, List.range_eq_range']

theorem Sound.rebuild (hc : c.Sound) (hbacked : c.registry.Backed c.documents)
    (hview : c.IsFull view) : ∃ rebuilt, build (c.contents view) = .ok (rebuilt, view) ∧
    rebuilt.documents = c.documents ∧
      rebuilt.registry.Rebuilds c.registry (c.contents view) := by
  have hdocuments := hview.map_snd_contents
  have hmem : ∀ entry ∈ c.contents view, entry.2 ∈ c.documents := by
    rw [← hdocuments]
    exact fun entry hentry => List.mem_map_of_mem hentry
  obtain ⟨r, hr, hrebuilds⟩ := Registry.exists_rebuilds (s := c.registry)
    (fun entry hentry => hc.storable _ (hmem entry hentry))
    (fun entry hentry => hc.recorded _ (hmem entry hentry)) (by rwa [hdocuments])
  refine ⟨⟨c.documents, r⟩, ?_, rfl, hrebuilds⟩
  exact build_eq_ok_iff.2 ⟨hr, hdocuments.symm, hview.entriesFrom_contents.symm⟩

/-! ### Setting -/

theorem exists_contains_setAt {slot : Nat} {name other : String} {values : List Value}
    (h : ∃ d ∈ c.documents, d.contains other = true) :
    ∃ d ∈ (c.setAt slot name values).documents, d.contains other = true := by
  obtain ⟨d, hd, hother⟩ := h
  obtain ⟨i, hi⟩ := List.getElem?_of_mem hd
  have hafter := getElem?_setAt c slot name values i
  by_cases hslot : i = slot
  · rw [if_pos hslot, hi] at hafter
    exact ⟨_, List.mem_of_getElem? hafter, (Document.contains_set ..).2 (.inr hother)⟩
  · rw [if_neg hslot, hi] at hafter
    exact ⟨d, List.mem_of_getElem? hafter, hother⟩

theorem contains_setAt {slot : Nat} (hslot : slot < c.documents.length) (name : String)
    (values : List Value) :
    ∃ d ∈ (c.setAt slot name values).documents, d.contains name = true := by
  have hafter : slot < (c.setAt slot name values).documents.length := by
    rwa [length_documents_setAt]
  refine ⟨_, document_mem hafter, ?_⟩
  rw [document_setAt hslot]
  exact (Document.contains_set ..).2 (.inl rfl)

theorem backed_of_setAttribute {c' : Catalog} {path : Path} {name : String} {values : List Value}
    (hbacked : c.registry.Backed c.documents)
    (hslots : ∀ entry ∈ view, entry.slot < c.documents.length)
    (h : c.setAttribute view path name values = .ok c') : c'.registry.Backed c'.documents := by
  obtain ⟨entry, hentry, _, _, rfl⟩ := setAttribute_eq_ok_iff.1 h
  have hslot := hslots entry (List.mem_of_find?_eq_some hentry)
  -- No document loses an attribute, and the one that is recorded has been set.
  refine Registry.Backed.register ?_ (contains_setAt hslot name values) _
  exact fun other hother => exists_contains_setAt (hbacked other hother)

end Catalog

namespace Session

/-! ### Sessions -/

/-- The session is sound, its first view shows all documents, and its registry records their
attributes alone. -/
structure Indexed (s : Session) (index : View) : Prop where
  sound : s.Sound
  first : s.views.head? = some index
  full : s.catalog.IsFull index
  backed : s.registry.Backed s.catalog.documents

theorem indexed_of_ofSources {sources : List (Path × String)} {s : Session}
    (h : ofSources sources = .ok s) : ∃ index, s.views = [index] ∧ s.Indexed index := by
  have hsound := sound_of_ofSources h
  obtain ⟨⟨c, index⟩, hc, rfl⟩ := map_eq_ok_iff.1 h
  obtain ⟨entries, _, hbuild⟩ := Catalog.build_of_ofSources hc
  obtain ⟨hregistry, hdocuments, _⟩ := Catalog.build_eq_ok_iff.1 hbuild
  refine ⟨index, rfl, hsound, rfl, Catalog.isFull_of_build hbuild, ?_⟩
  show c.registry.Backed c.documents
  rw [hdocuments]
  exact Registry.backed_of_ofEntries hregistry

theorem Indexed.step {s : Session} {index : View} (hs : s.Indexed index) (call : Call) :
    (s.step call).Indexed index := by
  refine ⟨(sound_step hs.sound call).1, ?_, ?_, ?_⟩
  · rcases step_cases s call with ⟨_, _, _, found, _, heq⟩ | ⟨_, _, _, _, _, _, _, _, _, heq⟩ | heq
    · rw [heq]
      exact List.head?_append.trans (by rw [hs.first, Option.some_or])
    · rw [heq]
      exact hs.first
    · rw [heq]
      exact hs.first
  · have hfull := hs.full
    rwa [Catalog.IsFull, ← length_documents_step s call] at hfull
  · rcases step_cases s call with ⟨_, _, _, _, _, heq⟩ |
      ⟨view, hview, _, _, _, _, c, _, hset, heq⟩ | heq
    · rw [heq]
      exact hs.backed
    · rw [heq]
      exact Catalog.backed_of_setAttribute hs.backed (hs.sound.slots view hview) hset
    · rw [heq]
      exact hs.backed

theorem Indexed.run {s : Session} {index : View} (hs : s.Indexed index) (calls : List Call) :
    (s.run calls).Indexed index := by
  induction calls generalizing s with
  | nil => exact hs
  | cons call rest ih => exact ih (hs.step call)

/-- After any calls a catalog can be built anew from the entries of the first view. It has the same
view and documents, and its registry the same names. An attribute that has a value in some document
is recorded with the same variant by both registries; any other is unknown to the new one. What is
unknown to the registry that was kept up has no value anywhere. -/
theorem rebuild_agrees_of_run {sources : List (Path × String)} {s : Session}
    (h : ofSources sources = .ok s) (calls : List Call) :
    ∃ index, s.views = [index] ∧ (s.run calls).views.head? = some index ∧
      ∃ rebuilt, Catalog.build ((s.run calls).catalog.contents index) = .ok (rebuilt, index) ∧
        rebuilt.documents = (s.run calls).catalog.documents ∧
        rebuilt.registry.Rebuilds (s.run calls).registry
          ((s.run calls).catalog.contents index) := by
  obtain ⟨index, hviews, hindexed⟩ := indexed_of_ofSources h
  have hrun := hindexed.run calls
  exact ⟨index, hviews, hrun.first, hrun.sound.catalog.rebuild hrun.backed hrun.full⟩

/-- A session over one document with a tag. -/
def tagged : Session where
  catalog := ⟨[.ofList [("tags", [.text "draft"])]], ⟨.ofList [("tags", some .text)]⟩⟩
  views := [[⟨⟨"a"⟩, 0⟩]]

/-- After the last tag is gone, a rebuild does not know the variant of the tags. -/
theorem tags_unknown_to_rebuild :
    let calls := [Call.set 0 ⟨"a"⟩ "tags" [.boolean true], .filter 0 "tags=draft",
      .set 1 ⟨"a"⟩ "tags" []]
    ofSources [(⟨"a"⟩, "\x7b\"tags\": [\"draft\"]\x7d")] = .ok tagged ∧
    (tagged.run calls).registry.variant? "tags" = some .text ∧
    ∃ rebuilt, Catalog.build ((tagged.run calls).catalog.contents [⟨⟨"a"⟩, 0⟩])
      = .ok (rebuilt, [⟨⟨"a"⟩, 0⟩]) ∧ "tags" ∈ rebuilt.registry.unknown := by
  intro calls
  have hs : ofSources [(⟨"a"⟩, "\x7b\"tags\": [\"draft\"]\x7d")] = .ok tagged := by decide +kernel
  have hcontents : (tagged.run calls).catalog.contents [⟨⟨"a"⟩, 0⟩]
      = [(⟨"a"⟩, .ofList [("tags", [])])] := by decide +kernel
  have hempty : (Document.ofList [("tags", [])]).get? "tags" = some [] := by decide +kernel
  obtain ⟨index, hviews, _, rebuilt, hbuild, _, hrebuilds⟩ := rebuild_agrees_of_run hs calls
  obtain rfl := (List.cons.inj hviews).1
  refine ⟨hs, by decide +kernel, rebuilt, hbuild, hrebuilds.emptied "tags" (by decide +kernel) ?_⟩
  rw [hcontents]
  rintro ⟨entry, hentry, values, hvalues, hne⟩
  rw [List.mem_singleton.1 hentry, hempty] at hvalues
  exact hne (Option.some.inj hvalues).symm

end Session

end SidecarIndex

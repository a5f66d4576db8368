import SidecarIndex.Index.Catalog
import SidecarIndex.Proofs.Registry

/-! # Catalogs whose documents fit their registry

All documents of a catalog can be stored, and its registry records all their attributes. Building a
catalog from side-cars establishes this, and setting an attribute keeps it. -/

namespace SidecarIndex.Catalog

/-- Every document can be stored, and its attributes are recorded with the variants of their
values. -/
structure Sound (c : Catalog) : Prop where
  storable : ∀ d ∈ c.documents, d.IsStorable
  recorded : ∀ d ∈ c.documents, c.registry.RecordsAll d

theorem document_mem {c : Catalog} {slot : Nat} (h : slot < c.documents.length) :
    c.document slot ∈ c.documents := by
  rw [document, List.getD_eq_getElem?_getD, List.getElem?_eq_getElem h]
  exact List.getElem_mem h

/-! ### Building -/

theorem readSources_eq_ok_iff {sources : List (Path × String)} {entries : List (Path × Document)} :
    readSources sources = .ok entries ↔ List.Forall₂
      (fun source entry => source.1 = entry.1 ∧ Document.ofText source.2 = .ok entry.2)
      sources entries := by
  rw [readSources, mapM_eq_ok_iff]
  apply Iff.intro
  · intro h
    refine h.imp fun source entry heq => ?_
    split at heq
    · rename_i d hd
      cases heq
      exact ⟨rfl, hd⟩
    · cases heq
  · intro h
    refine h.imp fun source entry heq => ?_
    obtain ⟨hpath, hd⟩ := heq
    simp only [hd]
    exact congrArg Except.ok (Prod.ext hpath rfl)

theorem build_eq_ok_iff {entries : List (Path × Document)} {c : Catalog} {view : View} :
    build entries = .ok (c, view) ↔
      Registry.ofEntries entries = .ok c.registry ∧ c.documents = entries.map Prod.snd ∧
        view = entriesFrom 0 entries := by
  simp only [build, bind_eq_ok_iff]
  constructor
  · intro h
    obtain ⟨registry, hregistry, h⟩ := h
    cases h
    exact ⟨hregistry, rfl, rfl⟩
  · intro h
    obtain ⟨hregistry, hdocuments, rfl⟩ := h
    refine ⟨c.registry, hregistry, ?_⟩
    rw [← hdocuments]
    rfl

theorem getElem?_of_mem_entriesFrom {first : Nat} {entries : List (Path × Document)} {entry : Entry}
    (h : entry ∈ entriesFrom first entries) :
    ∃ i, entry.slot = first + i ∧ (entries.map Prod.fst)[i]? = some entry.path := by
  induction entries generalizing first with
  | nil => cases h
  | cons head rest ih =>
    rw [entriesFrom] at h
    rcases List.mem_cons.1 h with rfl | h
    · exact ⟨0, rfl, rfl⟩
    · obtain ⟨i, hslot, hpath⟩ := ih h
      exact ⟨i + 1, by omega, hpath⟩

theorem slot_lt_of_mem_entriesFrom {entries : List (Path × Document)} {entry : Entry}
    (h : entry ∈ entriesFrom 0 entries) : entry.slot < entries.length := by
  obtain ⟨i, hslot, hpath⟩ := getElem?_of_mem_entriesFrom h
  rw [hslot, Nat.zero_add, ← List.length_map (f := Prod.fst)]
  exact (List.getElem?_eq_some_iff.1 hpath).1

theorem eq_of_slot_eq {first : Nat} {entries : List (Path × Document)} {a b : Entry}
    (ha : a ∈ entriesFrom first entries) (hb : b ∈ entriesFrom first entries)
    (h : a.slot = b.slot) : a = b := by
  obtain ⟨i, hi, hpath⟩ := getElem?_of_mem_entriesFrom ha
  obtain ⟨j, hj, hother⟩ := getElem?_of_mem_entriesFrom hb
  have hij : i = j := by omega
  rw [hij, hother] at hpath
  cases a
  cases b
  cases h
  cases hpath
  rfl

theorem map_slot_entriesFrom (first : Nat) (entries : List (Path × Document)) :
    (entriesFrom first entries).map Entry.slot = List.range' first entries.length := by
  induction entries generalizing first with
  | nil => rfl
  | cons head rest ih =>
    rw [entriesFrom, List.map_cons, ih, List.length_cons, List.range'_succ]

theorem map_path_entriesFrom (first : Nat) (entries : List (Path × Document)) :
    (entriesFrom first entries).map Entry.path = entries.map Prod.fst := by
  induction entries generalizing first with
  | nil => rfl
  | cons head rest ih => rw [entriesFrom, List.map_cons, ih, List.map_cons]

theorem entriesFrom_congr {first : Nat} {entries others : List (Path × Document)}
    (h : entries.map Prod.fst = others.map Prod.fst) :
    entriesFrom first entries = entriesFrom first others := by
  induction entries generalizing first others with
  | nil =>
    rw [List.map_nil, eq_comm, List.map_eq_nil_iff] at h
    rw [h]
  | cons head rest ih =>
    cases others with
    | nil => cases h
    | cons other others =>
      rw [List.map_cons, List.map_cons] at h
      obtain ⟨hpath, hrest⟩ := List.cons.inj h
      rw [entriesFrom, entriesFrom, hpath, ih hrest]

theorem sound_of_build {entries : List (Path × Document)} {c : Catalog} {view : View}
    (hd : ∀ entry ∈ entries, entry.2.IsStorable) (h : build entries = .ok (c, view)) : c.Sound := by
  obtain ⟨hregistry, hdocuments, _⟩ := build_eq_ok_iff.1 h
  refine ⟨?_, ?_⟩
  · intro d hmem
    rw [hdocuments] at hmem
    obtain ⟨entry, hentry, rfl⟩ := List.mem_map.1 hmem
    exact hd entry hentry
  · intro d hmem
    rw [hdocuments] at hmem
    obtain ⟨entry, hentry, rfl⟩ := List.mem_map.1 hmem
    exact Registry.recordsAll_of_ofEntries hd hregistry entry hentry

theorem slot_lt_of_build {entries : List (Path × Document)} {c : Catalog} {view : View}
    (h : build entries = .ok (c, view)) : ∀ entry ∈ view, entry.slot < c.documents.length := by
  obtain ⟨_, hdocuments, rfl⟩ := build_eq_ok_iff.1 h
  intro entry hentry
  rw [hdocuments, List.length_map]
  exact slot_lt_of_mem_entriesFrom hentry

/-- A catalog of side-cars is built from documents that can be stored. -/
theorem build_of_ofSources {sources : List (Path × String)} {c : Catalog} {view : View}
    (h : ofSources sources = .ok (c, view)) :
    ∃ entries, (∀ entry ∈ entries, entry.2.IsStorable ∧ entry.2.IsRead) ∧
      build entries = .ok (c, view) := by
  rw [ofSources, bind_eq_ok_iff] at h
  obtain ⟨entries, hentries, hbuild⟩ := h
  refine ⟨entries, fun entry hentry => ?_, hbuild⟩
  obtain ⟨source, _, _, htext⟩ := exists_of_forall₂_of_mem (readSources_eq_ok_iff.1 hentries) hentry
  exact Document.isStorable_of_ofText htext

theorem sound_of_ofSources {sources : List (Path × String)} {c : Catalog} {view : View}
    (h : ofSources sources = .ok (c, view)) :
    c.Sound ∧ ∀ entry ∈ view, entry.slot < c.documents.length := by
  obtain ⟨entries, hentries, hbuild⟩ := build_of_ofSources h
  exact ⟨sound_of_build (fun entry hentry => (hentries entry hentry).1) hbuild,
    slot_lt_of_build hbuild⟩

theorem isRead_of_ofSources {sources : List (Path × String)} {c : Catalog} {view : View}
    (h : ofSources sources = .ok (c, view)) : ∀ d ∈ c.documents, d.IsRead := by
  obtain ⟨entries, hentries, hbuild⟩ := build_of_ofSources h
  obtain ⟨_, hdocuments, _⟩ := build_eq_ok_iff.1 hbuild
  rw [hdocuments, List.forall_mem_map]
  exact fun entry hentry => (hentries entry hentry).2

/-! ### Views -/

theorem filter_eq_ok_iff {c : Catalog} {view found : View} {query : String} :
    c.filter view query = .ok found ↔
      ∃ predicates, Query.ofText query = .ok predicates ∧ found = c.select view predicates := by
  rw [filter]
  cases Query.ofText query with
  | ok predicates => simp [eq_comm]
  | error fault => simp

theorem subset_of_filter {c : Catalog} {view found : View} {query : String}
    (h : c.filter view query = .ok found) : ∀ entry ∈ found, entry ∈ view := by
  obtain ⟨predicates, _, rfl⟩ := filter_eq_ok_iff.1 h
  exact fun entry hentry => (List.mem_filter.1 hentry).1

theorem entry?_eq_some_iff {view : View} {path : Path} {entry : Entry} :
    view.entry? path = some entry ↔ ∃ before after, view = before ++ entry :: after ∧
      entry.path.same path = true ∧ ∀ other ∈ before, other.path.same path = false := by
  rw [View.entry?, List.find?_eq_some_iff_append]
  simp only [Bool.not_eq_true']
  apply Iff.intro
  · rintro ⟨hsame, before, after, hview, hbefore⟩
    exact ⟨before, after, hview, hsame, hbefore⟩
  · rintro ⟨before, after, hview, hsame, hbefore⟩
    exact ⟨hsame, before, after, hview, hbefore⟩

/-- Where no two entries have the same path, each is found by its own. -/
theorem entry?_path_of_pairwise {view : View}
    (h : view.Pairwise fun a b => a.path.same b.path = false)
    {entry : Entry} (hentry : entry ∈ view) : view.entry? entry.path = some entry := by
  obtain ⟨before, after, rfl⟩ := List.append_of_mem hentry
  refine entry?_eq_some_iff.2 ⟨before, after, rfl, Path.same_iff.2 rfl, fun other hother => ?_⟩
  exact (List.pairwise_append.1 h).2.2 other hother entry (List.mem_cons_self ..)

/-! ### Setting -/

/-- An attribute is set exactly when the view has an entry with the path, the attribute can be
stored and its variant is not another than the recorded one. -/
theorem setAttribute_eq_ok_iff {c c' : Catalog} {view : View} {path : Path} {name : String}
    {values : List Value} : c.setAttribute view path name values = .ok c' ↔
      ∃ entry, view.entry? path = some entry ∧ StorableAttribute name values ∧
        (∀ registered ∈ c.registry.variant? name, ∀ variant ∈ values.head?.map Value.variant,
          registered = variant) ∧
        c' = { c with registry := c.registry.register name (values.head?.map Value.variant) }.setAt
          entry.slot name values := by
  rw [setAttribute]
  cases hentry : view.entry? path with
  | none => simp
  | some entry =>
    simp only [Option.some.injEq]
    by_cases hname : isName name.toList = true
    swap
    · simp only [hname, Bool.not_false, if_true, reduceCtorEq, false_iff]
      intro h
      obtain ⟨_, _, hattribute, _⟩ := h
      exact hname hattribute.isName
    simp only [hname, Bool.not_true, Bool.false_eq_true, if_false, Registry.checkValues,
      bind_eq_ok_iff]
    have hfaults : values.findSome? storeFault? = none ↔
        ∀ value ∈ values, value.isStorable = true := by
      simp only [List.findSome?_eq_none_iff, storeFault?_eq_none_iff]
    apply Iff.intro
    · intro h
      obtain ⟨found, hfound, hset⟩ := h
      split at hfound
      · cases hfound
      · rename_i common hcommon
        obtain ⟨_, hcheck, heq⟩ := bind_eq_ok_iff.1 hfound
        cases heq
        obtain ⟨rfl, hall⟩ := commonVariant_eq_ok_iff.1 hcommon
        split at hset
        · cases hset
        · rename_i hnone
          cases hset
          exact ⟨entry, rfl, ⟨hname, hall, hfaults.1 hnone⟩, Registry.check_eq_ok_iff.1 hcheck, rfl⟩
    · intro h
      obtain ⟨_, rfl, hattribute, hagree, rfl⟩ := h
      refine ⟨values.head?.map Value.variant, ?_, ?_⟩
      · rw [commonVariant_eq_ok_iff.2 ⟨rfl, hattribute.homogeneous⟩]
        exact bind_eq_ok_iff.2 ⟨(), Registry.check_eq_ok_iff.2 hagree, rfl⟩
      · rw [hfaults.2 hattribute.storable]

theorem getElem?_setAt (c : Catalog) (slot : Nat) (name : String) (values : List Value)
    (other : Nat) : (c.setAt slot name values).documents[other]? =
      if other = slot then c.documents[other]?.map fun d => d.set name values
      else c.documents[other]? := by
  rw [setAt, List.getElem?_modify]
  by_cases h : other = slot
  · simp [h]
  · simp [h, Ne.symm h]

theorem document_setAt {c : Catalog} {slot : Nat} (h : slot < c.documents.length) (name : String)
    (values : List Value) :
    (c.setAt slot name values).document slot = (c.document slot).set name values := by
  rw [document, document, List.getD_eq_getElem?_getD, List.getD_eq_getElem?_getD, getElem?_setAt,
    if_pos rfl, List.getElem?_eq_getElem h]
  rfl

theorem document_setAt_of_ne (c : Catalog) {slot other : Nat} (h : other ≠ slot) (name : String)
    (values : List Value) : (c.setAt slot name values).document other = c.document other := by
  rw [document, document, List.getD_eq_getElem?_getD, List.getD_eq_getElem?_getD, getElem?_setAt,
    if_neg h]

theorem mem_documents_setAt {c : Catalog} {slot : Nat} {name : String} {values : List Value}
    {d : Document} (h : d ∈ (c.setAt slot name values).documents) :
    d ∈ c.documents ∨ ∃ old ∈ c.documents, d = old.set name values := by
  obtain ⟨i, hi⟩ := List.getElem?_of_mem h
  rw [getElem?_setAt] at hi
  by_cases hslot : i = slot
  · rw [if_pos hslot] at hi
    obtain ⟨old, hold, rfl⟩ := Option.map_eq_some_iff.1 hi
    exact .inr ⟨old, List.mem_of_getElem? hold, rfl⟩
  · rw [if_neg hslot] at hi
    exact .inl (List.mem_of_getElem? hi)

theorem length_documents_setAt (c : Catalog) (slot : Nat) (name : String) (values : List Value) :
    (c.setAt slot name values).documents.length = c.documents.length :=
  List.length_modify ..

theorem document_of_getElem? {c : Catalog} {slot : Nat} {d : Document}
    (h : c.documents[slot]? = some d) : c.document slot = d := by
  rw [document, List.getD_eq_getElem?_getD, h]
  rfl

theorem documents_of_setAttribute {c c' : Catalog} {view : View} {path : Path} {name : String}
    {values : List Value} {entry : Entry}
    (hset : c.setAttribute view path name values = .ok c')
    (hentry : view.entry? path = some entry) :
    c'.documents = c.documents.modify entry.slot fun d => d.set name values := by
  obtain ⟨found, hfound, _, _, rfl⟩ := setAttribute_eq_ok_iff.1 hset
  cases hentry.symm.trans hfound
  rfl

theorem metadata_of_setAttribute {c c' : Catalog} {view : View} {path : Path} {name : String}
    {values : List Value} {entry : Entry}
    (hset : c.setAttribute view path name values = .ok c') (hentry : view.entry? path = some entry)
    {d : Document} (hd : c.documents[entry.slot]? = some d) :
    c'.metadata view path = d.set name values := by
  have hnew : c'.documents[entry.slot]? = some (d.set name values) := by
    rw [documents_of_setAttribute hset hentry, List.getElem?_modify_eq, hd]
    rfl
  rw [metadata, find?, hentry]
  exact document_of_getElem? hnew

/-- Setting an attribute only adds to the registry and keeps the documents in accord with it. -/
theorem sound_of_setAttribute {c c' : Catalog} {view : View} {path : Path} {name : String}
    {values : List Value} (hc : c.Sound) (h : c.setAttribute view path name values = .ok c') :
    c'.Sound ∧ c'.registry.Extends c.registry ∧ c'.documents.length = c.documents.length := by
  obtain ⟨entry, _, hattribute, hagree, rfl⟩ := setAttribute_eq_ok_iff.1 h
  have hext : (c.registry.register name (values.head?.map Value.variant)).Extends c.registry :=
    Registry.extends_register ..
  have hnew : (c.registry.register name (values.head?.map Value.variant)).Records name values := by
    obtain ⟨variant, hall⟩ := hattribute.homogeneous
    have hobserve : c.registry.observe path name values
        = .ok (c.registry.register name (values.head?.map Value.variant)) := by
      rw [Registry.observe]
      exact bind_eq_ok_iff.2 ⟨(), Registry.check_eq_ok_iff.2 hagree, rfl⟩
    exact (Registry.records_of_observe hall hobserve).2
  refine ⟨⟨?_, ?_⟩, hext, length_documents_setAt ..⟩
  · intro d hd
    rcases mem_documents_setAt hd with hd | ⟨old, hold, rfl⟩
    · exact hc.storable d hd
    · exact Document.isStorable_set (hc.storable old hold) hattribute
  · intro d hd
    rcases mem_documents_setAt hd with hd | ⟨old, hold, rfl⟩
    · exact (hc.recorded d hd).of_extends hext
    · intro attr hmem
      rcases Document.mem_entries_set.1 hmem with rfl | ⟨_, hmem⟩
      · exact hnew
      · exact (hc.recorded old hold attr hmem).of_extends hext

/-- So it does the values that some text denotes, when the new ones are such. -/
theorem isRead_of_setAttribute {c c' : Catalog} {view : View} {path : Path} {name : String}
    {values : List Value} (hc : ∀ d ∈ c.documents, d.IsRead)
    (hvalues : ∀ value ∈ values, value.IsRead)
    (h : c.setAttribute view path name values = .ok c') : ∀ d ∈ c'.documents, d.IsRead := by
  obtain ⟨entry, _, _, _, rfl⟩ := setAttribute_eq_ok_iff.1 h
  intro d hd
  rcases mem_documents_setAt hd with hd | ⟨old, hold, rfl⟩
  · exact hc d hd
  · exact Document.isRead_set (hc old hold) hvalues

end SidecarIndex.Catalog

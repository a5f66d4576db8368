import Mathlib.Data.List.Nodup
import SidecarIndex.Proofs.Index.InPlace

/-! # Views share documents

A view does not hold documents but names the cells they are in, and so it does with the registry.
Building an index takes new cells; filtering a view makes another one of the same cells. So what is
set through one view is seen in every view of the index that holds the entry, and nowhere else: the
entries of an index have different cells, also where their paths are the same. -/

namespace SidecarIndex

/-- The cells that views share: documents and registries, each known by its number. -/
structure Cells where
  documents : List Document
  registries : List Registry
  deriving DecidableEq

/-- What a view is by itself: entries, with the cells of their documents, and the cell of its
registry. -/
structure Handle where
  entries : View
  registry : Nat
  deriving DecidableEq

namespace Cells

def catalog (m : Cells) (h : Handle) : Catalog :=
  ⟨m.documents, m.registries.getD h.registry Registry.empty⟩

/-- What a view shows: its paths with their documents, in order. -/
def contents (m : Cells) (h : Handle) : List (Path × Document) := (m.catalog h).contents h.entries

/-- An index takes new cells for its documents and its registry, behind those of other indexes. -/
def build (m : Cells) (entries : List (Path × Document)) : Except Error (Cells × Handle) := do
  let (c, _) ← Catalog.build entries
  return (⟨m.documents ++ c.documents, m.registries ++ [c.registry]⟩,
    ⟨Catalog.entriesFrom m.documents.length entries, m.registries.length⟩)

def filter (m : Cells) (h : Handle) (query : String) : Except Error Handle :=
  ((m.catalog h).filter h.entries query).map fun found => { h with entries := found }

def setAttribute (m : Cells) (h : Handle) (path : Path) (name : String) (values : List Value) :
    Except Error Cells :=
  ((m.catalog h).setAttribute h.entries path name values).map fun c =>
    ⟨c.documents, m.registries.set h.registry c.registry⟩

/-- Whoever holds a document may put anything into its cell. -/
def edit (m : Cells) (slot : Nat) (d : Document) : Cells :=
  { m with documents := m.documents.set slot d }

variable {m m' : Cells} {h found : Handle} {path : Path} {name query : String} {values : List Value}

theorem build_eq_ok_iff {entries : List (Path × Document)} : m.build entries = .ok (m', h) ↔
    ∃ registry, Registry.ofEntries entries = .ok registry ∧
      m' = ⟨m.documents ++ entries.map Prod.snd, m.registries ++ [registry]⟩ ∧
      h = ⟨Catalog.entriesFrom m.documents.length entries, m.registries.length⟩ := by
  simp only [build, Catalog.build, bind_eq_ok_iff]
  apply Iff.intro
  · intro hbuild
    obtain ⟨_, ⟨registry, hregistry, hcatalog⟩, hresult⟩ := hbuild
    cases hcatalog
    cases hresult
    exact ⟨registry, hregistry, rfl, rfl⟩
  · intro hbuild
    obtain ⟨registry, hregistry, rfl, rfl⟩ := hbuild
    exact ⟨_, ⟨registry, hregistry, rfl⟩, rfl⟩

theorem of_filter (hfilter : m.filter h query = .ok found) :
    found.registry = h.registry ∧ found.entries.Sublist h.entries := by
  obtain ⟨view, hview, rfl⟩ := map_eq_ok_iff.1 hfilter
  obtain ⟨predicates, _, rfl⟩ := Catalog.filter_eq_ok_iff.1 hview
  exact ⟨rfl, List.filter_sublist⟩

theorem catalog_of_setAttribute (hregistry : h.registry < m.registries.length)
    (hset : m.setAttribute h path name values = .ok m') :
    (m.catalog h).setAttribute h.entries path name values = .ok (m'.catalog h) := by
  obtain ⟨c, hc, rfl⟩ := map_eq_ok_iff.1 hset
  rw [hc, catalog, List.getD_eq_getElem?_getD, List.getElem?_set_self hregistry]
  rfl

theorem catalog_eq_of_registry_eq {v w : Handle} (hregistry : w.registry = v.registry) (m : Cells) :
    m.catalog w = m.catalog v := by
  rw [catalog, catalog, hregistry]

end Cells

/-! ### Views of one index -/

/-- An index that has been built among other cells, with the views that have been filtered from it
or from each other so far, each with the number of the view that it was filtered from. -/
inductive Family : Cells → List Handle → List Nat → Prop where
  | build {m m' : Cells} {entries : List (Path × Document)} {index : Handle}
    (h : m.build entries = .ok (m', index)) : Family m' [index] []
  | filter {m : Cells} {handles : List Handle} {origins : List Nat} (hf : Family m handles origins)
    {i : Nat} {h found : Handle} {query : String} (hi : handles[i]? = some h)
    (hfilter : m.filter h query = .ok found) : Family m (handles ++ [found]) (origins ++ [i])
  | set {m m' : Cells} {handles : List Handle} {origins : List Nat} (hf : Family m handles origins)
    {h : Handle} (hh : h ∈ handles) {path : Path} {name : String} {values : List Value}
    (hset : m.setAttribute h path name values = .ok m') : Family m' handles origins
  | edit {m : Cells} {handles : List Handle} {origins : List Nat} (hf : Family m handles origins)
    (slot : Nat) (d : Document) : Family (m.edit slot d) handles origins

namespace Family

variable {m : Cells} {handles : List Handle} {origins : List Nat}

/-- The first view is the index. All views have its registry and entries of it, and these have cells
of their own. -/
structure Sound (m : Cells) (handles : List Handle) (index : Handle) : Prop where
  first : ∃ rest, handles = index :: rest
  slots : (index.entries.map Entry.slot).Nodup
  inside : ∀ entry ∈ index.entries, entry.slot < m.documents.length
  registry : index.registry < m.registries.length
  views : ∀ h ∈ handles, h.registry = index.registry ∧ h.entries.Sublist index.entries

structure Derived (handles : List Handle) (origins : List Nat) : Prop where
  length : handles.length = origins.length + 1
  sublist : ∀ k i, origins[k]? = some i → ∃ origin view, handles[i]? = some origin ∧
    handles[k + 1]? = some view ∧ view.entries.Sublist origin.entries

theorem sound_build {entries : List (Path × Document)} {m' : Cells} {index : Handle}
    (h : m.build entries = .ok (m', index)) : Sound m' [index] index := by
  obtain ⟨registry, _, rfl, rfl⟩ := Cells.build_eq_ok_iff.1 h
  have hslots := Catalog.map_slot_entriesFrom m.documents.length entries
  refine ⟨⟨[], rfl⟩, ?_, fun entry hentry => ?_, by simp, fun other hother => ?_⟩
  · rw [hslots]
    exact List.nodup_range'
  · have hmem : entry.slot ∈ List.range' m.documents.length entries.length :=
      hslots ▸ List.mem_map_of_mem hentry
    simpa using (List.mem_range'_1.1 hmem).2
  · rw [List.mem_singleton.1 hother]
    exact ⟨rfl, .refl _⟩

theorem Sound.of_lengths {m' : Cells} {index : Handle} (h : Sound m handles index)
    (hdocuments : m'.documents.length = m.documents.length)
    (hregistries : m'.registries.length = m.registries.length) : Sound m' handles index := by
  refine ⟨h.first, h.slots, ?_, hregistries ▸ h.registry, h.views⟩
  rw [hdocuments]
  exact h.inside

theorem Sound.filter {index h found : Handle} (hs : Sound m handles index) (hh : h ∈ handles)
    {query : String} (hfilter : m.filter h query = .ok found) :
    Sound m (handles ++ [found]) index := by
  obtain ⟨hregistry, hentries⟩ := Cells.of_filter hfilter
  obtain ⟨horigin, hsublist⟩ := hs.views h hh
  obtain ⟨rest, hfirst⟩ := hs.first
  refine ⟨⟨rest ++ [found], by rw [hfirst, List.cons_append]⟩, hs.slots, hs.inside, hs.registry,
    fun other hother => ?_⟩
  rcases List.mem_append.1 hother with hother | hother
  · exact hs.views other hother
  · rw [List.mem_singleton.1 hother]
    exact ⟨hregistry.trans horigin, hentries.trans hsublist⟩

theorem lengths_setAttribute {m' : Cells} {h : Handle} {path : Path} {name : String}
    {values : List Value} (hset : m.setAttribute h path name values = .ok m') :
    m'.documents.length = m.documents.length ∧ m'.registries.length = m.registries.length := by
  obtain ⟨c, hc, rfl⟩ := map_eq_ok_iff.1 hset
  obtain ⟨entry, _, _, _, rfl⟩ := Catalog.setAttribute_eq_ok_iff.1 hc
  exact ⟨Catalog.length_documents_setAt .., List.length_set⟩

theorem exists_sound (hf : Family m handles origins) : ∃ index, Sound m handles index := by
  induction hf with
  | build h => exact ⟨_, sound_build h⟩
  | filter _ hi hfilter ih =>
    obtain ⟨index, hs⟩ := ih
    exact ⟨index, hs.filter (List.mem_of_getElem? hi) hfilter⟩
  | set _ _ hset ih =>
    obtain ⟨index, hs⟩ := ih
    obtain ⟨hdocuments, hregistries⟩ := lengths_setAttribute hset
    exact ⟨index, hs.of_lengths hdocuments hregistries⟩
  | edit _ slot d ih =>
    obtain ⟨index, hs⟩ := ih
    exact ⟨index, hs.of_lengths List.length_set rfl⟩

theorem Derived.filter {handles : List Handle} {origins : List Nat} (hd : Derived handles origins)
    {i : Nat} {h found : Handle} (hi : handles[i]? = some h)
    (hsublist : found.entries.Sublist h.entries) :
    Derived (handles ++ [found]) (origins ++ [i]) := by
  refine ⟨by simp [hd.length], fun k j hk => ?_⟩
  -- The new view comes last, so the others keep their numbers.
  have hold : ∀ {n : Nat} {view : Handle}, handles[n]? = some view →
      (handles ++ [found])[n]? = some view :=
    fun hn => (List.getElem?_append_left (List.getElem?_eq_some_iff.1 hn).1).trans hn
  by_cases hlt : k < origins.length
  · rw [List.getElem?_append_left hlt] at hk
    obtain ⟨origin, view, horigin, hview, hsub⟩ := hd.sublist k j hk
    exact ⟨origin, view, hold horigin, hold hview, hsub⟩
  · have hlast : k = origins.length := by
      have hbound := (List.getElem?_eq_some_iff.1 hk).1
      rw [List.length_append, List.length_singleton] at hbound
      omega
    rw [hlast, List.getElem?_concat_length, Option.some.injEq] at hk
    refine ⟨h, found, hk ▸ hold hi, ?_, hsublist⟩
    rw [hlast, ← hd.length, List.getElem?_concat_length]

theorem derived (hf : Family m handles origins) : Derived handles origins := by
  induction hf with
  | build _ => exact ⟨rfl, fun _ _ h => nomatch h⟩
  | filter _ hi hfilter ih => exact ih.filter hi (Cells.of_filter hfilter).2
  | set _ _ _ ih => exact ih
  | edit _ _ _ ih => exact ih

/-- The views of a session are a family: its catalog holds what is in their cells. -/
theorem of_reachable {s : Session} (hs : s.Reachable) : ∃ origins,
    Family ⟨s.catalog.documents, [s.catalog.registry]⟩
    (s.views.map fun view => ⟨view, 0⟩) origins := by
  induction hs with
  | @build entries c view h =>
    obtain ⟨hregistry, hdocuments, hview⟩ := Catalog.build_eq_ok_iff.1 h
    refine ⟨[], .build (m := ⟨[], []⟩) (Cells.build_eq_ok_iff.2 ⟨c.registry, hregistry, ?_, ?_⟩)⟩
    · rw [hdocuments]
      rfl
    · rw [hview]
      rfl
  | @step s _ call ih =>
    obtain ⟨origins, hf⟩ := ih
    rcases Session.step_cases s call with ⟨view, hview, query, found, hfound, heq⟩ |
      ⟨view, hview, _, path, name, values, c, _, hset, heq⟩ | heq
    · obtain ⟨i, hi⟩ :=
        List.getElem?_of_mem (List.mem_map_of_mem (f := fun view => Handle.mk view 0) hview)
      have hfilter : Cells.filter ⟨s.catalog.documents, [s.catalog.registry]⟩ ⟨view, 0⟩ query
          = .ok ⟨found, 0⟩ := map_eq_ok_iff.2 ⟨found, hfound, rfl⟩
      rw [heq, List.map_append]
      exact ⟨origins ++ [i], hf.filter hi hfilter⟩
    · rw [heq]
      exact ⟨origins, hf.set (List.mem_map_of_mem hview) (map_eq_ok_iff.2 ⟨c, hset, rfl⟩)⟩
    · rw [heq]
      exact ⟨origins, hf⟩
  | @edit s _ slot name values ih =>
    obtain ⟨origins, hf⟩ := ih
    refine ⟨origins, ?_⟩
    have hdocuments : (s.catalog.setAt slot name values).documents
        = s.catalog.documents.set slot ((s.catalog.document slot).set name values) := by
      rw [Catalog.setAt, Catalog.document, List.getD_eq_getElem?_getD, List.modify_eq_set_getElem?]
      cases hslot : s.catalog.documents[slot]? with
      | some d => rfl
      | none => rw [List.set_eq_of_length_le (List.getElem?_eq_none_iff.1 hslot)]; rfl
    rw [hdocuments]
    exact hf.edit slot _

/-! ### What an edit through one view changes -/

theorem Sound.slot_ne {index : Handle} (hs : Sound m handles index) {v w : Handle}
    (hv : v ∈ handles) (hw : w ∈ handles) {e entry : Entry} (he : e ∈ v.entries)
    (hentry : entry ∈ w.entries) (hne : entry ≠ e) : entry.slot ≠ e.slot := fun hslot =>
  hne (List.inj_on_of_nodup_map hs.slots ((hs.views w hw).2.mem hentry)
    ((hs.views v hv).2.mem he) hslot)

theorem contents_sublist {v w : Handle} (hregistry : v.registry = w.registry)
    (hentries : v.entries.Sublist w.entries) : (m.contents v).Sublist (m.contents w) := by
  rw [Cells.contents, Cells.contents, Cells.catalog_eq_of_registry_eq hregistry]
  exact hentries.map _

theorem Sound.set_seen {index v : Handle} (hs : Sound m handles index) (hv : v ∈ handles)
    {path : Path} {name : String} {values : List Value} {m' : Cells}
    (hset : m.setAttribute v path name values = .ok m') :
    ∃ before e after, v.entries = before ++ e :: after ∧ e.path.same path = true ∧
      (∀ other ∈ before, other.path.same path = false) ∧ ∀ w ∈ handles,
        (∀ entry ∈ w.entries, entry ≠ e →
          (m'.catalog w).document entry.slot = (m.catalog w).document entry.slot) ∧
        (∀ other, ((m'.catalog w).document e.slot).get? other = if other = name then some values
          else ((m.catalog w).document e.slot).get? other) ∧
        (m'.catalog w).registry
          = (m.catalog v).registry.register name (values.head?.map Value.variant) := by
  obtain ⟨hregistry, hsublist⟩ := hs.views v hv
  have hcatalog := Cells.catalog_of_setAttribute (hregistry ▸ hs.registry) hset
  obtain ⟨e, hfirst, _, _, heq⟩ := Catalog.setAttribute_eq_ok_iff.1 hcatalog
  obtain ⟨before, after, hview, hsame, hbefore⟩ := Catalog.entry?_eq_some_iff.1 hfirst
  have he : e ∈ v.entries := by simp [hview]
  have hinside : e.slot < (m.catalog v).documents.length := hs.inside e (hsublist.mem he)
  refine ⟨before, e, after, hview, hsame, hbefore, fun w hw => ?_⟩
  -- Both views work on one catalog, so what the first has done to it is what the second sees.
  have hshared : w.registry = v.registry := (hs.views w hw).1.trans hregistry.symm
  rw [Cells.catalog_eq_of_registry_eq hshared m, Cells.catalog_eq_of_registry_eq hshared m', heq]
  refine ⟨fun entry hentry hne => ?_, fun other => ?_, rfl⟩
  · exact Catalog.document_setAt_of_ne _ (hs.slot_ne hv hw he hentry hne) ..
  · rw [Catalog.document_setAt (by exact hinside), Document.get?_set]
    rfl

/-- At any time every view has entries of the index, and of the view that it was filtered from, in
their order and with their documents, and all views have the same types. What is set through a view
is set in its first entry with the path: every view that holds this entry has the new values in it
and else what it had, all other entries keep their documents, and the paths of all views stay as
they are. -/
theorem set_seen_in_all_views (hf : Family m handles origins) :
    (∃ index rest, handles = index :: rest ∧ ∀ view ∈ handles,
      view.entries.Sublist index.entries ∧ (m.contents view).Sublist (m.contents index)) ∧
    (handles.length = origins.length + 1 ∧ ∀ k i, origins[k]? = some i → ∃ origin view,
      handles[i]? = some origin ∧ handles[k + 1]? = some view ∧
        view.entries.Sublist origin.entries ∧ (m.contents view).Sublist (m.contents origin)) ∧
    (∀ v ∈ handles, ∀ w ∈ handles, (m.catalog v).registry = (m.catalog w).registry) ∧
    ∀ v ∈ handles, ∀ path name values m', m.setAttribute v path name values = .ok m' →
      ∃ before e after, v.entries = before ++ e :: after ∧ e.path.same path = true ∧
        (∀ other ∈ before, other.path.same path = false) ∧ ∀ w ∈ handles,
          (m'.contents w).map Prod.fst = (m.contents w).map Prod.fst ∧
          (∀ entry ∈ w.entries, entry ≠ e →
            (m'.catalog w).document entry.slot = (m.catalog w).document entry.slot) ∧
          (e ∈ w.entries → ∀ other, ((m'.catalog w).document e.slot).get? other
            = if other = name then some values else ((m.catalog w).document e.slot).get? other) ∧
          (m'.catalog w).registry
            = (m.catalog v).registry.register name (values.head?.map Value.variant) := by
  obtain ⟨index, hs⟩ := hf.exists_sound
  obtain ⟨rest, hfirst⟩ := hs.first
  have hd := hf.derived
  have hregistry : ∀ v ∈ handles, ∀ w ∈ handles, v.registry = w.registry :=
    fun v hv w hw => (hs.views v hv).1.trans (hs.views w hw).1.symm
  refine ⟨⟨index, rest, hfirst, fun view hview => ?_⟩, ⟨hd.length, fun k i hk => ?_⟩,
    fun v hv w hw => ?_, fun v hv path name values m' hset => ?_⟩
  · obtain ⟨hview, hentries⟩ := hs.views view hview
    exact ⟨hentries, contents_sublist hview hentries⟩
  · obtain ⟨origin, view, horigin, hview, hentries⟩ := hd.sublist k i hk
    refine ⟨origin, view, horigin, hview, hentries, contents_sublist ?_ hentries⟩
    exact hregistry view (List.mem_of_getElem? hview) origin (List.mem_of_getElem? horigin)
  · rw [Cells.catalog_eq_of_registry_eq (hregistry v hv w hw)]
  · obtain ⟨before, e, after, hview, hsame, hbefore, hseen⟩ := hs.set_seen hv hset
    refine ⟨before, e, after, hview, hsame, hbefore, fun w hw => ?_⟩
    obtain ⟨hothers, hnew, htypes⟩ := hseen w hw
    refine ⟨?_, hothers, fun _ => hnew, htypes⟩
    simp only [Cells.contents, Catalog.contents, List.map_map, Function.comp_def]

/-- Two entries have one path. Through a view of the second alone it is the second that is set,
though the index has the first under this path. -/
theorem set_seen_under_equal_paths :
    ∃ (s : Session) (c : Catalog) (origins : List Nat), s.Reachable ∧
    s.views = [[⟨⟨"a"⟩, 0⟩, ⟨⟨"a/"⟩, 1⟩], [⟨⟨"a/"⟩, 1⟩]] ∧
    Family ⟨s.catalog.documents, [s.catalog.registry]⟩ (s.views.map fun view => ⟨view, 0⟩) origins ∧
    s.catalog.setAttribute [⟨⟨"a/"⟩, 1⟩] ⟨"a"⟩ "k" [.text "z"] = .ok c ∧
    c.document 0 = s.catalog.document 0 ∧ (c.document 1).get? "k" = some [.text "z"] := by
  have hbuild :
      Catalog.build [(⟨"a"⟩, .ofList [("k", [.text "x"])]), (⟨"a/"⟩, .ofList [("k", [.text "y"])])]
      = .ok (⟨[.ofList [("k", [.text "x"])], .ofList [("k", [.text "y"])]],
        ⟨.ofList [("k", some .text)]⟩⟩, [⟨⟨"a"⟩, 0⟩, ⟨⟨"a/"⟩, 1⟩]) := by decide +kernel
  have hs := (Session.Reachable.build hbuild).step (.filter 0 "k=y")
  have hstep : Session.step ⟨⟨[.ofList [("k", [.text "x"])], .ofList [("k", [.text "y"])]],
      ⟨.ofList [("k", some .text)]⟩⟩, [[⟨⟨"a"⟩, 0⟩, ⟨⟨"a/"⟩, 1⟩]]⟩ (.filter 0 "k=y")
      = ⟨⟨[.ofList [("k", [.text "x"])], .ofList [("k", [.text "y"])]],
      ⟨.ofList [("k", some .text)]⟩⟩,
        [[⟨⟨"a"⟩, 0⟩, ⟨⟨"a/"⟩, 1⟩], [⟨⟨"a/"⟩, 1⟩]]⟩ := by decide +kernel
  have hset : Catalog.setAttribute ⟨[.ofList [("k", [.text "x"])], .ofList [("k", [.text "y"])]],
      ⟨.ofList [("k", some .text)]⟩⟩ [⟨⟨"a/"⟩, 1⟩] ⟨"a"⟩ "k" [.text "z"]
      = .ok ⟨[.ofList [("k", [.text "x"])], .ofList [("k", [.text "z"])]],
        ⟨.ofList [("k", some .text)]⟩⟩ := by decide +kernel
  rw [hstep] at hs
  obtain ⟨origins, hf⟩ := of_reachable hs
  obtain ⟨_, _, _, hseen⟩ := set_seen_in_all_views hf
  obtain ⟨before, e, after, hview, _, _, hviews⟩ := hseen ⟨[⟨⟨"a/"⟩, 1⟩], 0⟩ (by simp) _ _ _ _
    (map_eq_ok_iff.2 ⟨_, hset, rfl⟩)
  obtain ⟨_, hothers, hnew, _⟩ := hviews ⟨[⟨⟨"a"⟩, 0⟩, ⟨⟨"a/"⟩, 1⟩], 0⟩ (by simp)
  have he : e = ⟨⟨"a/"⟩, 1⟩ := by
    have hmem : e ∈ before ++ e :: after := by simp
    rw [← hview] at hmem
    exact List.mem_singleton.1 hmem
  subst he
  exact ⟨_, _, origins, hs, rfl, hf, hset, hothers ⟨⟨"a"⟩, 0⟩ (by simp) (by decide),
    hnew (by simp) "k"⟩

end Family

end SidecarIndex

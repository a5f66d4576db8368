import SidecarIndex.Proofs.Index.Catalog

/-! # Sessions

A session is a catalog in use: the views made of it so far, and calls that filter one of them or set
an attribute through one. Whatever is called and in whatever order, the documents of all views fit
the registry that they share, and the registry only grows. -/

namespace SidecarIndex

/-- A catalog with the views that have been made of it, the first one of all documents. -/
structure Session where
  catalog : Catalog
  views : List View
  deriving DecidableEq

/-- A call through a view, named by its number. -/
inductive Call where
  | filter (view : Nat) (query : String)
  | set (view : Nat) (path : Path) (name : String) (values : List Value)

def Call.IsRead : Call → Prop
  | .filter _ _ => True
  | .set _ _ _ values => ∀ value ∈ values, value.IsRead

namespace Session

def ofSources (sources : List (Path × String)) : Except Error Session :=
  (Catalog.ofSources sources).map fun r => ⟨r.1, [r.2]⟩

/-- What a call leaves. A view that has been found is added; a call that fails changes nothing, nor
does one through a view that is not there. -/
def step (s : Session) : Call → Session
  | .filter i query =>
    match s.views[i]? with
    | some view =>
      match s.catalog.filter view query with
      | .ok found => { s with views := s.views ++ [found] }
      | .error _ => s
    | none => s
  | .set i path name values =>
    match s.views[i]? with
    | some view =>
      match s.catalog.setAttribute view path name values with
      | .ok c => { s with catalog := c }
      | .error _ => s
    | none => s

def run (s : Session) (calls : List Call) : Session := calls.foldl step s

def registry (s : Session) : Registry := s.catalog.registry

/-- All views show documents of the catalog, and these fit the registry. -/
structure Sound (s : Session) : Prop where
  catalog : s.catalog.Sound
  slots : ∀ view ∈ s.views, ∀ entry ∈ view, entry.slot < s.catalog.documents.length

theorem sound_of_ofSources {sources : List (Path × String)} {s : Session}
    (h : ofSources sources = .ok s) : s.Sound := by
  obtain ⟨⟨c, view⟩, hc, rfl⟩ := map_eq_ok_iff.1 h
  obtain ⟨hsound, hslots⟩ := Catalog.sound_of_ofSources hc
  refine ⟨hsound, ?_⟩
  intro other hother
  rw [List.mem_singleton.1 hother]
  exact hslots

/-- What a step does: it adds a view of documents that were shown before, it sets an attribute, or
it does nothing. -/
theorem step_cases (s : Session) (call : Call) :
    (∃ view ∈ s.views, ∃ query found, s.catalog.filter view query = .ok found ∧
      s.step call = { s with views := s.views ++ [found] }) ∨
    (∃ view ∈ s.views, ∃ i path name values c, call = .set i path name values ∧
      s.catalog.setAttribute view path name values = .ok c ∧
      s.step call = { s with catalog := c }) ∨
    s.step call = s := by
  cases call with
  | filter i query =>
    simp only [step]
    split
    · rename_i view hview
      split
      · rename_i found hfound
        exact .inl ⟨view, List.mem_of_getElem? hview, query, found, hfound, rfl⟩
      · exact .inr (.inr rfl)
    · exact .inr (.inr rfl)
  | set i path name values =>
    simp only [step]
    split
    · rename_i view hview
      split
      · rename_i c hc
        exact .inr (.inl ⟨view, List.mem_of_getElem? hview, i, path, name, values, c, rfl, hc, rfl⟩)
      · exact .inr (.inr rfl)
    · exact .inr (.inr rfl)

theorem length_documents_step (s : Session) (call : Call) :
    (s.step call).catalog.documents.length = s.catalog.documents.length := by
  rcases step_cases s call with ⟨_, _, _, _, _, heq⟩ | ⟨_, _, _, _, _, _, c, _, hset, heq⟩ | heq
  · rw [heq]
  · obtain ⟨entry, _, _, _, rfl⟩ := Catalog.setAttribute_eq_ok_iff.1 hset
    rw [heq]
    exact Catalog.length_documents_setAt ..
  · rw [heq]

theorem sound_step {s : Session} (hs : s.Sound) (call : Call) :
    (s.step call).Sound ∧ (s.step call).registry.Extends s.registry := by
  rcases step_cases s call with ⟨view, hview, query, found, hfound, heq⟩ |
    ⟨view, hview, _, path, name, values, c, _, hset, heq⟩ | heq
  · rw [heq]
    refine ⟨⟨hs.catalog, ?_⟩, .refl _⟩
    intro other hother entry hentry
    rcases List.mem_append.1 hother with hother | hother
    · exact hs.slots other hother entry hentry
    · rw [List.mem_singleton.1 hother] at hentry
      exact hs.slots view hview entry (Catalog.subset_of_filter hfound entry hentry)
  · rw [heq]
    obtain ⟨hsound, hext, hlength⟩ := Catalog.sound_of_setAttribute hs.catalog hset
    refine ⟨⟨hsound, ?_⟩, hext⟩
    intro other hother entry hentry
    rw [hlength]
    exact hs.slots other hother entry hentry
  · rw [heq]
    exact ⟨hs, .refl _⟩

theorem sound_run {s : Session} (hs : s.Sound) (calls : List Call) :
    (s.run calls).Sound ∧ (s.run calls).registry.Extends s.registry := by
  induction calls generalizing s with
  | nil => exact ⟨hs, .refl _⟩
  | cons call rest ih =>
    obtain ⟨hstep, hext⟩ := sound_step hs call
    obtain ⟨hrun, hextrun⟩ := ih hstep
    exact ⟨hrun, hextrun.trans hext⟩

theorem isRead_of_ofSources {sources : List (Path × String)} {s : Session}
    (h : ofSources sources = .ok s) : ∀ d ∈ s.catalog.documents, d.IsRead := by
  obtain ⟨⟨c, view⟩, hc, rfl⟩ := map_eq_ok_iff.1 h
  exact Catalog.isRead_of_ofSources hc

/-- Calls that set values which some text denotes leave documents of such values. -/
theorem isRead_step {s : Session} (hs : ∀ d ∈ s.catalog.documents, d.IsRead) {call : Call}
    (hcall : call.IsRead) : ∀ d ∈ (s.step call).catalog.documents, d.IsRead := by
  rcases step_cases s call with ⟨_, _, _, _, _, heq⟩ |
    ⟨_, _, i, path, name, values, c, rfl, hset, heq⟩ | heq
  · rw [heq]
    exact hs
  · rw [heq]
    exact Catalog.isRead_of_setAttribute hs hcall hset
  · rw [heq]
    exact hs

theorem isRead_run {s : Session} (hs : ∀ d ∈ s.catalog.documents, d.IsRead) {calls : List Call}
    (hcalls : ∀ call ∈ calls, call.IsRead) : ∀ d ∈ (s.run calls).catalog.documents, d.IsRead := by
  induction calls generalizing s with
  | nil => exact hs
  | cons call rest ih =>
    rw [List.forall_mem_cons] at hcalls
    exact ih (isRead_step hs hcalls.1) hcalls.2

/-- After any calls, every attribute of every document that some view shows has a valid name, values
of one variant that can be stored, and a place in the registry, which holds the variant of its
values. What the registry had recorded after some of the calls it still holds after all of them. -/
theorem attributes_fit_registry_of_run {sources : List (Path × String)} {s : Session}
    (h : ofSources sources = .ok s) (before after : List Call) :
    (∀ view ∈ (s.run (before ++ after)).views, ∀ entry ∈ view,
      entry.slot < (s.run (before ++ after)).catalog.documents.length ∧
      ∀ attr ∈ ((s.run (before ++ after)).catalog.document entry.slot).entries,
        isName attr.1.toList = true ∧
        (∃ variant, AllOf variant attr.2) ∧
        (∀ value ∈ attr.2, value.isStorable = true) ∧
        (s.run (before ++ after)).registry.contains attr.1 = true ∧
        ∀ first ∈ attr.2.head?,
          (s.run (before ++ after)).registry.variant? attr.1 = some first.variant) ∧
    (∀ name variant, (s.run before).registry.variant? name = some variant →
      (s.run (before ++ after)).registry.variant? name = some variant) ∧
    ∀ name, (s.run before).registry.contains name = true →
      (s.run (before ++ after)).registry.contains name = true := by
  obtain ⟨hbefore, _⟩ := sound_run (sound_of_ofSources h) before
  obtain ⟨hafter, hext⟩ := sound_run hbefore after
  have happend : (s.run before).run after = s.run (before ++ after) := (List.foldl_append ..).symm
  rw [happend] at hafter hext
  refine ⟨?_, hext.variant, hext.contains⟩
  intro view hview entry hentry
  have hslot := hafter.slots view hview entry hentry
  have hmem := Catalog.document_mem hslot
  refine ⟨hslot, ?_⟩
  intro attr hattr
  have hstorable := hafter.catalog.storable _ hmem attr hattr
  have hrecorded := hafter.catalog.recorded _ hmem attr hattr
  refine ⟨hstorable.isName, hstorable.homogeneous, hstorable.storable, hrecorded.contains, ?_⟩
  intro first hfirst
  exact hrecorded.variant first (List.mem_of_head? hfirst)

/-- An attribute without values takes the variant of the first that are set, and keeps it in both
documents. -/
theorem tags_stay_text_of_run : ∃ s, ofSources
      [(⟨"a.txt"⟩, "\x7b\"author\": [\"me\"], \"tags\": []\x7d"),
        (⟨"b.txt"⟩, "\x7b\"tags\": []\x7d")] = .ok s ∧
    (s.run ([.filter 0 "author=me", .set 1 ⟨"a.txt"⟩ "tags" [.text "draft"]]
      ++ [.set 0 ⟨"b.txt"⟩ "tags" [.boolean true]])).registry.variant? "tags" = some .text := by
  have hs : ofSources [(⟨"a.txt"⟩, "\x7b\"author\": [\"me\"], \"tags\": []\x7d"),
      (⟨"b.txt"⟩, "\x7b\"tags\": []\x7d")]
      = .ok ⟨⟨[.ofList [("author", [.text "me"]), ("tags", [])],
        .ofList [("tags", [])]], ⟨.ofList [("author", some .text), ("tags", none)]⟩⟩,
        [[⟨⟨"a.txt"⟩, 0⟩, ⟨⟨"b.txt"⟩, 1⟩]]⟩ := by decide +kernel
  exact ⟨_, hs, (attributes_fit_registry_of_run hs _ _).2.1 "tags" .text (by decide +kernel)⟩

end Session

end SidecarIndex

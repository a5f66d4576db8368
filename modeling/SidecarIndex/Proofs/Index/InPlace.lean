import SidecarIndex.Proofs.Index.Session

/-! # Setting an attribute in place

All views of a catalog share its documents and its registry, so what has been changed stays changed
when a later step fails. Setting an attribute makes every check before its first change: a call that
fails leaves everything as it was, and one that succeeds changes one list of one document and its
record. -/

namespace SidecarIndex

/-! ### Work on a shared catalog -/

/-- Steps on one catalog. A failure undoes nothing of what was changed before it. -/
abbrev Shared (α : Type) := ExceptT Error (StateM Catalog) α

namespace Shared

variable {α β : Type}

/-- How the steps end on a catalog, and what they make of it. -/
def ending (steps : Shared α) (c : Catalog) : Except Error α × Catalog := steps.run.run c

def require (check : Catalog → Except Error α) : Shared α := do
  match check (← get) with
  | .ok a => return a
  | .error e => throw e

theorem ending_modify (f : Catalog → Catalog) (c : Catalog) :
    ending (modify f) c = (.ok (), f c) := rfl

theorem ending_require (check : Catalog → Except Error α) (c : Catalog) :
    ending (require check) c = (check c, c) := by
  have hget : ending (require check) c
      = ending (match check c with | .ok a => pure a | .error e => throw e) c := rfl
  rw [hget]
  cases check c with
  | ok a => rfl
  | error e => rfl

theorem ending_bind (first : Shared α) (next : α → Shared β) (c : Catalog) :
    ending (first >>= next) c = match ending first c with
      | (.ok a, c') => ending (next a) c'
      | (.error e, c') => (.error e, c') := by
  have hsteps : ending (first >>= next) c = match ending first c with
      | (r, c') => ending (ExceptT.mk (ExceptT.bindCont next r)) c' := rfl
  rw [hsteps]
  cases ending first c with
  | mk r c' =>
    cases r with
    | ok a => rfl
    | error e => rfl

end Shared

namespace Catalog

/-! ### The steps of setting an attribute -/

def requireStorable (value : Value) : Shared Unit :=
  match storeFault? value with
  | some fault => throw (.problem (.valueFormat fault))
  | none => return

/-- Sets an attribute by steps that each act on the shared catalog: first the record of the
attribute is changed, then the document. -/
def setInPlace (view : View) (path : Path) (name : String) (values : List Value) : Shared Unit := do
  match view.entry? path with
  | none => throw (.notFound path)
  | some entry =>
    if !isName name.toList then throw (.problem (.attributeFormat name))
    else
      let found ← Shared.require fun c => c.registry.checkValues path name values
      forM values requireStorable
      modify fun c => { c with registry := c.registry.register name found }
      modify fun c => c.setAt entry.slot name values

theorem ending_forM_requireStorable (values : List Value) (c : Catalog) :
    Shared.ending (forM values requireStorable) c = match values.findSome? storeFault? with
      | some fault => (.error (.problem (.valueFormat fault)), c)
      | none => (.ok (), c) := by
  induction values with
  | nil => rfl
  | cons value rest ih =>
    rw [List.forM_cons, Shared.ending_bind, List.findSome?_cons, requireStorable]
    cases storeFault? value with
    | some fault => rfl
    | none => exact ih

/-- Every check is made before the first change, so a failure leaves the catalog that it found. -/
theorem ending_setInPlace (view : View) (path : Path) (name : String) (values : List Value)
    (c : Catalog) : Shared.ending (setInPlace view path name values) c
      = match c.setAttribute view path name values with
        | .ok c' => (.ok (), c')
        | .error e => (.error e, c) := by
  rw [setInPlace, setAttribute]
  cases view.entry? path with
  | none => rfl
  | some entry =>
    cases isName name.toList with
    | false => rfl
    | true =>
      simp only [Bool.not_true, Bool.false_eq_true, if_false, Shared.ending_bind,
        Shared.ending_require, ending_forM_requireStorable, Shared.ending_modify]
      cases c.registry.checkValues path name values with
      | error e => rfl
      | ok found =>
        cases values.findSome? storeFault? with
        | some fault => rfl
        | none => rfl

/-! ### When an attribute is set, and what that changes -/

/-- What setting an attribute asks for: an entry with the path, a name, and values of one variant
that a side-car can hold and that is not another than the recorded one. -/
structure Admits (c : Catalog) (view : View) (path : Path) (name : String) (values : List Value) :
    Prop where
  found : ∃ entry ∈ view, entry.path.same path = true
  isName : isName name.toList = true
  homogeneous : ∃ variant, AllOf variant values
  agrees : ∀ registered ∈ c.registry.variant? name, AllOf registered values
  storable : ∀ value ∈ values, value.isStorable = true

/-- One catalog is another but for one attribute: in the first entry of a view with a path it has
the given values, and it is recorded, with their variant where none was known. -/
structure SetsOnly (c c' : Catalog) (view : View) (path : Path) (name : String)
    (values : List Value) : Prop where
  document : ∃ before entry after, view = before ++ entry :: after ∧ entry.path.same path = true ∧
    (∀ other ∈ before, other.path.same path = false) ∧
    (∀ other, (c'.document entry.slot).get? other
      = if other = name then some values else (c.document entry.slot).get? other) ∧
    ∀ slot, slot ≠ entry.slot → c'.documents[slot]? = c.documents[slot]?
  registry : ∀ other, c'.registry.types.get? other
    = if other = name then some ((c.registry.variant? name).or (values.head?.map Value.variant))
      else c.registry.types.get? other

theorem setAttribute_iff_admits {c : Catalog} {view : View} {path : Path} {name : String}
    {values : List Value} :
    (∃ c', c.setAttribute view path name values = .ok c') ↔ c.Admits view path name values := by
  have hagrees : ∀ {variant : Variant}, AllOf variant values → ∀ registered : Variant,
      ((∀ first ∈ values.head?.map Value.variant, registered = first) ↔
      AllOf registered values) := by
    intro variant hall registered
    cases values with
    | nil => simp [AllOf]
    | cons first rest =>
      have hfirst : first.variant = variant := hall first (List.mem_cons_self ..)
      apply Iff.intro
      · intro h value hvalue
        rw [h first.variant rfl, hall value hvalue, hfirst]
      · rintro h _ hvariant
        cases hvariant
        exact (h first (List.mem_cons_self ..)).symm
  simp only [setAttribute_eq_ok_iff]
  apply Iff.intro
  · rintro ⟨c', entry, hentry, hattribute, hagree, _⟩
    obtain ⟨before, after, rfl, hsame, _⟩ := entry?_eq_some_iff.1 hentry
    obtain ⟨variant, hall⟩ := hattribute.homogeneous
    exact ⟨⟨entry, by simp, hsame⟩, hattribute.isName, ⟨variant, hall⟩,
      fun registered hregistered => (hagrees hall registered).1 (hagree registered hregistered),
      hattribute.storable⟩
  · rintro ⟨⟨entry, hentry, hsame⟩, hname, ⟨variant, hall⟩, hagree, hstorable⟩
    obtain ⟨first, hfirst⟩ := Option.isSome_iff_exists.1
      (List.find?_isSome.2 ⟨entry, hentry, hsame⟩ : (view.entry? path).isSome = true)
    exact ⟨_, first, hfirst, ⟨hname, ⟨variant, hall⟩, hstorable⟩,
      fun registered hregistered =>
      (hagrees hall registered).2 (hagree registered hregistered), rfl⟩

theorem setsOnly_of_setAttribute {c c' : Catalog} {view : View} {path : Path} {name : String}
    {values : List Value} (hslots : ∀ entry ∈ view, entry.slot < c.documents.length)
    (h : c.setAttribute view path name values = .ok c') : c.SetsOnly c' view path name values := by
  obtain ⟨entry, hentry, _, _, rfl⟩ := setAttribute_eq_ok_iff.1 h
  obtain ⟨before, after, hview, hsame, hbefore⟩ := entry?_eq_some_iff.1 hentry
  have hslot : entry.slot < c.documents.length := hslots entry (by simp [hview])
  refine ⟨⟨before, entry, after, hview, hsame, hbefore, ?_, ?_⟩, ?_⟩
  · intro other
    rw [document_setAt (by exact hslot), Document.get?_set]
    rfl
  · intro slot hne
    rw [getElem?_setAt, if_neg hne]
  · intro other
    simp only [setAt, Registry.register_eq, OrderedMap.get?_insert]

end Catalog

/-! ### Sessions -/

namespace Session

/-- What a session can become. It starts from any documents that agree on their variants; whoever
holds a document may also change it without any check. -/
inductive Reachable : Session → Prop where
  | build {entries : List (Path × Document)} {c : Catalog} {view : View}
    (h : Catalog.build entries = .ok (c, view)) : Reachable ⟨c, [view]⟩
  | step {s : Session} (hs : Reachable s) (call : Call) : Reachable (s.step call)
  | edit {s : Session} (hs : Reachable s) (slot : Nat) (name : String) (values : List Value) :
    Reachable { s with catalog := s.catalog.setAt slot name values }

theorem mem_views_step {s : Session} {call : Call} {view : View} (h : view ∈ (s.step call).views) :
    ∃ old ∈ s.views, ∀ entry ∈ view, entry ∈ old := by
  rcases step_cases s call with ⟨old, hold, _, found, hfound, heq⟩ |
    ⟨_, _, _, _, _, _, _, _, _, heq⟩ |
    heq
  · rw [heq] at h
    rcases List.mem_append.1 h with h | h
    · exact ⟨view, h, fun _ hentry => hentry⟩
    · rw [List.mem_singleton.1 h]
      exact ⟨old, hold, Catalog.subset_of_filter hfound⟩
  · rw [heq] at h
    exact ⟨view, h, fun _ hentry => hentry⟩
  · rw [heq] at h
    exact ⟨view, h, fun _ hentry => hentry⟩

/-- Every entry of every view shows a document of the catalog. -/
theorem Reachable.slot_lt {s : Session} (hs : s.Reachable) :
    ∀ view ∈ s.views, ∀ entry ∈ view, entry.slot < s.catalog.documents.length := by
  induction hs with
  | build h =>
    intro view hview
    rw [List.mem_singleton.1 hview]
    exact Catalog.slot_lt_of_build h
  | @step s _ call ih =>
    intro view hview entry hentry
    obtain ⟨old, hold, hsub⟩ := mem_views_step hview
    rw [length_documents_step]
    exact ih old hold entry (hsub entry hentry)
  | edit _ slot name values ih =>
    intro view hview entry hentry
    rw [Catalog.length_documents_setAt]
    exact ih view hview entry hentry

/-- Setting an attribute through a view of any session that can come about succeeds exactly when the
catalog admits it. It then changes one attribute of one document and its record; when it fails it
has changed nothing. -/
theorem setInPlace_atomic_of_reachable {s : Session} (hs : s.Reachable) {view : View}
    (hview : view ∈ s.views) (path : Path) (name : String) (values : List Value) :
    ((∃ c', s.catalog.setAttribute view path name values = .ok c') ↔
      s.catalog.Admits view path name values) ∧
    (∀ e, s.catalog.setAttribute view path name values = .error e →
      Shared.ending (Catalog.setInPlace view path name values) s.catalog = (.error e, s.catalog)) ∧
    ∀ c', s.catalog.setAttribute view path name values = .ok c' →
      Shared.ending (Catalog.setInPlace view path name values) s.catalog = (.ok (), c') ∧
        s.catalog.SetsOnly c' view path name values := by
  refine ⟨Catalog.setAttribute_iff_admits, ?_, ?_⟩
  · intro e he
    rw [Catalog.ending_setInPlace, he]
  · intro c' hc'
    refine ⟨?_, Catalog.setsOnly_of_setAttribute (hs.slot_lt view hview) hc'⟩
    rw [Catalog.ending_setInPlace, hc']

/-- A value that cannot be stored leaves its attribute without a record, so that a later call may
give it values of another variant. -/
theorem rating_free_after_failure : ∃ s : Session, s.Reachable ∧ ∃ view ∈ s.views,
    Shared.ending (Catalog.setInPlace view ⟨"a.txt"⟩ "rating" [.number .nan]) s.catalog
      = (.error (.problem (.valueFormat (.number .nan))), s.catalog) ∧
    ∃ c', s.catalog.SetsOnly c' view ⟨"a.txt"⟩ "rating" [.text "good"] ∧
      c'.registry.variant? "rating" = some .text := by
  have hbuild : Catalog.build [(⟨"a.txt"⟩, .ofList [("tags", [])]), (⟨"a.txt/"⟩, .ofList [])]
      = .ok (⟨[.ofList [("tags", [])], .ofList []], ⟨.ofList [("tags", none)]⟩⟩,
        [⟨⟨"a.txt"⟩, 0⟩, ⟨⟨"a.txt/"⟩, 1⟩]) := by decide +kernel
  have hs := Reachable.build hbuild
  have hview := List.mem_singleton_self ([⟨⟨"a.txt"⟩, 0⟩, ⟨⟨"a.txt/"⟩, 1⟩] : View)
  refine ⟨_, hs, _, hview, ?_, ?_⟩
  · exact (setInPlace_atomic_of_reachable hs hview ⟨"a.txt"⟩ "rating" [.number .nan]).2.1 _
      (by decide +kernel)
  · obtain ⟨_, _, hset⟩ := setInPlace_atomic_of_reachable hs hview ⟨"a.txt"⟩ "rating" [.text "good"]
    have hok : Catalog.setAttribute ⟨[.ofList [("tags", [])], .ofList []],
        ⟨.ofList [("tags", none)]⟩⟩
        [⟨⟨"a.txt"⟩, 0⟩, ⟨⟨"a.txt/"⟩, 1⟩] ⟨"a.txt"⟩ "rating" [.text "good"]
        = .ok ⟨[.ofList [("rating", [.text "good"]), ("tags", [])], .ofList []],
          ⟨.ofList [("rating", some .text), ("tags", none)]⟩⟩ := by decide +kernel
    exact ⟨_, (hset _ hok).2, by decide +kernel⟩

end Session

end SidecarIndex

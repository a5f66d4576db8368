import SidecarIndex.Proofs.Index.Aliasing
import SidecarIndex.Proofs.Registry.EntryOrder

/-! # Independent edits

Two edits of different documents, or of different attributes, still share the registry: the first
may settle the variant that the second has to have. Whether both succeed depends on their values and
on what was recorded before them, but not on which is made first, and neither does what they
leave. -/

namespace SidecarIndex

theorem Document.set_comm (d : Document) {name other : String} (h : name ≠ other)
    (values new : List Value) :
    (d.set name values).set other new = (d.set other new).set name values :=
  congrArg Document.mk (d.attributes.insert_comm h values new)

/-! ### Variants that can be recorded together -/

/-- Two variants that are known or not: where both are, they are the same. -/
def Compatible (a b : Option Variant) : Prop := ∀ first ∈ a, ∀ second ∈ b, first = second

namespace Compatible

variable {a b c : Option Variant}

theorem comm : Compatible a b ↔ Compatible b a :=
  ⟨fun h second hsecond first hfirst => (h first hfirst second hsecond).symm,
    fun h first hfirst second hsecond => (h second hsecond first hfirst).symm⟩

theorem or_comm (h : Compatible a b) : a.or b = b.or a := by
  cases a with
  | none => rw [Option.none_or, Option.or_none]
  | some first =>
    cases b with
    | none => rfl
    | some second => rw [h first rfl second rfl]

theorem or_iff (h : Compatible a b) : Compatible (a.or b) c ↔ Compatible a c ∧ Compatible b c := by
  cases a with
  | none => simp [Compatible]
  | some first =>
    cases b with
    | none => simp [Compatible]
    | some second => rw [h first rfl second rfl, Option.some_or, and_self]

end Compatible

namespace Registry

variable {r : Registry} {name other : String} {found new : Option Variant}

/-- After one attribute has been recorded, a variant can be recorded that could be before, unless it
is of the same attribute and not of the same variant. -/
theorem compatible_register_iff (h : Compatible (r.variant? name) found) :
    Compatible ((r.register name found).variant? other) new ↔
      Compatible (r.variant? other) new ∧ (name = other → Compatible found new) := by
  rw [variant?_register]
  by_cases heq : other = name
  · subst heq
    rw [if_pos rfl, h.or_iff]
    exact and_congr_right' ⟨fun hcompatible _ => hcompatible, fun hcompatible => hcompatible rfl⟩
  · rw [if_neg heq]
    exact (and_iff_left fun hname => absurd hname.symm heq).symm

theorem register_comm (h : name = other → Compatible found new) :
    (r.register name found).register other new = (r.register other new).register name found := by
  apply eq_of_names_of_variant?
  · intro k
    simp only [mem_names_iff, contains_register]
    exact or_left_comm
  · intro k variant
    simp only [variant?_register]
    by_cases heq : name = other
    · subst heq
      by_cases hname : k = name
      · simp only [if_pos hname, if_true, Option.or_assoc, (h rfl).or_comm]
      · simp only [if_neg hname]
    · by_cases hname : k = name
      · subst hname
        simp only [if_true, if_neg heq]
      · simp only [if_neg hname, if_neg (Ne.symm heq)]

end Registry

/-! ### Two edits -/

/-- What is asked for when an attribute is set through a view. -/
structure Edit where
  view : View
  path : Path
  name : String
  values : List Value

namespace Edit

def entry? (e : Edit) : Option Entry := e.view.entry? e.path

def variant? (e : Edit) : Option Variant := e.values.head?.map Value.variant

end Edit

namespace Catalog

def make (c : Catalog) (e : Edit) : Except Error Catalog :=
  c.setAttribute e.view e.path e.name e.values

def makeBoth (c : Catalog) (e f : Edit) : Except Error Catalog := do
  (← c.make e).make f

/-- What an edit leaves when it succeeds. -/
def put (c : Catalog) (e : Edit) (slot : Nat) : Catalog :=
  { c with registry := c.registry.register e.name e.variant? }.setAt slot e.name e.values

/-- Both edits can be made, whichever is the first. -/
structure AdmitsBoth (c : Catalog) (e f : Edit) : Prop where
  first : c.Admits e.view e.path e.name e.values
  second : c.Admits f.view f.path f.name f.values
  compatible : e.name = f.name → Compatible e.variant? f.variant?

variable {c c' : Catalog} {e f : Edit}

theorem AdmitsBoth.symm (h : c.AdmitsBoth e f) : c.AdmitsBoth f e :=
  ⟨h.second, h.first, fun hname => Compatible.comm.1 (h.compatible hname.symm)⟩

theorem make_eq_ok_iff : c.make e = .ok c' ↔
    ∃ entry, e.entry? = some entry ∧ StorableAttribute e.name e.values ∧
      Compatible (c.registry.variant? e.name) e.variant? ∧ c' = c.put e entry.slot :=
  setAttribute_eq_ok_iff

theorem admits_iff : c.Admits e.view e.path e.name e.values ↔
    ∃ entry, e.entry? = some entry ∧ StorableAttribute e.name e.values ∧
      Compatible (c.registry.variant? e.name) e.variant? := by
  rw [← setAttribute_iff_admits]
  apply Iff.intro
  · intro h
    obtain ⟨c', hmake⟩ := h
    obtain ⟨entry, hentry, hattribute, hcompatible, _⟩ := make_eq_ok_iff.1 hmake
    exact ⟨entry, hentry, hattribute, hcompatible⟩
  · intro h
    obtain ⟨entry, hentry, hattribute, hcompatible⟩ := h
    exact ⟨_, make_eq_ok_iff.2 ⟨entry, hentry, hattribute, hcompatible, rfl⟩⟩

theorem makeBoth_eq_ok_iff : c.makeBoth e f = .ok c' ↔
    c.AdmitsBoth e f ∧ ∃ x y, e.entry? = some x ∧ f.entry? = some y ∧
    c' = (c.put e x.slot).put f y.slot := by
  rw [makeBoth, bind_eq_ok_iff]
  apply Iff.intro
  · intro h
    obtain ⟨c₁, hfirst, hsecond⟩ := h
    obtain ⟨x, hx, hattribute, hcompatible, rfl⟩ := make_eq_ok_iff.1 hfirst
    obtain ⟨y, hy, hother, hafter, rfl⟩ := make_eq_ok_iff.1 hsecond
    -- The second edit meets the registry that the first has left.
    obtain ⟨hbefore, hboth⟩ := (Registry.compatible_register_iff hcompatible).1 hafter
    exact ⟨⟨admits_iff.2 ⟨x, hx, hattribute, hcompatible⟩, admits_iff.2 ⟨y, hy, hother, hbefore⟩,
      hboth⟩, x, y, hx, hy, rfl⟩
  · intro h
    obtain ⟨hadmits, x, y, hx, hy, rfl⟩ := h
    obtain ⟨_, _, hattribute, hcompatible⟩ := admits_iff.1 hadmits.first
    obtain ⟨_, _, hother, hbefore⟩ := admits_iff.1 hadmits.second
    have hafter := (Registry.compatible_register_iff hcompatible).2 ⟨hbefore, hadmits.compatible⟩
    exact ⟨c.put e x.slot, make_eq_ok_iff.2 ⟨x, hx, hattribute, hcompatible, rfl⟩,
      make_eq_ok_iff.2 ⟨y, hy, hother, hafter, rfl⟩⟩

theorem exists_makeBoth_iff : (∃ c', c.makeBoth e f = .ok c') ↔ c.AdmitsBoth e f := by
  apply Iff.intro
  · intro h
    obtain ⟨c', hmake⟩ := h
    exact (makeBoth_eq_ok_iff.1 hmake).1
  · intro hadmits
    obtain ⟨x, hx, _⟩ := admits_iff.1 hadmits.first
    obtain ⟨y, hy, _⟩ := admits_iff.1 hadmits.second
    exact ⟨_, makeBoth_eq_ok_iff.2 ⟨hadmits, x, y, hx, hy, rfl⟩⟩

theorem setAt_comm (c : Catalog) {i j : Nat} {name other : String} (h : i ≠ j ∨ name ≠ other)
    (values new : List Value) :
    (c.setAt i name values).setAt j other new = (c.setAt j other new).setAt i name values := by
  have hdocuments : ((c.setAt i name values).setAt j other new).documents
      = ((c.setAt j other new).setAt i name values).documents := by
    refine List.ext_getElem? fun k => ?_
    simp only [getElem?_setAt]
    by_cases hi : k = i
    · by_cases hj : k = j
      · -- Both are in this document, so their names are different.
        have hname : name ≠ other := h.resolve_left fun hne => hne (hi.symm.trans hj)
        simp only [if_pos hi, if_pos hj, Option.map_map]
        exact congrArg (c.documents[k]?.map ·) (funext fun d => d.set_comm hname values new)
      · simp only [if_neg hj]
    · simp only [if_neg hi]
  exact congrArg (Catalog.mk · c.registry) hdocuments

theorem put_comm (c : Catalog) {i j : Nat} (hapart : i ≠ j ∨ e.name ≠ f.name)
    (h : e.name = f.name → Compatible e.variant? f.variant?) :
    (c.put e i).put f j = (c.put f j).put e i :=
  congrArg₂ Catalog.mk (congrArg Catalog.documents (c.setAt_comm hapart e.values f.values))
    (Registry.register_comm h)

theorem makeBoth_swap (hapart : ∀ x ∈ e.entry?, ∀ y ∈ f.entry?, x.slot ≠ y.slot ∨ e.name ≠ f.name)
    (h : c.makeBoth e f = .ok c') : c.makeBoth f e = .ok c' := by
  obtain ⟨hadmits, x, y, hx, hy, rfl⟩ := makeBoth_eq_ok_iff.1 h
  exact makeBoth_eq_ok_iff.2
    ⟨hadmits.symm, y, x, hy, hx, c.put_comm (hapart x hx y hy) hadmits.compatible⟩

end Catalog

namespace Session

/-- Different entries, also of different views, have different documents. -/
theorem Reachable.slot_ne {s : Session} (hs : s.Reachable) {v w : View} (hv : v ∈ s.views)
    (hw : w ∈ s.views) {x y : Entry} (hx : x ∈ v) (hy : y ∈ w) (hne : x ≠ y) : x.slot ≠ y.slot := by
  obtain ⟨origins, hf⟩ := Family.of_reachable hs
  obtain ⟨index, hsound⟩ := hf.exists_sound
  exact hsound.slot_ne (List.mem_map_of_mem hw) (List.mem_map_of_mem hv) hy hx hne

/-- Two edits of different entries or different attributes, each made through any view, both succeed
in one order exactly when they both succeed in the other, and then they leave the same. They do when
each of them can be made by itself and, if they have one attribute, their values are not of two
variants. -/
theorem edits_commute {s : Session} (hs : s.Reachable) {e f : Edit} (he : e.view ∈ s.views)
    (hf : f.view ∈ s.views) (hapart : e.name ≠ f.name ∨ ∀ x ∈ e.entry?, ∀ y ∈ f.entry?, x ≠ y) :
    (∀ c, s.catalog.makeBoth e f = .ok c ↔ s.catalog.makeBoth f e = .ok c) ∧
    ((∃ c, s.catalog.makeBoth e f = .ok c) ↔ s.catalog.AdmitsBoth e f) := by
  have hslots : ∀ x ∈ e.entry?, ∀ y ∈ f.entry?, x.slot ≠ y.slot ∨ e.name ≠ f.name := by
    intro x hx y hy
    rcases hapart with hnames | hentries
    · exact .inr hnames
    · exact .inl (hs.slot_ne he hf (List.mem_of_find?_eq_some hx) (List.mem_of_find?_eq_some hy)
        (hentries x hx y hy))
  have hswapped : ∀ y ∈ f.entry?, ∀ x ∈ e.entry?, y.slot ≠ x.slot ∨ f.name ≠ e.name :=
    fun y hy x hx => (hslots x hx y hy).imp Ne.symm Ne.symm
  exact ⟨fun c => ⟨Catalog.makeBoth_swap hslots, Catalog.makeBoth_swap hswapped⟩,
    Catalog.exists_makeBoth_iff⟩

/-- An attribute that is new to the session gets no values in one document and a text in another.
Either can be first: in the end it has the variant of the text. -/
theorem edits_commute_of_draft :
    let all : View := [⟨⟨"a"⟩, 0⟩, ⟨⟨"b"⟩, 1⟩]
    let mine : View := [⟨⟨"b"⟩, 1⟩]
    let catalog : Catalog :=
      ⟨[.ofList [("by", [.text "you"])], .ofList [("by", [.text "me"])]],
        ⟨.ofList [("by", some .text)]⟩⟩
    Reachable ⟨catalog, [all, mine]⟩ ∧
    ∃ c, catalog.makeBoth ⟨all, ⟨"a"⟩, "tags", []⟩ ⟨mine, ⟨"b"⟩, "tags", [.text "draft"]⟩ = .ok c ∧
      catalog.makeBoth ⟨mine, ⟨"b"⟩, "tags", [.text "draft"]⟩ ⟨all, ⟨"a"⟩, "tags", []⟩ = .ok c ∧
      c.registry.variant? "tags" = some .text := by
  intro all mine catalog
  have hbuild : Catalog.build
      [(⟨"a"⟩, .ofList [("by", [.text "you"])]), (⟨"b"⟩, .ofList [("by", [.text "me"])])]
        = .ok (catalog, all) := by decide +kernel
  have hfilter : step ⟨catalog, [all]⟩ (.filter 0 "by=me")
      = ⟨catalog, [all, mine]⟩ := by decide +kernel
  have hs : Reachable ⟨catalog, [all, mine]⟩ :=
    hfilter ▸ (Reachable.build hbuild).step (.filter 0 "by=me")
  have hentries : ∀ x ∈ Edit.entry? ⟨all, ⟨"a"⟩, "tags", []⟩,
      ∀ y ∈ Edit.entry? ⟨mine, ⟨"b"⟩, "tags", [.text "draft"]⟩, x ≠ y := by decide +kernel
  have hmake : catalog.makeBoth ⟨all, ⟨"a"⟩, "tags", []⟩ ⟨mine, ⟨"b"⟩, "tags", [.text "draft"]⟩
      = .ok ⟨[.ofList [("by", [.text "you"]), ("tags", [])],
        .ofList [("by", [.text "me"]), ("tags", [.text "draft"])]],
        ⟨.ofList [("by", some .text), ("tags", some .text)]⟩⟩ := by decide +kernel
  obtain ⟨hswap, _⟩ := edits_commute hs (by simp) (by simp) (.inr hentries)
  exact ⟨hs, _, hmake, (hswap _).1 hmake, by decide +kernel⟩

end Session

end SidecarIndex

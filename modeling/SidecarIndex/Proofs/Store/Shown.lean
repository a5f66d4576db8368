import SidecarIndex.Proofs.Store.Assign

/-! # Setting what is shown

The text that shows the values of an attribute is read as these values: in the recorded variant, or,
where none is recorded, as no values at all. Setting an attribute to what is shown of it therefore
writes the document that was loaded, and the tree is loaded as before. -/

namespace SidecarIndex

/-! ### Setting what is there -/

theorem Registry.register_of_records {r : Registry} {name : String} {values : List Value}
    (h : r.Records name values) : r.register name (values.head?.map Value.variant) = r := by
  obtain ⟨found, hfound⟩ := contains_eq_true_iff.1 h.contains
  have hvariant : r.variant? name = found := by
    rw [variant?, hfound]
    rfl
  have hstays : (r.variant? name).or (values.head?.map Value.variant) = found := by
    cases values with
    | nil => rw [List.head?_nil, Option.map_none, Option.or_none, hvariant]
    | cons first rest =>
      have hfirst := h.variant first (List.mem_cons_self ..)
      rw [hfirst, Option.some_or, ← hfirst, hvariant]
  rw [register_eq, hstays]
  exact congrArg Registry.mk (OrderedMap.insert_of_get? hfound)

theorem Document.mem_entries_of_get? {d : Document} {name : String} {values : List Value}
    (h : d.get? name = some values) : (name, values) ∈ d.entries :=
  OrderedMap.mem_entries_iff.2 h

theorem Document.set_of_get? {d : Document} {name : String} {values : List Value}
    (h : d.get? name = some values) : d.set name values = d :=
  congrArg Document.mk (OrderedMap.insert_of_get? h)

namespace Catalog

variable {c : Catalog} {view : View} {path : Path} {name : String} {values : List Value}
  {entry : Entry} {d : Document}

theorem setAt_of_get? (hd : c.documents[entry.slot]? = some d)
    (hvalues : d.get? name = some values) : c.setAt entry.slot name values = c := by
  have hdocuments : (c.setAt entry.slot name values).documents = c.documents := by
    refine List.ext_getElem? fun slot => ?_
    rw [getElem?_setAt]
    by_cases hslot : slot = entry.slot
    · rw [if_pos hslot, hslot, hd, Option.map_some, Document.set_of_get? hvalues]
    · rw [if_neg hslot]
  cases c
  exact congrArg (Catalog.mk · _) hdocuments

theorem setAttribute_of_get? (hc : c.Sound) (hentry : view.entry? path = some entry)
    (hd : c.documents[entry.slot]? = some d) (hvalues : d.get? name = some values) :
    c.setAttribute view path name values = .ok c := by
  have hmem := List.mem_of_getElem? hd
  have hattribute := Document.mem_entries_of_get? hvalues
  have hrecords := hc.recorded d hmem _ hattribute
  refine setAttribute_eq_ok_iff.2 ⟨entry, hentry, hc.storable d hmem _ hattribute, ?_, ?_⟩
  · intro registered hregistered variant hvariant
    obtain ⟨first, hfirst, rfl⟩ := Option.map_eq_some_iff.1 hvariant
    have hknown := hrecords.variant first (List.mem_of_head? hfirst)
    exact Option.some.inj (hregistered.symm.trans hknown)
  · rw [Registry.register_of_records hrecords]
    exact (setAt_of_get? hd hvalues).symm

/-- Shown values are read in a variant that all of them have. Where no variant is recorded there are
none, and then it does not matter that their text is taken for a text. -/
theorem editingVariant_format (h : c.registry.Records name values) : ∃ variant,
    c.editingVariant name (Editing.format values) = .ok variant ∧ AllOf variant values := by
  cases values with
  | nil =>
    have hempty : ∀ variant, AllOf variant [] := fun _ _ hv => nomatch hv
    have hinfer : Editing.inferVariant (Editing.format []) = .ok none := by decide +kernel
    cases hvariant : c.registry.variant? name with
    | some variant => exact ⟨variant, editingVariant_eq_ok_iff.2 (.inl hvariant), hempty variant⟩
    | none => exact ⟨.text, editingVariant_eq_ok_iff.2 (.inr ⟨hvariant, none, hinfer, rfl⟩),
        hempty .text⟩
  | cons first rest =>
    have hfirst := h.variant first (List.mem_cons_self ..)
    refine ⟨first.variant, editingVariant_eq_ok_iff.2 (.inl hfirst), fun v hv => ?_⟩
    exact Option.some.inj ((h.variant v hv).symm.trans hfirst)

theorem assign_format (hc : c.Sound) (hread : d.IsRead) (hentry : view.entry? path = some entry)
    (hd : c.documents[entry.slot]? = some d) (hvalues : d.get? name = some values) :
    c.assign view path name (Editing.format values) = .ok c := by
  have hmem := List.mem_of_getElem? hd
  have hattribute := Document.mem_entries_of_get? hvalues
  obtain ⟨variant, hvariant, hall⟩ := editingVariant_format (hc.recorded d hmem _ hattribute)
  have hshown :=
    Editing.read_format hall (hc.storable d hmem _ hattribute).storable (hread _ hattribute)
  exact assign_eq_ok_iff.2 ⟨variant, values, hvariant, hshown,
    setAttribute_of_get? hc hentry hd hvalues⟩

end Catalog

namespace Store

variable {s : Store} {t u : FileTree} {base : Location} {places : List Place}
  {documents : List Document} {token : String} {order : WalkOrder}
  {refused : Option FileTree.Refusal}

/-! ### Loading the same documents -/

theorem eq_of_holdsAt {place : Place} {d e : Document} (hd : s.HoldsAt t base place d)
    (he : s.HoldsAt t base place e) : d = e := by
  obtain ⟨text, hreads, htext⟩ := hd
  obtain ⟨other, hother, hothertext⟩ := he
  cases hreads.text.symm.trans hother.text
  exact Except.ok.inj (htext.symm.trans hothertext)

theorem forall₂_holdsAt_iff (h : List.Forall₂ (s.HoldsAt t base) places documents)
    {entries : List (Path × Document)} :
    List.Forall₂ (fun place entry => entry.1 = place.path ∧ s.HoldsAt t base place entry.2) places
      entries ↔ entries = (places.map Place.path).zip documents := by
  induction h generalizing entries with
  | nil => simp
  | @cons place d _ _ hplace _ ih =>
    rw [List.forall₂_cons_left_iff, List.map_cons, List.zip_cons_cons]
    simp only [ih]
    apply Iff.intro
    · intro hcons
      obtain ⟨entry, _, ⟨hpath, hd⟩, rfl, rfl⟩ := hcons
      exact congrArg (· :: _) (Prod.ext hpath (eq_of_holdsAt hd hplace))
    · intro hcons
      exact ⟨(place.path, d), _, ⟨rfl, hplace⟩, rfl, hcons⟩

/-- What the places of a tree are loaded into is known from the documents that they hold. -/
theorem Holds.load_eq_ok_iff (h : s.Holds t base places documents) {c : Catalog} {view : View} :
    s.load order t = .ok (c, view) ↔
      Catalog.build ((places.map Place.path).zip documents) = .ok (c, view) := by
  rw [Store.load_eq_ok_iff h.linkFree h.walks, h.placesOf]
  simp only [forall₂_holdsAt_iff h.documents, exists_eq_left]

/-! ### Setting what is shown -/

theorem assign_shown_cases (s : Store) (hlinks : t.LinkFree) (hnames : s.DescribesNames t)
    (htoken : FreshToken t token) (refused : Option FileTree.Refusal) {c : Catalog} {view : View}
    (hload : s.load order t = .ok (c, view)) {entry : Entry} (hentry : entry ∈ view) {name : String}
    {values : List Value} (hvalues : (c.document entry.slot).get? name = some values) :
    entry.path.normalized = entry.path ∧
      ((s.hasRoom token entry.path = true ∧ refused = none ∧ ∃ u,
        s.assign order token refused t entry.path name (Editing.format values) = (.ok (), u) ∧
          ∀ other, s.load other u = .ok (c, view)) ∨
      (¬ (s.hasRoom token entry.path = true ∧ refused = none) ∧ ∃ e u,
        s.assign order token refused t entry.path name (Editing.format values) = (.error e, u) ∧
          (refused = none ∨ UnusedToken t token → ∀ other, s.load other u = .ok (c, view)))) := by
  obtain ⟨base, places, hholds, rfl, hsound, hsteps⟩ :=
    holds_of_isStepwise hlinks hload (isStepwise_of_load hnames hload)
  obtain ⟨place, hslot, hpath⟩ := shows_viewOf places entry hentry
  obtain ⟨d, hd, _⟩ := getElem?_of_forall₂ hholds.documents hslot
  have hfirst := Catalog.entry?_path_of_pairwise (pairwise_viewOf_iff.2 hholds.distinct) hentry
  have hmem := hholds.isStorable d (List.mem_of_getElem? hd)
  rw [Catalog.document_of_getElem? hd] at hvalues
  have hassign := Catalog.assign_format hsound hmem.2 hfirst hd hvalues
  have hset := Catalog.setAttribute_of_get? hsound hfirst hd hvalues
  have hback := Document.ofText_text_append hmem.1 hmem.2 fun _ => Document.isSpace_lineEnd
  have hsame : c.documents.set entry.slot d = c.documents := by
    obtain ⟨hlength, heq⟩ := List.getElem?_eq_some_iff.1 hd
    rw [← heq, List.set_getElem_self]
  have hreload : ∀ {u : FileTree}, s.Holds u base places c.documents →
      ∀ other, s.load other u = .ok (c, viewOf places) :=
    fun hholds' other => hholds'.load_eq_ok_iff.2 (hholds.load_eq_ok_iff.1 hload)
  refine ⟨?_, ?_⟩
  · rw [← hpath]
    exact (hsteps place (List.mem_of_getElem? hslot)).normalized_eq
  · rw [assign_of_ok hload hassign, Catalog.metadata_of_setAttribute hset hfirst hd,
      Document.set_of_get? hvalues, ← hpath]
    rcases hholds.write_cases hslot htoken refused hback with
      ⟨hroom, hnone, u, hwrite, _, hholds', _⟩ | ⟨hcannot, e, u, hwrite, hleft⟩
    · rw [hsame] at hholds'
      exact .inl ⟨hroom, hnone, u, hwrite, hreload hholds'⟩
    · refine .inr ⟨hcannot, e, u, hwrite, fun hunused => ?_⟩
      rcases hleft with rfl | ⟨hrefused, hleft⟩
      · exact hreload hholds
      · exact hreload (hholds.of_leftover (hunused.resolve_left hrefused)
          (List.mem_of_getElem? hslot) hleft)

theorem code_assign_shown_iff (s : Store) (system : System) (hlinks : t.LinkFree)
    (hnames : s.DescribesNames t) (htoken : FreshToken t system.token) {c : Catalog} {view : View}
    (hload : s.load system.order t = .ok (c, view)) {entry : Entry} (hentry : entry ∈ view)
    {name : String} {values : List Value}
    (hvalues : (c.document entry.slot).get? name = some values) :
    ((Task.assign entry.path name (Editing.format values)).run s system t).1.code = 0 ↔
      s.hasRoom system.token entry.path = true ∧ system.refused = none := by
  obtain ⟨hpath, hcases⟩ :=
    assign_shown_cases s hlinks hnames htoken system.refused hload hentry hvalues
  simp only [Task.run, hpath, code_ofText_iff]
  rcases hcases with ⟨hroom, hnone, u, hassign, _⟩ | ⟨hcannot, e, u, hassign, _⟩
  · rw [hassign]
    exact iff_of_true ⟨_, rfl⟩ ⟨hroom, hnone⟩
  · rw [hassign]
    refine iff_of_false ?_ hcannot
    rintro ⟨_, hok⟩
    cases hok

/-- Setting an attribute of an entry to the text that shows its values succeeds exactly when there
is room for the temporary file of its side-car and the system refuses nothing for other reasons,
such as permissions or space. In each case the tree is loaded as before: with the same paths,
documents and types. Where the system refuses something a temporary file may be left, so that its
token must be in no name of the tree. -/
theorem load_of_assign_shown (s : Store) (system : System) {t : FileTree} (hlinks : t.LinkFree)
    (hnames : s.DescribesNames t) (htoken : FreshToken t system.token) {c : Catalog} {view : View}
    (hload : s.load system.order t = .ok (c, view)) {entry : Entry} (hentry : entry ∈ view)
    {name : String} {values : List Value}
    (hvalues : (c.document entry.slot).get? name = some values) :
    (((Task.assign entry.path name (Editing.format values)).run s system t).1.code = 0 ↔
      s.hasRoom system.token entry.path = true ∧ system.refused = none) ∧
    (system.refused = none ∨ UnusedToken t system.token → ∀ other,
      s.load other ((Task.assign entry.path name (Editing.format values)).run s system t).2
        = .ok (c, view)) := by
  refine ⟨code_assign_shown_iff s system hlinks hnames htoken hload hentry hvalues,
    fun hunused => ?_⟩
  obtain ⟨hpath, hcases⟩ :=
    assign_shown_cases s hlinks hnames htoken system.refused hload hentry hvalues
  simp only [Task.run, hpath]
  rcases hcases with ⟨_, _, u, hassign, hreload⟩ | ⟨_, e, u, hassign, hreload⟩
  · rw [hassign]
    exact hreload
  · rw [hassign]
    exact hreload hunused

def zero : FileTree :=
  .ofNote "a" "\x7b\"k\": [-0.0], \"tags\": []\x7d" isFileName_letter isFileName_letterSidecar

/-- A negative zero and an empty list of no known variant stay what they are, also when the new file
is cut off. -/
theorem load_of_assign_shown_zero : zero.LinkFree ∧ here.DescribesNames zero ∧
    FreshToken zero "f00d" ∧ ∃ c, here.load .byName zero = .ok (c, [⟨⟨"a"⟩, 0⟩]) ∧
      (c.document 0).get? "k" = some [.number (.finite true .zero)] ∧
      (c.document 0).get? "tags" = some [] ∧ here.hasRoom "f00d" ⟨"a"⟩ = true ∧
      ((Task.assign ⟨"a"⟩ "k" "[-0.0]").run here ⟨.byName, "f00d", none⟩ zero).1.code = 0 ∧
      ∀ other,
        here.load other ((Task.assign ⟨"a"⟩ "k" "[-0.0]").run here ⟨.byName, "f00d", none⟩ zero).2
          = .ok (c, [⟨⟨"a"⟩, 0⟩]) ∧
        here.load other ((Task.assign ⟨"a"⟩ "tags" "[]").run here
          ⟨.byName, "f00d", some (.content 5 "no space left")⟩ zero).2 = .ok (c, [⟨⟨"a"⟩, 0⟩]) := by
  have hnote : zero.IsNote "a" "\x7b\"k\": [-0.0], \"tags\": []\x7d" := FileTree.isNote_ofNote _ _ _
  have hnames := describesNames_of_isNote hnote (by decide +kernel)
  have hfresh : FreshToken zero "f00d" := hnote.freshToken (by decide +kernel) (by decide +kernel)
  have hunused : UnusedToken zero "f00d" := by decide +kernel
  have hload : here.load .byName zero
      = .ok (⟨[.ofList [("k", [.number (.finite true .zero)]), ("tags", [])]],
        ⟨.ofList [("k", some .number), ("tags", none)]⟩⟩, [⟨⟨"a"⟩, 0⟩]) := by decide +kernel
  have hentry : (⟨⟨"a"⟩, 0⟩ : Entry) ∈ [(⟨⟨"a"⟩, 0⟩ : Entry)] := List.mem_singleton_self _
  have hzero : Document.get? (.ofList [("k", [.number (.finite true .zero)]), ("tags", [])]) "k"
      = some [.number (.finite true .zero)] := by decide +kernel
  have htags : Document.get? (.ofList [("k", [.number (.finite true .zero)]), ("tags", [])]) "tags"
      = some [] := by decide +kernel
  have hroom : here.hasRoom "f00d" ⟨"a"⟩ = true := by decide +kernel
  obtain ⟨hcode, hreload⟩ := load_of_assign_shown here ⟨.byName, "f00d", none⟩ hnote.linkFree hnames
    hfresh hload hentry hzero
  obtain ⟨_, hreloadTags⟩ := load_of_assign_shown here
    ⟨.byName, "f00d", some (.content 5 "no space left")⟩ hnote.linkFree hnames hfresh hload
    hentry htags
  rw [show Editing.format [.number (.finite true .zero)] = "[-0.0]" by decide +kernel]
    at hcode hreload
  rw [show Editing.format [] = "[]" by decide +kernel] at hreloadTags
  exact ⟨hnote.linkFree, hnames, hfresh, _, hload, hzero, htags, hroom, hcode.2 ⟨hroom, rfl⟩,
    fun other => ⟨hreload (.inl rfl) other, hreloadTags (.inr hunused) other⟩⟩

/-- Where the name of the side-car leaves no room for a temporary file, setting what is shown fails,
also when the system refuses nothing. -/
theorem assign_shown_of_long_name : ∃ (t : FileTree) (c : Catalog) (view : View) (entry : Entry)
    (values : List Value),
    t.IsNote (String.ofList (List.replicate 212 'a')) "\x7b\"k\": [\"x\"]\x7d" ∧ t.LinkFree ∧
    here.DescribesNames t ∧ FreshToken t "0b09dd26-4d5a-4f3c-9f8c-0d6f2c1a7e55" ∧
    here.load .byName t = .ok (c, view) ∧ entry ∈ view ∧
    (c.document entry.slot).get? "k" = some values ∧
    ((Task.assign entry.path "k" (Editing.format values)).run here
      ⟨.byName, "0b09dd26-4d5a-4f3c-9f8c-0d6f2c1a7e55", none⟩ t).1.code ≠ 0 := by
  have hname := isFileName_replicate (n := 212) (by omega) (by omega)
  have hsize := utf8ByteSize_replicate 212
  have hdash : '-' ∉ (String.ofList (List.replicate 212 'a')).toList :=
    fun hmem => absurd (eq_of_mem_replicate hmem) (by decide)
  have hending : ¬ ".mdf".toList <:+ (String.ofList (List.replicate 212 'a')).toList :=
    fun hsuffix => absurd (eq_of_mem_replicate (hsuffix.subset (List.mem_cons_self ..))) (by decide)
  generalize String.ofList (List.replicate 212 'a') = name at hname hsize hdash hending ⊢
  have hnote := FileTree.isNote_ofNote hname (isFileName_sidecar hname (by omega))
    "\x7b\"k\": [\"x\"]\x7d"
  have hnames := describesNames_of_isNote hnote hending
  have hfresh : FreshToken _ "0b09dd26-4d5a-4f3c-9f8c-0d6f2c1a7e55" :=
    hnote.freshToken hdash (by decide +kernel)
  have htoken : "0b09dd26-4d5a-4f3c-9f8c-0d6f2c1a7e55".utf8ByteSize = 36 := by decide +kernel
  obtain ⟨c, _, hload, hholds, hdocuments, _⟩ := StoreSession.load_and_set_of_isNote hnote hending
  rw [hdocuments] at hholds
  have hroom : here.hasRoom "0b09dd26-4d5a-4f3c-9f8c-0d6f2c1a7e55" ⟨name⟩ = false :=
    hasRoom_of_long_name hholds (by omega)
  have hvalues : (c.document 0).get? "k" = some [.text "x"] := by
    rw [Catalog.document_of_getElem? (d := .ofList [("k", [.text "x"])]) (by rw [hdocuments]; rfl)]
    decide +kernel
  have hentry : (⟨⟨name⟩, 0⟩ : Entry) ∈ [(⟨⟨name⟩, 0⟩ : Entry)] := List.mem_singleton_self _
  refine ⟨_, c, _, ⟨⟨name⟩, 0⟩, _, hnote, hnote.linkFree, hnames, hfresh, hload, hentry,
    hvalues, ?_⟩
  intro hcode
  rw [code_assign_shown_iff here ⟨.byName, _, none⟩ hnote.linkFree hnames hfresh hload hentry
    hvalues, hroom] at hcode
  cases hcode.1

end Store

end SidecarIndex

import SidecarIndex.Proofs.Editing
import SidecarIndex.Proofs.Path.Normalized
import SidecarIndex.Proofs.Store.Check
import SidecarIndex.Proofs.Store.Session

/-! # Setting an attribute in a tree

An attribute is set by loading the tree, changing one document of the index and writing its
side-car. So the command either changes one side-car, and what is loaded from the tree afterwards is
what was loaded before with one list of values changed, or it fails and leaves the tree as it was.
Only where the system refuses what the tree would allow may a temporary file be left. -/

namespace SidecarIndex

namespace Catalog

variable {c c' : Catalog} {view : View} {path : Path} {name text : String} {values : List Value}

theorem editingVariant_eq_ok_iff {variant : Variant} : c.editingVariant name text = .ok variant ↔
    c.registry.variant? name = some variant ∨ c.registry.variant? name = none ∧
      ∃ found, Editing.inferVariant text = .ok found ∧ variant = found.getD .text := by
  rw [editingVariant]
  cases c.registry.variant? name with
  | some registered => simp
  | none =>
    simp only [reduceCtorEq, false_or, true_and, map_eq_ok_iff]
    exact exists_congr fun found => and_congr_right' eq_comm

theorem assign_eq_ok_iff : c.assign view path name text = .ok c' ↔ ∃ variant values,
    c.editingVariant name text = .ok variant ∧ Editing.read text variant = .ok values ∧
      c.setAttribute view path name values = .ok c' := by
  simp only [assign, bind_eq_ok_iff, mapError_eq_ok_iff]
  apply Iff.intro
  · intro h
    obtain ⟨variant, hvariant, values, hvalues, hset⟩ := h
    exact ⟨variant, values, hvariant, hvalues, hset⟩
  · intro h
    obtain ⟨variant, values, hvariant, hvalues, hset⟩ := h
    exact ⟨variant, hvariant, values, hvalues, hset⟩

theorem assign_ne_ok_of_entry?_none (h : view.entry? path = none) :
    c.assign view path name text ≠ .ok c' := by
  intro hassign
  obtain ⟨_, _, _, _, hset⟩ := assign_eq_ok_iff.1 hassign
  obtain ⟨entry, hentry, _⟩ := setAttribute_eq_ok_iff.1 hset
  rw [h] at hentry
  cases hentry

end Catalog

namespace Store

variable {s : Store} {order : WalkOrder} {t u : FileTree} {base : Location} {places : List Place}
  {c c' : Catalog} {view : View} {path : Path} {name text token : String}
  {refused : Option FileTree.Refusal}

/-- The described paths of all side-cars that are found are paths of names. -/
def DescribesNames (s : Store) (t : FileTree) : Prop :=
  ∀ order sources, s.scan order t = .ok sources → ∀ source ∈ sources, source.1.IsPlain

theorem isStepwise_of_load (hnames : s.DescribesNames t) (hload : s.load order t = .ok (c, view)) :
    ∀ entry ∈ view, entry.path.IsStepwise := by
  obtain ⟨sources, hscan, _, hpaths⟩ := exists_sources_of_load hload
  intro entry hentry
  have hpath : entry.path ∈ sources.map Prod.fst := hpaths ▸ List.mem_map_of_mem hentry
  obtain ⟨source, hsource, heq⟩ := List.mem_map.1 hpath
  rw [← heq]
  exact (hnames order sources hscan source hsource).isStepwise

theorem describesNames_of_isNote {text : String} (h : t.IsNote name text)
    (hname : ¬ ".mdf".toList <:+ name.toList) : here.DescribesNames t := by
  intro order sources hscan source hsource
  have hsources := (scan_eq_ok_iff h.linkFree (walks_of_isNote rfl h)).1 hscan
  rw [places_of_isNote rfl extension_here h hname] at hsources
  obtain ⟨place, hplace, hpath, _⟩ := exists_of_forall₂_of_mem hsources hsource
  rw [hpath, List.mem_singleton.1 hplace]
  exact Path.isPlain_of_isFileName (FileTree.isFileName_of_at?_singleton h.at?_described)

/-- Places whose paths are paths of steps have different ones, as the path of a place names its
side-car. -/
theorem pairwise_of_isStepwise (h : ∀ place ∈ s.places order t base, place.path.IsStepwise) :
    (s.places order t base).Pairwise fun a b => a.path.same b.path = false := by
  have hnames := List.pairwise_map.1 (List.nodup_iff_pairwise_ne.1 (nodup_places s order t base))
  refine hnames.imp_of_mem fun {a b} ha hb hne => Bool.eq_false_iff.2 fun hsame => hne ?_
  have hpath : a.path = b.path := ((h b hb).eq_of_same (h a ha) hsame).symm
  exact (mem_places_iff.1 ha).names_eq (hpath ▸ mem_places_iff.1 hb)

/-- What is loaded from a tree whose side-cars describe paths of steps. -/
theorem holds_of_isStepwise (hlinks : t.LinkFree) (hload : s.load order t = .ok (c, view))
    (hsteps : ∀ entry ∈ view, entry.path.IsStepwise) :
    ∃ base places, s.Holds t base places c.documents ∧ view = viewOf places ∧ c.Sound ∧
      ∀ place ∈ places, place.path.IsStepwise := by
  obtain ⟨base, _, hview, _⟩ := exists_places_of_load hlinks hload
  have hpaths : view.Pairwise fun a b => a.path.same b.path = false := by
    rw [hview, forall_viewOf_iff] at hsteps
    rw [hview, pairwise_viewOf_iff]
    exact pairwise_of_isStepwise hsteps
  obtain ⟨base, places, hholds, rfl, hsound, _⟩ := holds_of_load hlinks hload hpaths
  exact ⟨base, places, hholds, rfl, hsound, forall_viewOf_iff.1 hsteps⟩

/-! ### One document -/

theorem assign_of_error {e : Error} (h : s.load order t = .error e) :
    s.assign order token refused t path name text = (.error e, t) := by
  rw [assign, h]

theorem assign_of_refused {e : Error} (hload : s.load order t = .ok (c, view))
    (h : c.assign view path name text = .error e) :
    s.assign order token refused t path name text = (.error e, t) := by
  simp only [assign, hload, h]

theorem assign_of_ok (hload : s.load order t = .ok (c, view))
    (h : c.assign view path name text = .ok c') :
    s.assign order token refused t path name text
      = s.write token refused t path (c'.metadata view path) := by
  simp only [assign, hload, h]

/-- The place of the entry with a path: the path is its path, written without what does not
count. -/
theorem place_of_entry? (hsteps : ∀ place ∈ places, place.path.IsStepwise) {entry : Entry}
    (hentry : View.entry? (viewOf places) path.normalized = some entry) :
    ∃ place, places[entry.slot]? = some place ∧ place.path = entry.path ∧
      path.normalized = entry.path := by
  obtain ⟨_, _, hview, hsame, _⟩ := Catalog.entry?_eq_some_iff.1 hentry
  obtain ⟨place, hslot, hpath⟩ := shows_viewOf places entry (by simp [hview])
  refine ⟨place, hslot, hpath, Path.IsStepwise.normalized_eq_of_same ?_ hsame⟩
  rw [← hpath]
  exact hsteps place (List.mem_of_getElem? hslot)

/-- One tree is another but for an attribute of an entry: only the side-car that the entry was
loaded from has changed, and what is loaded, in whatever order folders are listed, has changed only
in the values of the attribute. -/
structure AssignsOnly (s : Store) (t u : FileTree) (c : Catalog) (view : View) (entry : Entry)
    (name : String) (values : List Value) : Prop where
  sidecar : ∃ location text, t.resolve .node (s.sidecarPath entry.path) = .ok location ∧
    t.at? location = some (.file (.text text)) ∧
    Document.ofText text = .ok (c.document entry.slot) ∧
    ∀ other, other ≠ location → u.at? other = t.at? other
  loaded : ∀ order, ∃ c', s.load order u = .ok (c', view) ∧
    c'.documents = c.documents.modify entry.slot fun d => d.set name values

theorem Holds.resolve_sidecar {documents : List Document} (h : s.Holds t base places documents)
    {place : Place} (hplace : place ∈ places) :
    t.resolve .node (s.sidecarPath place.path) = .ok (base ++ place.names) := by
  have hdescribes := h.mem_iff.1 hplace
  rw [hdescribes.sidecarPath]
  exact FileTree.resolve_below h.linkFree h.walks.root hdescribes.there hdescribes.ne_nil
    (h.steps hplace)

/-- A document whose values have been replaced is read back from the text that is written. -/
theorem ofText_text_set {d : Document} (hd : d.IsStorable ∧ d.IsRead) {values : List Value}
    (hattribute : StorableAttribute name values) (hvalues : ∀ v ∈ values, v.IsRead) :
    Document.ofText ((d.set name values).text ++ "\n") = .ok (d.set name values) :=
  Document.ofText_text_append (Document.isStorable_set hd.1 hattribute)
    (Document.isRead_set hd.2 hvalues)
    fun _ => Document.isSpace_lineEnd

/-- Writing the changed document of an entry changes its side-car and nothing else. -/
theorem Holds.assignsOnly (h : s.Holds t base places c.documents) (hsound : c.Sound)
    {values : List Value} (hset : c.setAttribute (viewOf places) path name values = .ok c')
    {entry : Entry} (hentry : View.entry? (viewOf places) path = some entry) {place : Place}
    (hslot : places[entry.slot]? = some place) (hpath : place.path = entry.path) {d : Document}
    (hd : c.documents[entry.slot]? = some d)
    (hback : Document.ofText ((d.set name values).text ++ "\n") = .ok (d.set name values))
    (hrewrites : u.Rewrites t (base ++ place.names) (.text ((d.set name values).text ++ "\n"))) :
    s.AssignsOnly t u c (viewOf places) entry name values := by
  have hdocuments : c.documents.set entry.slot (d.set name values) = c'.documents := by
    rw [Catalog.documents_of_setAttribute hset hentry, List.modify_eq_set_getElem?, hd]
    rfl
  refine ⟨?_, ?_⟩
  -- The file that is rewritten is the one that the entry was loaded from.
  · obtain ⟨d', hd', text, hreads, htext⟩ := getElem?_of_forall₂ h.documents hslot
    cases hd.symm.trans hd'
    have hfile := FileTree.textAt?_eq_some_iff.1 hreads.text
    refine ⟨base ++ place.names, text, ?_, hfile, ?_, fun other hother => ?_⟩
    · rw [← hpath]
      exact h.resolve_sidecar (List.mem_of_getElem? hslot)
    · rw [htext, Catalog.document_of_getElem? hd]
    · rw [hrewrites.at?_eq (FileTree.ne_nil_of_file hfile), if_neg hother]
  -- The registry that the values were checked against fits the changed documents, so they can be
  -- loaded.
  · obtain ⟨_, hholds⟩ := h.of_rewrites hslot hback hrewrites
    rw [hdocuments] at hholds
    obtain ⟨hsound', _, _⟩ := Catalog.sound_of_setAttribute hsound hset
    intro order
    obtain ⟨loaded, hload, hloaded⟩ := hholds.load hsound'.recorded order
    exact ⟨loaded, hload, hloaded.trans (Catalog.documents_of_setAttribute hset hentry)⟩

/-- Setting an attribute of an entry by its own path rewrites the side-car that the entry was loaded
from, or it fails and leaves at most the temporary file of this side-car, where the system refuses
something. -/
theorem Holds.assign_cases (h : s.Holds t base places c.documents) (hsound : c.Sound)
    (hload : s.load order t = .ok (c, viewOf places)) (htoken : FreshToken t token) {entry : Entry}
    (hentry : View.entry? (viewOf places) entry.path = some entry) {place : Place}
    (hslot : places[entry.slot]? = some place) (hpath : place.path = entry.path)
    (name text : String) (refused : Option FileTree.Refusal) :
    (∃ e u, s.assign order token refused t entry.path name text = (.error e, u) ∧
      (u = t ∨ refused ≠ none ∧ s.Leftover token entry.path t u)) ∨
    ∃ u variant values, s.assign order token refused t entry.path name text = (.ok (), u) ∧
      c.editingVariant name text = .ok variant ∧ Editing.read text variant = .ok values ∧
      u.Rewrites t (base ++ place.names)
        (.text (((c.document entry.slot).set name values).text ++ "\n")) ∧
      s.AssignsOnly t u c (viewOf places) entry name values := by
  cases hassign : c.assign (viewOf places) entry.path name text with
  | error e => exact .inl ⟨e, t, assign_of_refused hload hassign, .inl rfl⟩
  | ok c' =>
    obtain ⟨variant, values, hvariant, hvalues, hset⟩ := Catalog.assign_eq_ok_iff.1 hassign
    obtain ⟨_, _, hattribute, _, _⟩ := Catalog.setAttribute_eq_ok_iff.1 hset
    obtain ⟨d, hd, _⟩ := getElem?_of_forall₂ h.documents hslot
    have hback := ofText_text_set (h.isStorable d (List.mem_of_getElem? hd)) hattribute
      fun v hv => (Editing.of_read hvalues v hv).2.2
    rw [assign_of_ok hload hassign, Catalog.metadata_of_setAttribute hset hentry hd,
      Catalog.document_of_getElem? hd, ← hpath]
    rcases h.write_cases hslot htoken refused hback with ⟨_, _, u, hwrite, _, _, hrewrites⟩ |
      ⟨_, e, u, hwrite, hleft⟩
    · exact .inr ⟨u, variant, values, hwrite, hvariant, hvalues, hrewrites,
        h.assignsOnly hsound hset hentry hslot hpath hd hback hrewrites⟩
    · exact .inl ⟨e, u, hwrite, hleft⟩

/-- An assignment either changes one side-car, or it fails and leaves at most a temporary file. -/
theorem assign_cases (s : Store) (hlinks : t.LinkFree) (hnames : s.DescribesNames t)
    (htoken : FreshToken t token) (order : WalkOrder) (refused : Option FileTree.Refusal)
    (path : Path) (name text : String) :
    (∃ e u, s.assign order token refused t path.normalized name text = (.error e, u) ∧
      (u = t ∨ refused ≠ none ∧ ∃ c view entry, s.load order t = .ok (c, view) ∧
        view.entry? path.normalized = some entry ∧ s.Leftover token entry.path t u)) ∨
    ∃ u c view entry variant values,
      s.assign order token refused t path.normalized name text = (.ok (), u) ∧
      s.load order t = .ok (c, view) ∧ view.entry? path.normalized = some entry ∧
      c.editingVariant name text = .ok variant ∧ Editing.read text variant = .ok values ∧
      s.AssignsOnly t u c view entry name values := by
  cases hload : s.load order t with
  | error e => exact .inl ⟨e, t, assign_of_error hload, .inl rfl⟩
  | ok found =>
    obtain ⟨c, view⟩ := found
    obtain ⟨base, places, hholds, rfl, hsound, hsteps⟩ :=
      holds_of_isStepwise hlinks hload (isStepwise_of_load hnames hload)
    cases hentry : View.entry? (viewOf places) path.normalized with
    | none =>
      obtain ⟨e, hrefused⟩ := exists_error_iff.2 fun c' =>
        Catalog.assign_ne_ok_of_entry?_none hentry
      exact .inl ⟨e, t, assign_of_refused hload hrefused, .inl rfl⟩
    | some entry =>
      obtain ⟨place, hslot, hpath, hnormalized⟩ := place_of_entry? hsteps hentry
      rw [hnormalized] at hentry ⊢
      rcases hholds.assign_cases hsound hload htoken hentry hslot hpath name text refused with
        ⟨e, u, hassign, hleft⟩ | ⟨u, variant, values, hassign, hvariant, hvalues, _, honly⟩
      · refine .inl ⟨e, u, hassign, hleft.imp_right fun ⟨hrefused, hfile⟩ => ?_⟩
        exact ⟨hrefused, c, _, entry, rfl, hentry, hfile⟩
      · exact .inr ⟨u, c, _, entry, variant, values, hassign, rfl, hentry, hvariant, hvalues, honly⟩

theorem isFileName_letter : IsFileName "a" := by decide +kernel

theorem isFileName_letterSidecar : IsFileName ("a" ++ ".mdf") := by decide +kernel

def letter : FileTree :=
  .ofNote "a" "\x7b\"k\": [\"x\"]\x7d" isFileName_letter isFileName_letterSidecar

end Store

end SidecarIndex

import Mathlib.Data.List.Nodup
import Mathlib.Data.List.Pairwise
import SidecarIndex.Proofs.FileTree.Replace
import SidecarIndex.Proofs.Index.Catalog
import SidecarIndex.Store.Scan

/-! # Scanning and loading a tree

A walk meets the files below the root in an order of the system's own, and what has been read is
sorted by the described paths. So the order matters only where described paths are the same. In a
tree without links the side-cars that are found hang on the outline of the tree alone, and the tree
can be loaded when each of them holds the text of a document and the documents have a common
registry. -/

namespace SidecarIndex

/-! ### Orders -/

namespace WalkOrder

variable (order : WalkOrder) (found : List (List String))

/-- The order in which files are met when there is no fault. -/
def names : List (List String) := (order.arrange (found.map .ok)).filterMap Except.toOption

theorem arrange_map_ok : order.arrange (found.map .ok) = (order.names found).map .ok :=
  (perm_map_ok (order.perm _)).1

theorem names_perm : (order.names found).Perm found := (perm_map_ok (order.perm _)).2

end WalkOrder

section Sorting

variable {α : Type} (path : α → Path)

/-- What has been sorted by paths is in their order. -/
theorem pairwise_mergeSort_path (xs : List α) :
    (xs.mergeSort fun a b => (path a).compare (path b) != .gt).Pairwise
      fun a b => (path a).compare (path b) ≠ .gt := by
  have hsorted : (xs.mergeSort fun a b => (path a).compare (path b) != .gt).Pairwise
      fun a b => ((path a).compare (path b) != .gt) = true := by
    refine List.pairwise_mergeSort (fun a b c hab hbc => ?_) (fun a b => ?_) xs
    · simp only [bne_iff_ne, Ordering.ne_gt_iff_isLE] at hab hbc ⊢
      exact Std.TransCmp.isLE_trans hab hbc
    · cases hcompare : (path a).compare (path b) with
      | gt => simp [Std.OrientedCmp.not_gt_of_gt hcompare]
      | lt => rfl
      | eq => rfl
  exact hsorted.imp fun hab => by simpa using hab

theorem compare_eq_of_ne_gt {p q : Path} (hpq : p.compare q ≠ .gt) (hqp : q.compare p ≠ .gt) :
    p.compare q = .eq := by
  cases h : p.compare q with
  | lt => exact absurd (Std.OrientedCmp.gt_of_lt h) hqp
  | eq => rfl
  | gt => exact absurd h hpq

/-- Two lists of the same things with pairwise different paths are sorted into the same list. -/
theorem mergeSort_eq_of_perm {xs ys : List α} (hperm : xs.Perm ys)
    (hpaths : xs.Pairwise fun a b => (path a).same (path b) = false) :
    xs.mergeSort (fun a b => (path a).compare (path b) != .gt)
      = ys.mergeSort fun a b => (path a).compare (path b) != .gt := by
  have hxs := List.mergeSort_perm xs fun a b => (path a).compare (path b) != .gt
  have hys := List.mergeSort_perm ys fun a b => (path a).compare (path b) != .gt
  refine List.Perm.eq_of_pairwise ?_ (pairwise_mergeSort_path path xs)
    (pairwise_mergeSort_path path ys)
    (hxs.trans (hperm.trans hys.symm))
  intro a b ha hb hab hba
  by_contra hne
  have hsymm : Std.Symm fun a b : α => (path a).same (path b) = false :=
    ⟨fun a b h => (Path.same_comm (path b) (path a)).trans h⟩
  have hother := hpaths.forall (hxs.mem_iff.1 ha) (hperm.mem_iff.2 (hys.mem_iff.1 hb)) hne
  rw [Path.same_of_compare_eq (compare_eq_of_ne_gt hab hba)] at hother
  cases hother

end Sorting

/-! ### Texts of files -/

def FileTree.textAt? (t : FileTree) (location : Location) : Option String :=
  match t.at? location with
  | some (.file (.text s)) => some s
  | _ => none

theorem FileTree.textAt?_eq_some_iff {t : FileTree} {location : Location} {s : String} :
    t.textAt? location = some s ↔ t.at? location = some (.file (.text s)) := by
  unfold textAt?
  apply Iff.intro
  · intro h
    split at h
    · rename_i hat
      cases h
      exact hat
    · cases h
  · intro h
    rw [h]

/-- A side-car below the root of a store: the names that lead to it, and the path that it
describes. -/
structure Place where
  names : List String
  path : Path

namespace Store

variable {s : Store} {t u : FileTree} {order : WalkOrder}

/-- The place that some names are, when they lead to a side-car of something that is there. -/
def place? (s : Store) (t : FileTree) (names : List String) : Option Place :=
  (s.sidecar? t names).map fun sidecar => ⟨names, sidecar.described⟩

/-! ### What a place is -/

theorem described?_eq_some {names : List String} {path : Path}
    (h : s.described? names = some path) :
    path.text ++ s.extension = "/".intercalate names ∧ path.text ≠ "" ∧
      path.text.toList.getLast? ≠ some '/' := by
  simp only [described?] at h
  split at h
  · cases h
  · rename_i htext
    split at h
    · cases h
    · rename_i hshape
      cases h
      rw [Decidable.not_not] at htext
      rw [not_or] at hshape
      refine ⟨?_, fun hempty => hshape.1 ?_, ?_⟩
      · rw [← String.toList_inj, String.toList_append, String.toList_ofList, htext]
      · have hlist := congrArg String.toList hempty
        rwa [String.toList_ofList] at hlist
      · rw [String.toList_ofList]
        exact hshape.2

theorem described?_of_suffix {s : Store} {file : String} {names : List String}
    (hfile : "/".intercalate names = file) (h : ¬ s.extension.toList <:+ file.toList) :
    s.described? names = none := by
  rw [described?, hfile, if_pos fun heq => h ⟨_, heq⟩]

theorem described?_append {s : Store} {names : List String} {name : String}
    (hfile : "/".intercalate names = name ++ s.extension) (hne : name ≠ "")
    (hslash : name.toList.getLast? ≠ some '/') : s.described? names = some ⟨name⟩ := by
  have htake : (name ++ s.extension).toList.take ((name ++ s.extension).length - s.extension.length)
      = name.toList := by
    rw [String.length_append, Nat.add_sub_cancel, String.toList_append, ← String.length_toList,
      List.take_left]
  rw [described?, hfile, htake, if_neg (by simp), if_neg, String.ofList_toList]
  intro hor
  rcases hor with hempty | hlast
  · exact hne (String.toList_eq_nil_iff.1 hempty)
  · exact hslash hlast

theorem described?_eq_some_iff {names : List String} {path : Path} :
    s.described? names = some path ↔ "/".intercalate names = path.text ++ s.extension ∧
    path.text ≠ "" ∧ path.endsInSlash = false := by
  have hslash : path.endsInSlash = false ↔ path.text.toList.getLast? ≠ some '/' := by
    rw [Path.endsInSlash, beq_eq_false_iff_ne]
  rw [hslash]
  apply Iff.intro
  · intro h
    obtain ⟨htext, hne, hlast⟩ := described?_eq_some h
    exact ⟨htext.symm, hne, hlast⟩
  · intro h
    obtain ⟨htext, hne, hlast⟩ := h
    exact described?_append htext hne hlast

theorem sidecarPath_of_described? {names : List String} {path : Path}
    (h : s.described? names = some path) : s.sidecarPath path = s.root.below names := by
  obtain ⟨htext, hne, _⟩ := described?_eq_some_iff.1 h
  rw [sidecarPath, Path.join_append s.root hne, ← htext]
  rfl

theorem sidecar?_eq_some_iff {names : List String} {sidecar : Sidecar} :
    s.sidecar? t names = some sidecar ↔ s.described? names = some sidecar.described ∧
      sidecar.file = s.root.below names ∧
      t.leadsSomewhere (s.root.join sidecar.described) = true := by
  simp only [sidecar?, Option.bind_eq_bind, Option.bind_eq_some_iff, Option.ite_none_right_eq_some]
  apply Iff.intro
  · intro h
    obtain ⟨described, hdescribed, hleads, heq⟩ := h
    cases heq
    exact ⟨hdescribed, rfl, hleads⟩
  · intro h
    obtain ⟨hdescribed, hfile, hleads⟩ := h
    exact ⟨_, hdescribed, hleads, by rw [← hfile]⟩

theorem place?_eq_some_iff {names : List String} {place : Place} : s.place? t names = some place ↔
    place.names = names ∧ s.described? names = some place.path ∧
      t.leadsSomewhere (s.root.join place.path) = true := by
  simp only [place?, Option.map_eq_some_iff, sidecar?_eq_some_iff]
  apply Iff.intro
  · intro h
    obtain ⟨sidecar, ⟨hdescribed, _, hleads⟩, rfl⟩ := h
    exact ⟨rfl, hdescribed, hleads⟩
  · intro h
    obtain ⟨rfl, hdescribed, hleads⟩ := h
    exact ⟨⟨place.path, s.root.below place.names⟩, ⟨hdescribed, rfl, hleads⟩, rfl⟩

/-- Below the root some names lead to a file that is the side-car of something that is there. -/
structure Describes (s : Store) (t : FileTree) (base : Location) (names : List String)
    (path : Path) : Prop where
  isFile : ∃ content, t.at? (base ++ names) = some (.file content)
  text : "/".intercalate names = path.text ++ s.extension
  ne_empty : path.text ≠ ""
  noSlash : path.endsInSlash = false
  leads : t.leadsSomewhere (s.root.join path) = true

section Describes

variable {base : Location} {names : List String} {path : Path}

theorem Describes.ne_nil (h : s.Describes t base names path) : names ≠ [] := by
  intro hnil
  have htext := h.text
  rw [hnil, String.intercalate_nil] at htext
  have hlength := congrArg String.length htext
  rw [String.length_append, String.length_empty] at hlength
  exact h.ne_empty (String.length_eq_zero_iff.1 (by omega))

theorem Describes.there (h : s.Describes t base names path) : t.at? (base ++ names) ≠ none := by
  obtain ⟨content, hfile⟩ := h.isFile
  rw [hfile]
  exact Option.some_ne_none _

theorem Describes.described? (h : s.Describes t base names path) : s.described? names = some path :=
  described?_eq_some_iff.2 ⟨h.text, h.ne_empty, h.noSlash⟩

theorem Describes.sidecarPath (h : s.Describes t base names path) :
    s.sidecarPath path = s.root.below names := sidecarPath_of_described? h.described?

theorem Describes.names_eq {others : List String} (h : s.Describes t base names path)
    (hother : s.Describes t base others path) : names = others := by
  have hpieces := Path.pieces_intercalate (FileTree.isFileName_of_at? h.there) h.ne_nil
  rw [h.text, ← hother.text,
    Path.pieces_intercalate (FileTree.isFileName_of_at? hother.there) hother.ne_nil] at hpieces
  exact (List.map_injective_iff.2 (fun _ _ => String.toList_inj.1) hpieces).symm

end Describes

/-! ### Scanning -/

theorem gather_eq_ok_iff {met : List Met} {sources : List (Path × String)} :
    s.gather t met = .ok sources ↔ ∃ found : List (List String), met = found.map .ok ∧
      (found.filterMap (s.sidecar? t)).mapM (Sidecar.read t) = .ok sources := by
  induction met generalizing sources with
  | nil =>
    apply Iff.intro
    · intro h
      cases h
      exact ⟨[], rfl, rfl⟩
    · intro h
      obtain ⟨found, hnil, hread⟩ := h
      rw [List.map_eq_nil_iff.1 hnil.symm] at hread
      exact hread
  | cons first rest ih =>
    cases first with
    | error fault =>
      apply iff_of_false
      · intro h
        cases h
      · intro h
        obtain ⟨found, hfound, _⟩ := h
        exact error_not_mem_map_ok (hfound ▸ List.mem_cons_self ..)
    | ok names =>
      rw [exists_cons_eq_map_ok_iff, gather]
      cases hsidecar : s.sidecar? t names with
      | none => simp only [ih, List.filterMap_cons_none hsidecar]
      | some sidecar =>
        simp only [bind_eq_ok_iff, ih, List.filterMap_cons_some hsidecar, List.mapM_cons]
        apply Iff.intro
        · intro h
          obtain ⟨source, hsource, others, ⟨found, hfound, hothers⟩, heq⟩ := h
          exact ⟨found, hfound, source, hsource, others, hothers, heq⟩
        · intro h
          obtain ⟨found, hfound, source, hsource, others, hothers, heq⟩ := h
          exact ⟨source, hsource, others, ⟨found, hfound, hothers⟩, heq⟩

/-- A scan that succeeds has met no fault, and has read all side-cars of what is there. -/
theorem scan_eq_ok_iff_read {sources : List (Path × String)} : s.scan order t = .ok sources ↔
    ∃ (found : List (List String)) (unsorted : List (Path × String)), s.files t = found.map .ok ∧
      ((order.names found).filterMap (s.sidecar? t)).mapM (Sidecar.read t) = .ok unsorted ∧
      sources = unsorted.mergeSort fun a b => a.1.compare b.1 != .gt := by
  simp only [scan, bind_eq_ok_iff, gather_eq_ok_iff]
  apply Iff.intro
  · intro h
    obtain ⟨unsorted, ⟨arranged, harranged, hread⟩, heq⟩ := h
    cases heq
    have hfiles := (perm_map_ok (harranged ▸ (order.perm (s.files t)).symm)).1
    rw [hfiles, order.arrange_map_ok, map_ok_inj] at harranged
    exact ⟨_, unsorted, hfiles, harranged ▸ hread, rfl⟩
  · intro h
    obtain ⟨found, unsorted, hfiles, hread, rfl⟩ := h
    exact ⟨unsorted, ⟨_, hfiles ▸ order.arrange_map_ok found, hread⟩, rfl⟩

/-- Side-cars are gone over in the order of the paths they describe. -/
theorem pairwise_of_scan {sources : List (Path × String)} (h : s.scan order t = .ok sources) :
    sources.Pairwise fun a b => a.1.compare b.1 ≠ .gt := by
  obtain ⟨_, unsorted, _, _, rfl⟩ := scan_eq_ok_iff_read.1 h
  exact pairwise_mergeSort_path Prod.fst unsorted

/-- The order in which folders are listed does not matter when the described paths are different. -/
theorem scan_of_other_order {sources : List (Path × String)} (h : s.scan order t = .ok sources)
    (hpaths : sources.Pairwise fun a b => a.1.same b.1 = false) (other : WalkOrder) :
    s.scan other t = .ok sources := by
  obtain ⟨found, unsorted, hfiles, hread, rfl⟩ := scan_eq_ok_iff_read.1 h
  have hfound : (other.names found).Perm (order.names found) :=
    (other.names_perm found).trans (order.names_perm found).symm
  obtain ⟨others, hothers, hperm⟩ :=
    exists_mapM_of_perm (hfound.filterMap (s.sidecar? t)).symm hread
  refine scan_eq_ok_iff_read.2 ⟨found, others, hfiles, hothers,
    mergeSort_eq_of_perm Prod.fst hperm ?_⟩
  exact (List.mergeSort_perm unsorted _).pairwise hpaths fun {a b} h =>
    (Path.same_comm b.1 a.1).trans h

/-! ### The places of a tree -/

/-- The side-cars below a location in the order of the paths they describe. -/
def places (s : Store) (order : WalkOrder) (t : FileTree) (base : Location) : List Place :=
  ((order.names (t.namesOfFiles base)).filterMap (s.place? t)).mergeSort
    fun a b => a.path.compare b.path != .gt

/-- The places of a tree are the side-cars of what is there. -/
theorem mem_places_iff {base : Location} {place : Place} :
    place ∈ s.places order t base ↔ s.Describes t base place.names place.path := by
  rw [places, List.mem_mergeSort, List.mem_filterMap]
  simp only [(order.names_perm _).mem_iff, FileTree.mem_namesOfFiles_iff, place?_eq_some_iff,
    described?_eq_some_iff]
  apply Iff.intro
  · intro h
    obtain ⟨names, ⟨_, hfile⟩, rfl, ⟨htext, hne, hslash⟩, hleads⟩ := h
    exact ⟨hfile, htext, hne, hslash, hleads⟩
  · intro h
    exact ⟨place.names, ⟨h.ne_nil, h.isFile⟩, rfl, ⟨h.text, h.ne_empty, h.noSlash⟩, h.leads⟩

theorem nodup_places (s : Store) (order : WalkOrder) (t : FileTree) (base : Location) :
    ((s.places order t base).map Place.names).Nodup := by
  have hperm := List.mergeSort_perm ((order.names (t.namesOfFiles base)).filterMap (s.place? t))
    fun a b => a.path.compare b.path != .gt
  have hnames := (order.names_perm _).nodup_iff.2 (t.nodup_namesOfFiles base)
  rw [places, (hperm.map Place.names).nodup_iff, List.nodup_iff_pairwise_ne, List.pairwise_map,
    List.pairwise_filterMap]
  refine (List.nodup_iff_pairwise_ne.1 hnames).imp ?_
  intro a b hne first hfirst second hsecond heq
  exact hne ((place?_eq_some_iff.1 hfirst).1.symm.trans
    (heq.trans (place?_eq_some_iff.1 hsecond).1))

/-- Trees in which the same names describe the same paths have the same places, in whatever order
folders are listed, when the described paths are different. -/
theorem places_eq_of_describes {base : Location}
    (hpaths : (s.places order t base).Pairwise fun a b => a.path.same b.path = false)
    (hdescribes : ∀ names path, s.Describes u base names path ↔ s.Describes t base names path)
    (other : WalkOrder) : s.places other u base = s.places order t base := by
  refine List.Perm.eq_of_pairwise ?_ (pairwise_mergeSort_path Place.path _)
    (pairwise_mergeSort_path Place.path _) ?_
  · intro a b ha hb hab hba
    by_contra hne
    have hsymm : Std.Symm fun a b : Place => a.path.same b.path = false :=
      ⟨fun a b h => (Path.same_comm b.path a.path).trans h⟩
    have ha' : a ∈ s.places order t base :=
      mem_places_iff.2 ((hdescribes _ _).1 (mem_places_iff.1 ha))
    have hother := hpaths.forall ha' hb hne
    rw [Path.same_of_compare_eq (compare_eq_of_ne_gt hab hba)] at hother
    cases hother
  · refine (List.perm_ext_iff_of_nodup (nodup_places s other u base).of_map
      (nodup_places s order t base).of_map).2 fun place => ?_
    exact mem_places_iff.trans ((hdescribes _ _).trans mem_places_iff.symm)

theorem places_alike (hlinks : t.LinkFree) (halike : t.Alike u) (order : WalkOrder)
    (base : Location) : s.places order t base = s.places order u base := by
  have hplace : s.place? t = s.place? u := by
    funext names
    simp only [place?, sidecar?, halike.leadsSomewhere_eq hlinks]
  rw [places, places, halike.namesOfFiles_eq, hplace]

/-- A walk below the root meets no fault: the root leads to a location, and all folders below it can
be opened. -/
structure Walks (s : Store) (t : FileTree) (base : Location) : Prop where
  root : t.resolve .node s.root = .ok base
  opens : t.Opens s.root [] base

theorem Walks.of_alike (hlinks : t.LinkFree) (halike : t.Alike u) {base : Location}
    (h : s.Walks t base) : s.Walks u base := by
  refine ⟨halike.resolve_eq hlinks .node s.root ▸ h.root, fun below hne hfolder => ?_⟩
  rw [← halike.leadsSomewhere_eq hlinks]
  exact h.opens below hne (halike.symm.at?_folder hfolder)

theorem files_eq_ok_iff (hlinks : t.LinkFree) {found : List (List String)} :
    s.files t = found.map .ok ↔ ∃ base, s.Walks t base ∧ found = t.namesOfFiles base := by
  rw [files]
  cases hroot : t.resolve .node s.root with
  | error fault =>
    apply iff_of_false singleton_error_ne_map_ok
    intro h
    obtain ⟨base, hwalks, _⟩ := h
    cases hroot.symm.trans hwalks.root
  | ok base =>
    simp only [FileTree.filesBelow_eq_ok_iff hlinks]
    apply Iff.intro
    · exact fun h => ⟨base, ⟨hroot, h.1⟩, h.2⟩
    · intro h
      obtain ⟨other, hwalks, hfound⟩ := h
      cases hroot.symm.trans hwalks.root
      exact ⟨hwalks.opens, hfound⟩

theorem walks_of_scan (hlinks : t.LinkFree) {sources : List (Path × String)}
    (h : s.scan order t = .ok sources) : ∃ base, s.Walks t base := by
  obtain ⟨found, _, hfiles, _⟩ := scan_eq_ok_iff_read.1 h
  obtain ⟨base, hwalks, _⟩ := (files_eq_ok_iff hlinks).1 hfiles
  exact ⟨base, hwalks⟩

/-! ### Reading at places -/

/-- The text of a side-car can be read at its place. -/
structure ReadsAt (s : Store) (t : FileTree) (base : Location) (place : Place) (text : String) :
    Prop where
  steps : FileTree.stepsOf (s.root.below place.names) = .ok (s.root.below place.names).walk
  text : t.textAt? (base ++ place.names) = some text

theorem readText_below_iff (hlinks : t.LinkFree) {base : Location}
    (hroot : t.resolve .node s.root = .ok base) {place : Place} (hne : place.names ≠ [])
    {content : Content} (hfile : t.at? (base ++ place.names) = some (.file content))
    {text : String} : t.readText (s.root.below place.names) = .ok text ↔
      s.ReadsAt t base place text := by
  have hthere : t.at? (base ++ place.names) ≠ none := by
    rw [hfile]
    exact Option.some_ne_none _
  simp only [FileTree.readText, FileTree.read, bind_eq_ok_iff]
  apply Iff.intro
  · intro h
    obtain ⟨node, ⟨location, hresolve, hnode⟩, hread⟩ := h
    have hsteps := ((FileTree.resolve_eq_ok_iff hlinks).1 hresolve).1
    rw [FileTree.resolve_below hlinks hroot hthere hne hsteps] at hresolve
    cases hresolve
    refine ⟨hsteps, FileTree.textAt?_eq_some_iff.2 ?_⟩
    rw [hfile] at hnode ⊢
    cases hnode
    cases content with
    | text found =>
      cases hread
      rfl
    | bytes found => cases hread
  · intro h
    have hat := FileTree.textAt?_eq_some_iff.1 h.text
    refine ⟨.file (.text text), ⟨base ++ place.names, ?_, ?_⟩, rfl⟩
    · exact FileTree.resolve_below hlinks hroot hthere hne h.steps
    · rw [hat]

theorem sidecarRead_eq_ok_iff {sidecar : Sidecar} {source : Path × String} :
    Sidecar.read t sidecar = .ok source ↔
      source.1 = sidecar.described ∧ t.readText sidecar.file = .ok source.2 := by
  obtain ⟨path, text⟩ := source
  rw [Sidecar.read]
  cases t.readText sidecar.file with
  | ok found =>
    simp only [Except.ok.injEq, Prod.mk.injEq]
    exact and_congr_left' eq_comm
  | error fault => simp

theorem read_eq_ok_iff (hlinks : t.LinkFree) {base : Location}
    (hroot : t.resolve .node s.root = .ok base)
    {place : Place} (hne : place.names ≠ []) {content : Content}
    (hfile : t.at? (base ++ place.names) = some (.file content)) {source : Path × String} :
    Sidecar.read t ⟨place.path, s.root.below place.names⟩ = .ok source ↔
      source.1 = place.path ∧ s.ReadsAt t base place source.2 := by
  rw [← readText_below_iff hlinks hroot hne hfile]
  exact sidecarRead_eq_ok_iff

theorem source_iff {base : Location} (place : Place) (source : Path × String) :
    source.1 = place.path ∧ s.ReadsAt t base place source.2 ↔
      source = (place.path, (t.textAt? (base ++ place.names)).getD "") ∧
        ∃ text, s.ReadsAt t base place text := by
  obtain ⟨path, text⟩ := source
  apply Iff.intro
  · intro h
    obtain ⟨rfl, hreads⟩ := h
    rw [hreads.text]
    exact ⟨rfl, text, hreads⟩
  · intro h
    obtain ⟨heq, found, hreads⟩ := h
    rw [hreads.text] at heq
    cases heq
    exact ⟨rfl, hreads⟩

theorem filterMap_sidecar? (found : List (List String)) :
    found.filterMap (s.sidecar? t) = (found.filterMap (s.place? t)).map fun place =>
      ⟨place.path, s.root.below place.names⟩ := by
  induction found with
  | nil => rfl
  | cons names rest ih =>
    cases hplace : s.place? t names with
    | none =>
      rw [List.filterMap_cons_none hplace,
        List.filterMap_cons_none (Option.map_eq_none_iff.1 hplace), ih]
    | some place =>
      obtain ⟨rfl, hdescribed, hleads⟩ := place?_eq_some_iff.1 hplace
      have hsidecar : s.sidecar? t place.names = some ⟨place.path, s.root.below place.names⟩ :=
        sidecar?_eq_some_iff.2 ⟨hdescribed, rfl, hleads⟩
      rw [List.filterMap_cons_some hplace, List.filterMap_cons_some hsidecar, ih]
      rfl

/-- Scanning gives, place by place, the described path and the text there. -/
theorem scan_eq_ok_iff (hlinks : t.LinkFree) {base : Location} (hwalks : s.Walks t base)
    {sources : List (Path × String)} : s.scan order t = .ok sources ↔
      List.Forall₂ (fun place source => source.1 = place.path ∧ s.ReadsAt t base place source.2)
        (s.places order t base) sources := by
  have hread : ∀ place other (source : Path × String),
      place = other ∧ place ∈ (order.names (t.namesOfFiles base)).filterMap (s.place? t) →
      (Sidecar.read t ⟨other.path, s.root.below other.names⟩ = .ok source ↔
        source = (place.path, (t.textAt? (base ++ place.names)).getD "") ∧
          ∃ text, s.ReadsAt t base place text) := by
    intro place other source h
    obtain ⟨rfl, hplace⟩ := h
    have hmem : place ∈ s.places order t base := List.mem_mergeSort.2 hplace
    have hdescribes := mem_places_iff.1 hmem
    obtain ⟨content, hfile⟩ := hdescribes.isFile
    rw [read_eq_ok_iff hlinks hwalks.root hdescribes.ne_nil hfile, source_iff]
  have hself : List.Forall₂ (fun place other => place = other ∧
      place ∈ (order.names (t.namesOfFiles base)).filterMap (s.place? t))
      ((order.names (t.namesOfFiles base)).filterMap (s.place? t))
      ((order.names (t.namesOfFiles base)).filterMap (s.place? t)) :=
    List.forall₂_same.2 fun place hplace => ⟨rfl, hplace⟩
  -- Both sides say that every place has a text, and which the sources are.
  rw [forall₂_iff_map (R := Eq) (fun place _ source heq => by rw [← heq, source_iff])
    (List.forall₂_eq_eq_eq ▸ rfl), places, List.map_mergeSort
      (s := fun a b : Path × String => a.1.compare b.1 != .gt) (fun _ _ _ _ => rfl)]
  simp only [scan_eq_ok_iff_read, files_eq_ok_iff hlinks, filterMap_sidecar?, List.mapM_map,
    mapM_eq_ok_iff]
  apply Iff.intro
  · intro h
    obtain ⟨_, unsorted, ⟨other, hother, rfl⟩, hunsorted, rfl⟩ := h
    cases hwalks.root.symm.trans hother.root
    obtain ⟨rfl, hall⟩ := (forall₂_iff_map hread hself).1 hunsorted
    exact ⟨rfl, fun place hplace => hall place (List.mem_mergeSort.1 hplace)⟩
  · intro h
    obtain ⟨rfl, hall⟩ := h
    refine ⟨_, _, ⟨base, hwalks, rfl⟩,
      (forall₂_iff_map hread hself).2 ⟨rfl, fun place hplace => ?_⟩, rfl⟩
    exact hall place (List.mem_mergeSort.2 hplace)

/-! ### Loading -/

def HoldsAt (s : Store) (t : FileTree) (base : Location) (place : Place) (d : Document) : Prop :=
  ∃ text, s.ReadsAt t base place text ∧ Document.ofText text = .ok d

theorem readDocument_eq_ok_iff {source : Path × String} {entry : Path × Document} :
    s.readDocument source = .ok entry ↔
      entry.1 = source.1 ∧ Document.ofText source.2 = .ok entry.2 := by
  obtain ⟨path, d⟩ := entry
  rw [readDocument]
  cases Document.ofText source.2 with
  | ok found =>
    simp only [Except.ok.injEq, Prod.mk.injEq]
    constructor
    · intro h
      exact ⟨h.1.symm, h.2⟩
    · intro h
      exact ⟨h.1.symm, h.2⟩
  | error e => simp

theorem load_eq_ok_iff_ofSources {found : Catalog × View} : s.load order t = .ok found ↔
    ∃ sources, s.scan order t = .ok sources ∧ Catalog.ofSources sources = .ok found := by
  have hread : ∀ (sources : List (Path × String)) (entries : List (Path × Document)),
      sources.mapM s.readDocument = .ok entries ↔ Catalog.readSources sources = .ok entries := by
    intro sources entries
    have hentry : ∀ (source : Path × String) (entry : Path × Document),
        s.readDocument source = .ok entry ↔
        source.1 = entry.1 ∧ Document.ofText source.2 = .ok entry.2 :=
      fun _ _ => readDocument_eq_ok_iff.trans (and_congr_left' eq_comm)
    simp only [mapM_eq_ok_iff, Catalog.readSources_eq_ok_iff, hentry]
  simp only [load, Catalog.ofSources, bind_eq_ok_iff, hread]

theorem load_eq_ok_iff (hlinks : t.LinkFree) {base : Location} (hwalks : s.Walks t base)
    {c : Catalog} {view : View} : s.load order t = .ok (c, view) ↔
      ∃ entries, List.Forall₂ (fun place entry =>
      entry.1 = place.path ∧ s.HoldsAt t base place entry.2) (s.places order t base) entries ∧
        Catalog.build entries = .ok (c, view) := by
  have hsteps : ∀ entries,
      (∃ sources, s.scan order t = .ok sources ∧ sources.mapM s.readDocument = .ok entries)
      ↔ List.Forall₂ (fun place entry => entry.1 = place.path ∧ s.HoldsAt t base place entry.2)
        (s.places order t base) entries := by
    intro entries
    simp only [scan_eq_ok_iff hlinks hwalks, mapM_eq_ok_iff, readDocument_eq_ok_iff,
      forall₂_comp_iff]
    have hplace : ∀ (place : Place) (entry : Path × Document),
        (∃ source : Path × String, (source.1 = place.path ∧ s.ReadsAt t base place source.2) ∧
          entry.1 = source.1 ∧ Document.ofText source.2 = .ok entry.2) ↔
        entry.1 = place.path ∧ s.HoldsAt t base place entry.2 := by
      intro place entry
      apply Iff.intro
      · intro h
        obtain ⟨⟨path, text⟩, ⟨hpath, hreads⟩, hentry, htext⟩ := h
        exact ⟨hentry.trans hpath, text, hreads, htext⟩
      · intro h
        obtain ⟨hpath, text, hreads, htext⟩ := h
        exact ⟨(place.path, text), ⟨rfl, hreads⟩, hpath, htext⟩
    simp only [hplace]
  simp only [← hsteps, load, bind_eq_ok_iff]
  apply Iff.intro
  · intro h
    obtain ⟨sources, hsources, entries, hentries, hbuild⟩ := h
    exact ⟨entries, ⟨sources, hsources, hentries⟩, hbuild⟩
  · intro h
    obtain ⟨entries, ⟨sources, hsources, hentries⟩, hbuild⟩ := h
    exact ⟨sources, hsources, entries, hentries, hbuild⟩

theorem walks_of_load (hlinks : t.LinkFree) {found : Catalog × View}
    (h : s.load order t = .ok found) : ∃ base, s.Walks t base := by
  obtain ⟨sources, hscan, _⟩ := load_eq_ok_iff_ofSources.1 h
  exact walks_of_scan hlinks hscan

end Store

end SidecarIndex

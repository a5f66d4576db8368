import SidecarIndex.Proofs.Store.Shown

/-! # Listed paths name their entries

A listed path is a path below the root with the extension cut off, and it is normalized when it is
given to a command. All its pieces but the last are names of folders, and the last is what stands
before the extension in the name of a file: a step, unless it is a single dot. Where no side-car is
named by a dot and the extension, a listed path is its own normal form, and no other entry has
it. -/

namespace SidecarIndex.Store

variable {s : Store} {t : FileTree} {base : Location} {places : List Place}
  {documents : List Document} {c : Catalog} {view : View} {order : WalkOrder} {system : System}

/-! ### Described paths -/

theorem isStepwise_of_described? {names : List String} {path : Path}
    (h : s.described? names = some path) (hnames : ∀ name ∈ names, IsFileName name)
    (hne : names ≠ []) (hdot : path.pieces.getLast? ≠ some ['.']) : path.IsStepwise := by
  obtain ⟨htext, hempty, hslash⟩ := described?_eq_some h
  obtain ⟨front, last, hpieces⟩ : ∃ front last, path.pieces = front ++ [last] :=
    ⟨_, _, path.pieces_eq_concat⟩
  have hfile := Path.pieces_append hpieces s.extension
  rw [htext, Path.pieces_intercalate hnames hne] at hfile
  intro piece hpiece
  rw [hpieces] at hpiece
  rcases List.mem_append.1 hpiece with hfront | hlast
  -- What stands before a slash is the name of a folder on the way to the file.
  · have hmem : piece ∈ names.map String.toList := hfile ▸ List.mem_append_left _ hfront
    obtain ⟨name, hname, rfl⟩ := List.mem_map.1 hmem
    exact Path.isStep_name (hnames name hname)
  · rw [List.mem_singleton.1 hlast]
    refine Path.isStep_of_ne ?_ ?_
    · rintro rfl
      have hwhole := path.text_of_pieces
      rw [hpieces] at hwhole
      by_cases hfront : front = []
      · rw [hfront, List.nil_append, List.intercalate_singleton] at hwhole
        exact hempty (String.toList_eq_nil_iff.1 hwhole)
      · rw [Path.intercalate_concat hfront] at hwhole
        exact hslash (by rw [hwhole, List.getLast?_concat])
    · rintro rfl
      exact hdot (by rw [hpieces, List.getLast?_concat])

theorem isStepwise_of_describes {names : List String} {path : Path}
    (h : s.Describes t base names path)
    (hdot : path.pieces.getLast? ≠ some ['.']) : path.IsStepwise :=
  isStepwise_of_described? h.described? (FileTree.isFileName_of_at? h.there) h.ne_nil hdot

/-- A tree in which no side-car is named by a dot and the extension is loaded into paths of
steps. -/
theorem isStepwise_of_dots (hlinks : t.LinkFree) (hload : s.load order t = .ok (c, view))
    (hdots : ∀ entry ∈ view, entry.path.pieces.getLast? ≠ some ['.']) :
    ∀ entry ∈ view, entry.path.IsStepwise := by
  obtain ⟨base, _, rfl, _⟩ := exists_places_of_load hlinks hload
  refine forall_viewOf_iff.2 fun place hplace => ?_
  exact isStepwise_of_describes (mem_places_iff.1 hplace)
    (forall_viewOf_iff (P := fun path => path.pieces.getLast? ≠ some ['.']) |>.1 hdots place hplace)

/-! ### Listing -/

/-- What is listed are paths of entries, one to a line. -/
theorem paths_of_listPaths (hload : s.load order t = .ok (c, view)) {query : List String}
    {out : String} (h : s.listPaths order t query = .ok out) :
    ∃ found : View, found.Sublist view ∧ out = Listing.paths found.paths := by
  simp only [listPaths, hload, bind_eq_ok_iff] at h
  obtain ⟨_, heq, found, hfound, hout⟩ := h
  cases heq
  cases hout
  obtain ⟨predicates, _, rfl⟩ := Catalog.filter_eq_ok_iff.1 hfound
  exact ⟨_, List.filter_sublist, rfl⟩

/-! ### Naming an entry -/

/-- The file at the location of a side-car, which held the document of an entry, holds another one,
and nothing else has changed. -/
structure RewritesSidecar (s : Store) (t u : FileTree) (c : Catalog) (entry : Entry)
    (d : Document) : Prop where
  sidecar : ∃ location text, t.resolve .node (s.sidecarPath entry.path) = .ok location ∧
    t.at? location = some (.file (.text text)) ∧
    Document.ofText text = .ok (c.document entry.slot) ∧
    u.Rewrites t location (.text (d.text ++ "\n"))

/-- The path of an entry, as it is listed, leads the other commands to this entry: its document is
shown, and when an attribute is set it is written to the side-car that the entry was loaded from. -/
structure NamesEntry (s : Store) (t : FileTree) (system : System) (c : Catalog) (view : View)
    (entry : Entry) : Prop where
  found : view.entry? entry.path.normalized = some entry
  shown : (Task.describe entry.path).run s system t
    = ({ out := Listing.document entry.path (c.document entry.slot) }, t)
  written : ∀ name text, ((Task.assign entry.path name text).run s system t).1.code = 0 →
    ∃ variant values, c.editingVariant name text = .ok variant ∧
    Editing.read text variant = .ok values ∧
      s.RewritesSidecar t ((Task.assign entry.path name text).run s system t).2 c entry
        ((c.document entry.slot).set name values)

theorem Holds.namesEntry (h : s.Holds t base places c.documents) (hsound : c.Sound)
    (hload : s.load system.order t = .ok (c, viewOf places)) (htoken : FreshToken t system.token)
    {entry : Entry}
    (hfirst : View.entry? (viewOf places) entry.path = some entry) {place : Place}
    (hslot : places[entry.slot]? = some place) (hpath : place.path = entry.path)
    (hnormalized : entry.path.normalized = entry.path) :
    s.NamesEntry t system c (viewOf places) entry := by
  refine ⟨?_, ?_, fun name text hcode => ?_⟩
  · rw [hnormalized]
    exact hfirst
  · have hfind : c.find? (viewOf places) entry.path = some (c.document entry.slot) := by
      rw [Catalog.find?, hfirst, Option.map_some]
    have hdescribe : s.describe system.order t entry.path
        = .ok (Listing.document entry.path (c.document entry.slot)) := by
      rw [describe, hload]
      simp only [bind, Except.bind, hfind]
    simp only [Task.run, hnormalized, hdescribe, Report.ofText]
  · simp only [Task.run, hnormalized] at hcode ⊢
    rcases h.assign_cases hsound hload htoken hfirst hslot hpath name text system.refused with
      ⟨e, _, hassign, _⟩ | ⟨u, variant, values, hassign, hvariant, hvalues, hrewrites, _⟩
    · rw [hassign] at hcode
      obtain ⟨_, hok⟩ := code_ofText_iff.1 hcode
      cases hok
    · rw [hassign]
      obtain ⟨d, hd, text, hreads, htext⟩ := getElem?_of_forall₂ h.documents hslot
      refine ⟨variant, values, hvariant, hvalues, base ++ place.names, text, ?_, ?_, ?_, hrewrites⟩
      · rw [← hpath]
        exact h.resolve_sidecar (List.mem_of_getElem? hslot)
      · exact FileTree.textAt?_eq_some_iff.1 hreads.text
      · rw [htext, Catalog.document_of_getElem? hd]

/-- Where no side-car is named by a dot and the extension alone, what is listed are paths of
entries, no two entries have the same path, and each path leads the other commands to its entry. -/
theorem listed_paths_name_entries (s : Store) (system : System) {t : FileTree} (hlinks : t.LinkFree)
    {c : Catalog} {view : View} (hload : s.load system.order t = .ok (c, view))
    (hdots : ∀ entry ∈ view, entry.path.pieces.getLast? ≠ some ['.'])
    (htoken : FreshToken t system.token) :
    (∀ query out, s.listPaths system.order t query = .ok out →
      ∃ found : View, found.Sublist view ∧ out = Listing.paths found.paths) ∧
    (view.Pairwise fun a b => a.path.same b.path = false) ∧
    ∀ entry ∈ view, s.NamesEntry t system c view entry := by
  obtain ⟨base, places, hholds, rfl, hsound, hsteps⟩ :=
    holds_of_isStepwise hlinks hload (isStepwise_of_dots hlinks hload hdots)
  have hpairwise := pairwise_viewOf_iff.2 hholds.distinct
  refine ⟨fun query out hout => paths_of_listPaths hload hout, hpairwise, fun entry hentry => ?_⟩
  obtain ⟨place, hslot, hpath⟩ := shows_viewOf places entry hentry
  have hstepwise := hsteps place (List.mem_of_getElem? hslot)
  rw [hpath] at hstepwise
  exact hholds.namesEntry hsound hload htoken
    (Catalog.entry?_path_of_pairwise hpairwise hentry) hslot
    hpath hstepwise.normalized_eq

/-- A folder with one side-car in it, of the name with the extension behind it. -/
def lettersWith (name : String) : FileTree :=
  let tree : Except FileFault FileTree := do
    let t ← FileTree.empty.makeFolder ⟨"letters"⟩
    t.makeFile ⟨"letters/" ++ name ++ ".mdf"⟩ (.text "\x7b\"k\": [\"x\"]\x7d")
  tree.toOption.getD .empty

def noted : Catalog := ⟨[.ofList [("k", [.text "x"])]], ⟨.ofList [("k", some .text)]⟩⟩

/-- Two dots before the extension are a step: the side-car describes what is above its folder, and
its path leads to it. -/
theorem listed_parent_names_entry :
    (lettersWith "..").LinkFree ∧ FreshToken (lettersWith "..") "f00d" ∧
    here.load .byName (lettersWith "..") = .ok (noted, [⟨⟨"letters/.."⟩, 0⟩]) ∧
    here.listPaths .byName (lettersWith "..") [] = .ok "letters/..\n" ∧
    here.NamesEntry (lettersWith "..") ⟨.byName, "f00d", none⟩ noted [⟨⟨"letters/.."⟩, 0⟩]
    ⟨⟨"letters/.."⟩, 0⟩ := by
  have hlinks : (lettersWith "..").LinkFree := by decide +kernel
  have hfresh : FreshToken (lettersWith "..") "f00d" := by decide +kernel
  have hload : here.load .byName (lettersWith "..")
      = .ok (noted, [⟨⟨"letters/.."⟩, 0⟩]) := by decide +kernel
  have hlist : here.listPaths .byName (lettersWith "..") []
      = .ok "letters/..\n" := by decide +kernel
  obtain ⟨_, _, hnames⟩ := listed_paths_name_entries here ⟨.byName, "f00d", none⟩ hlinks hload
    (by decide +kernel) hfresh
  exact ⟨hlinks, hfresh, hload, hlist, hnames _ (List.mem_singleton_self _)⟩

/-- One dot before the extension is no step: the listed path leads to the folder, and what is set is
written to a side-car that was not there, while the one that was loaded stays as it is. -/
theorem set_misses_dotted_sidecar :
    (lettersWith ".").LinkFree ∧ FreshToken (lettersWith ".") "f00d" ∧
    here.load .byName (lettersWith ".") = .ok (noted, [⟨⟨"letters/."⟩, 0⟩]) ∧
    here.listPaths .byName (lettersWith ".") [] = .ok "letters/.\n" ∧
    ((Task.assign ⟨"letters/."⟩ "k" "y").run here ⟨.byName, "f00d", none⟩
      (lettersWith ".")).1.code = 0 ∧
    ∀ d, ¬ here.RewritesSidecar (lettersWith ".")
      ((Task.assign ⟨"letters/."⟩ "k" "y").run here ⟨.byName, "f00d", none⟩
        (lettersWith ".")).2 noted
      ⟨⟨"letters/."⟩, 0⟩ d := by
  have hresolve : (lettersWith ".").resolve .node (here.sidecarPath ⟨"letters/."⟩)
      = .ok ["letters", "..mdf"] := by decide +kernel
  refine ⟨by decide +kernel, by decide +kernel, by decide +kernel, by decide +kernel,
    by decide +kernel, fun d hrewrites => ?_⟩
  obtain ⟨location, _, hlocation, hfile, _, hnodes⟩ := hrewrites.sidecar
  cases hlocation.symm.trans hresolve
  have hother := hnodes.at?_eq (FileTree.ne_nil_of_file hfile) ["letters.mdf"]
  rw [if_neg (by decide)] at hother
  revert hother
  decide +kernel

end SidecarIndex.Store

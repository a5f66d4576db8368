import SidecarIndex.Proofs.FileTree.Found
import SidecarIndex.Proofs.Index.Reload
import SidecarIndex.Proofs.Store.Session

/-! # Saving where links are followed

With links followed, one side-car may be found under several paths, and each of them has a document
of its own in the catalog. A save writes these documents one after the other, so that the side-car
holds the last one, and all of its paths are loaded with that one again. -/

namespace SidecarIndex

theorem FreshToken.of_overwrites {t u : FileTree} {token : String} (h : FreshToken t token)
    (hover : u.Overwrites t) : FreshToken u token := by
  refine ⟨h.noSlash, fun location name hthere => h.unused location name fun hnone => hthere ?_⟩
  exact hover.at?_eq_none_iff.2 hnone

namespace Store

variable {s : Store} {t u : FileTree} {front : List (List Char)} {names : List String}
  {found : List (List String)} {sources : List (Path × String)} {order : WalkOrder}

/-! ### What is found -/

theorem files_eq_ok_iff_below (hfollow : s.followLinks = true) : s.files t = found.map .ok ↔
    ∃ base, t.resolve .node s.root = .ok base ∧
      t.filesBelow true s.root (t.nodes.size + 1) [] [] base = found.map .ok := by
  rw [files, hfollow]
  cases t.resolve .node s.root with
  | error fault =>
    apply iff_of_false singleton_error_ne_map_ok
    intro h
    obtain ⟨base, hbase, _⟩ := h
    cases hbase
  | ok base =>
    apply Iff.intro
    · exact fun h => ⟨base, rfl, h⟩
    · intro h
      obtain ⟨other, hother, hfound⟩ := h
      cases hother
      exact hfound

theorem exists_isStem_of_files (hfollow : s.followLinks = true) (h : s.files t = found.map .ok) :
    ∃ front, s.root.IsStem front := by
  obtain ⟨base, hbase, _⟩ := (files_eq_ok_iff_below hfollow).1 h
  exact Path.exists_isStem (FileTree.text_ne_of_stepsOf (FileTree.resolve_eq_ok_iff_way.1 hbase).1)

theorem foundBehind_of_files (hfollow : s.followLinks = true) (hstem : s.root.IsStem front)
    (h : s.files t = found.map .ok) (hnames : names ∈ found) :
    t.FoundBehind s.root front [] names := by
  obtain ⟨base, hbase, hfound⟩ := (files_eq_ok_iff_below hfollow).1 h
  exact FileTree.foundBehind_of_filesBelow hstem (by simp)
    (fun hfolder => FileTree.reaches_root hstem hbase hfolder) hfound hnames

theorem files_of_overwrites (hfollow : s.followLinks = true) (hover : u.Overwrites t)
    (hstem : s.root.IsStem front) (h : s.files t = found.map .ok) : s.files u = found.map .ok := by
  have hsize : u.nodes.size = t.nodes.size := by
    have hlength := congrArg List.length hover.keys
    rwa [OrderedMap.keys, OrderedMap.keys, List.length_map, List.length_map] at hlength
  obtain ⟨base, hbase, hfound⟩ := (files_eq_ok_iff_below hfollow).1 h
  obtain ⟨other, hother, hsame, hends⟩ := hover.resolve hbase
  refine (files_eq_ok_iff_below hfollow).2 ⟨other, hother, ?_⟩
  rcases FileTree.stands_of_resolve hbase with hfolder | ⟨content, hfile⟩
  · rw [hsame hfolder, hsize]
    exact FileTree.filesBelow_of_overwrites hover hstem (by simp)
      (fun hfolder => FileTree.reaches_root hstem hbase hfolder) hfound
  · obtain ⟨content, hnew⟩ := hends content hfile
    rw [FileTree.filesBelow_of_not_folder (by simp [hfile])] at hfound
    rw [FileTree.filesBelow_of_not_folder (by simp [hnew]), hfound]

theorem leadsSomewhere_of_described? (hover : u.Overwrites t) (hstem : s.root.IsStem front)
    (hfound : t.FoundBehind s.root front [] names) {path : Path}
    (h : s.described? names = some path) :
    u.leadsSomewhere (s.root.join path) = t.leadsSomewhere (s.root.join path) := by
  obtain ⟨more, rfl, hne, hnames, hfolders⟩ := hfound
  obtain ⟨htext, hempty, _⟩ := described?_eq_some h
  have hrelative : path.isAbsolute = false := by
    rw [← Path.isAbsolute_append hempty s.extension, htext]
    exact Path.isAbsolute_intercalate hnames hne
  have hfile := Path.pieces_append path.pieces_eq_concat s.extension
  rw [htext, Path.pieces_intercalate hnames hne] at hfile
  obtain ⟨pre, rest, rfl, hpre, hrest⟩ := List.map_eq_append_iff.1 hfile
  have hrestNe : rest ≠ [] := by
    rintro rfl
    exact List.splitOn_ne_nil '/' _ hrest.symm
  have hpieces := path.pieces_eq_concat
  rw [← hpre] at hpieces
  rw [Bool.eq_iff_iff]
  apply Iff.intro
  · exact FileTree.leadsSomewhere_of_visited hover hstem
      (fun name hname => hnames name (List.mem_append_left _ hname)) (hfolders pre rest rfl hrestNe)
      hrelative hpieces
  · exact hover.leadsSomewhere

theorem sidecar?_of_overwrites (hover : u.Overwrites t) (hstem : s.root.IsStem front)
    (hfound : t.FoundBehind s.root front [] names) : s.sidecar? u names = s.sidecar? t names := by
  simp only [sidecar?, Option.bind_eq_bind]
  refine Option.bind_congr fun path hpath => ?_
  rw [leadsSomewhere_of_described? hover hstem hfound hpath]

/-! ### What is read -/

/-- A side-car that is read has a spot, and a file there or behind a link there. -/
theorem leadsToSpot_of_sidecar? (hstem : s.root.IsStem front)
    (hfound : t.FoundBehind s.root front [] names) {sidecar : Sidecar}
    (hsidecar : s.sidecar? t names = some sidecar) {text : String}
    (hread : t.readText sidecar.file = .ok text) :
    sidecar.file = s.sidecarPath sidecar.described ∧ ∃ folder name,
      t.LeadsToSpot (s.sidecarPath sidecar.described) folder name ∧ t.HoldsFile folder name := by
  obtain ⟨more, rfl, hne, hnames, _⟩ := hfound
  obtain ⟨hdescribed, hfile, _⟩ := sidecar?_eq_some_iff.1 hsidecar
  have hpath := sidecarPath_of_described? hdescribed
  rw [hfile] at hread
  refine ⟨hfile.trans hpath.symm, ?_⟩
  rw [hpath]
  exact FileTree.leadsToSpot_of_readText hstem hnames hne hread

theorem leadsToSpot_of_scan (hfollow : s.followLinks = true) (h : s.scan order t = .ok sources)
    {source : Path × String} (hsource : source ∈ sources) : ∃ folder name,
      t.LeadsToSpot (s.sidecarPath source.1) folder name ∧ t.HoldsFile folder name := by
  obtain ⟨found, unsorted, hfound, hunsorted, rfl⟩ := scan_eq_ok_iff_read.1 h
  obtain ⟨front, hstem⟩ := exists_isStem_of_files hfollow hfound
  obtain ⟨sidecar, hsidecar, hread⟩ := exists_of_forall₂_of_mem (mapM_eq_ok_iff.1 hunsorted)
    (List.mem_mergeSort.1 hsource)
  obtain ⟨names, hnames, hsidecar⟩ := List.mem_filterMap.1 hsidecar
  have hnames := (order.names_perm found).mem_iff.1 hnames
  obtain ⟨hpath, htext⟩ := sidecarRead_eq_ok_iff.1 hread
  rw [hpath]
  exact (leadsToSpot_of_sidecar? hstem (foundBehind_of_files hfollow hstem hfound hnames) hsidecar
    htext).2

/-- Where the side-car of a path stands, or would stand; the top where its path leads to no
folder. -/
def spot (s : Store) (t : FileTree) (path : Path) : Location :=
  match t.spotOf (s.sidecarPath path) with
  | .ok (folder, name) => folder ++ [name]
  | .error _ => []

theorem spot_of_leadsToSpot {path : Path} {folder : Location} {name : String}
    (h : t.LeadsToSpot (s.sidecarPath path) folder name) : s.spot t path = folder ++ [name] := by
  rw [spot, h.spotOf]

/-- Where other texts stand at the spots of all side-cars, these are read in place of those
before. -/
theorem scan_of_overwrites (hfollow : s.followLinks = true) (hover : u.Overwrites t)
    (h : s.scan order t = .ok sources) (text : Path → String)
    (htext : ∀ source ∈ sources, u.at? (s.spot t source.1) = some (.file (.text (text source.1)))) :
    s.scan order u = .ok (sources.map fun source => (source.1, text source.1)) := by
  obtain ⟨found, unsorted, hfound, hunsorted, rfl⟩ := scan_eq_ok_iff_read.1 h
  obtain ⟨front, hstem⟩ := exists_isStem_of_files hfollow hfound
  have hbehind : ∀ names ∈ order.names found, t.FoundBehind s.root front [] names :=
    fun names hnames =>
    foundBehind_of_files hfollow hstem hfound ((order.names_perm found).mem_iff.1 hnames)
  have hsidecars : (order.names found).filterMap (s.sidecar? u)
      = (order.names found).filterMap (s.sidecar? t) :=
    List.filterMap_congr fun names hnames =>
      sidecar?_of_overwrites hover hstem (hbehind names hnames)
  refine scan_eq_ok_iff_read.2 ⟨found, unsorted.map fun source => (source.1, text source.1),
    files_of_overwrites hfollow hover hstem hfound, ?_,
    List.map_mergeSort (s := fun a b : Path × String => a.1.compare b.1 != .gt) fun _ _ _ _ => rfl⟩
  obtain ⟨hlength, hzip⟩ := List.forall₂_iff_zip.1 (mapM_eq_ok_iff.1 hunsorted)
  rw [hsidecars, mapM_eq_ok_iff, List.forall₂_map_right_iff, List.forall₂_iff_zip]
  refine ⟨hlength, fun {sidecar source} hpair => ?_⟩
  obtain ⟨hsidecar, hsource⟩ := List.of_mem_zip hpair
  obtain ⟨names, hnames, hsidecar⟩ := List.mem_filterMap.1 hsidecar
  obtain ⟨hpath, hread⟩ := sidecarRead_eq_ok_iff.1 (hzip hpair)
  obtain ⟨hfile, folder, name, hspot, hholds⟩ :=
    leadsToSpot_of_sidecar? hstem (hbehind names hnames) hsidecar hread
  have hnew := htext source (List.mem_mergeSort.2 hsource)
  rw [hpath, spot_of_leadsToSpot hspot] at hnew
  refine sidecarRead_eq_ok_iff.2 ⟨hpath, ?_⟩
  rw [hfile, hpath]
  exact (hspot.of_overwrites hover hholds).readText hnew

/-! ### What is written -/

/-- Some documents are written to the spots of their paths one after the other, and all of them when
each of the side-cars can be written. -/
theorem writeAll_of_spots {token : String} (htoken : FreshToken t token)
    {refused : Path → Option FileTree.Refusal} {pairs : List (Path × Document)}
    (hspots : ∀ pair ∈ pairs, ∃ folder name,
      t.LeadsToSpot (s.sidecarPath pair.1) folder name ∧ t.HoldsFile folder name)
    (hover : u.Overwrites t) :
    ((s.writeAll token refused u pairs).1 = .ok () ↔
      ∀ pair ∈ pairs, s.hasRoom token pair.1 = true ∧ refused pair.1 = none) ∧
    ((s.writeAll token refused u pairs).1 = .ok () →
      (s.writeAll token refused u pairs).2.Overwrites t ∧
      (s.writeAll token refused u pairs).2.nodes = (pairs.map fun pair =>
        (s.spot t pair.1, Node.file (.text (pair.2.text ++ "\n")))).foldl
          (fun nodes entry => nodes.insert entry.1 entry.2) u.nodes) := by
  induction pairs generalizing u with
  | nil => exact ⟨⟨fun _ _ h => absurd h List.not_mem_nil, fun _ => rfl⟩, fun _ => ⟨hover, rfl⟩⟩
  | cons pair rest ih =>
    obtain ⟨folder, name, hspot, hholds⟩ := hspots pair (List.mem_cons_self ..)
    rw [List.forall_mem_cons]
    rcases write_of_leadsToSpot (hspot.of_overwrites hover hholds) (htoken.of_overwrites hover)
      (refused pair.1) pair.2 with ⟨hroom, hnone, v, hwrite, hrewrites⟩ | ⟨hcannot, e, v, hwrite, _⟩
    · obtain ⟨hok, hnodes⟩ := ih (fun other hother => hspots other (List.mem_cons_of_mem _ hother))
        (hover.of_rewrites hholds hrewrites)
      rw [writeAll_of_ok hwrite]
      refine ⟨hok.trans (and_iff_right ⟨hroom, hnone⟩).symm, fun hall => ?_⟩
      obtain ⟨hlast, hnew⟩ := hnodes hall
      refine ⟨hlast, ?_⟩
      rw [hnew, hrewrites.nodes, List.map_cons, List.foldl_cons, spot_of_leadsToSpot hspot]
    · rw [writeAll_of_error hwrite]
      exact ⟨⟨fun hok => (nomatch hok), fun hall => absurd hall.1 hcannot⟩,
        fun hok => (nomatch hok)⟩

/-- The last entry of a view whose side-car has the spot that the side-car of a path has. -/
def lastWriter (s : Store) (t : FileTree) (view : View) (path : Path) : Option Entry :=
  view.reverse.find? fun other => s.spot t other.path = s.spot t path

theorem exists_lastWriter {view : View} {entry : Entry} (h : entry ∈ view) :
    ∃ last, s.lastWriter t view entry.path = some last := by
  have hsome : (s.lastWriter t view entry.path).isSome = true := by
    rw [lastWriter, List.find?_isSome]
    exact ⟨entry, List.mem_reverse.2 h, decide_eq_true rfl⟩
  exact Option.isSome_iff_exists.1 hsome

theorem lastWriter_self {view : View} {path : Path} {last : Entry}
    (h : s.lastWriter t view path = some last) :
    last ∈ view ∧ s.lastWriter t view last.path = some last := by
  have hspot : s.spot t last.path = s.spot t path := by simpa using List.find?_some h
  refine ⟨List.mem_reverse.1 (List.mem_of_find?_eq_some h), ?_⟩
  rw [lastWriter, hspot]
  exact h

/-- A save that succeeds leaves the documents of the last entries at the spots of all entries. -/
theorem save_of_spots {token : String} (htoken : FreshToken t token)
    {refused : Path → Option FileTree.Refusal} {c : Catalog} {view : View}
    (hspots : ∀ entry ∈ view, ∃ folder name,
      t.LeadsToSpot (s.sidecarPath entry.path) folder name ∧ t.HoldsFile folder name) :
    ((s.save token refused t c view).1 = .ok () ↔
      ∀ entry ∈ view, s.hasRoom token entry.path = true ∧ refused entry.path = none) ∧
    ((s.save token refused t c view).1 = .ok () → (s.save token refused t c view).2.Overwrites t ∧
      ∀ entry ∈ view, ∀ last, s.lastWriter t view entry.path = some last →
        (s.save token refused t c view).2.at? (s.spot t entry.path)
          = some (.file (.text ((c.document last.slot).text ++ "\n")))) := by
  have hpairs : ∀ pair ∈ c.contents view, ∃ folder name,
      t.LeadsToSpot (s.sidecarPath pair.1) folder name ∧ t.HoldsFile folder name :=
    List.forall_mem_map.2 hspots
  obtain ⟨hok, hnodes⟩ := writeAll_of_spots htoken hpairs (.refl t)
  refine ⟨hok.trans List.forall_mem_map, fun hall => ?_⟩
  obtain ⟨hover, hnew⟩ := hnodes hall
  refine ⟨hover, fun entry hentry last hlast => ?_⟩
  obtain ⟨folder, name, hspot, _⟩ := hspots entry hentry
  have hne : s.spot t entry.path ≠ [] := by
    rw [spot_of_leadsToSpot hspot]
    simp
  rw [save, FileTree.at?, nodeAt?, if_neg hne, hnew, OrderedMap.get?_foldl_insert, Catalog.contents,
    List.map_map, ← List.map_reverse]
  have hlookup := OrderedMap.Entries.lookup_map (fun other : Entry => s.spot t other.path)
    (fun other => Node.file (.text ((c.document other.slot).text ++ "\n"))) view.reverse
    (s.spot t entry.path)
  rw [lastWriter] at hlast
  rw [hlast] at hlookup
  simp only [Function.comp_def, hlookup]
  rfl

/-! ### Loading again -/

theorem isRead_of_load {c : Catalog} {view : View} (h : s.load order t = .ok (c, view)) :
    ∀ d ∈ c.documents, d.IsRead := by
  obtain ⟨_, _, hsources⟩ := load_eq_ok_iff_ofSources.1 h
  exact Catalog.isRead_of_ofSources hsources

theorem isRead_of_metadata {c : Catalog} {view : View} (h : s.load order t = .ok (c, view))
    {path : Path} {name : String} {values : List Value}
    (hvalues : (c.metadata view path).get? name = some values) : ∀ v ∈ values, v.IsRead := by
  rw [Catalog.metadata, Catalog.find?] at hvalues
  cases hentry : view.entry? path with
  | none =>
    rw [hentry] at hvalues
    cases hvalues
  | some entry =>
    rw [hentry] at hvalues
    obtain ⟨_, _, hsources⟩ := load_eq_ok_iff_ofSources.1 h
    have hslot := (Catalog.sound_of_ofSources hsources).2 entry (List.mem_of_find?_eq_some hentry)
    exact isRead_of_load h _ (Catalog.document_mem hslot) (name, values)
      (OrderedMap.mem_entries_iff.2 hvalues)

/-- A tree in which the side-car of each path holds the text of a document is loaded into these
documents, when some registry records them all. -/
theorem load_of_scan_text {document : Path → Document} {r : Registry}
    (hscan : ∀ order, s.scan order t
      = .ok (sources.map fun source => (source.1, (document source.1).text ++ "\n")))
    (hread : ∀ source ∈ sources,
      Document.ofText ((document source.1).text ++ "\n") = .ok (document source.1))
    (hrecorded : ∀ source ∈ sources, r.RecordsAll (document source.1)) :
    ∃ c, (∀ order, s.load order t = .ok (c, Catalog.entriesFrom 0 (sources.map fun source =>
      (source.1, document source.1)))) ∧ c.documents = sources.map fun source =>
        document source.1 := by
  have hrecords : ∀ entry ∈ sources.map fun source => (source.1, document source.1),
      r.RecordsAll entry.2 := List.forall_mem_map.2 hrecorded
  obtain ⟨registry, hregistry⟩ := Registry.ofEntries_eq_ok_of_recordsAll hrecords
  refine ⟨⟨sources.map fun source => document source.1, registry⟩, fun order => ?_, rfl⟩
  refine load_eq_ok_iff_ofSources.2 ⟨_, hscan order,
    bind_eq_ok_iff.2 ⟨_, Catalog.readSources_eq_ok_iff.2 ?_,
    Catalog.build_eq_ok_iff.2 ⟨hregistry, ?_, rfl⟩⟩⟩
  · rw [List.forall₂_map_left_iff, List.forall₂_map_right_iff, List.forall₂_same]
    exact fun source hsource => ⟨rfl, hread source hsource⟩
  · rw [List.map_map]
    rfl

/-- A catalog with a view of the side-cars that a store finds in a tree, in whatever order its
folders are listed: each has a spot, and documents that can be stored. -/
structure Indexes (s : Store) (t : FileTree) (sources : List (Path × String)) (c : Catalog)
    (view : View) : Prop where
  scan : ∀ order, s.scan order t = .ok sources
  entries : ∀ document : Path → Document,
    view = Catalog.entriesFrom 0 (sources.map fun source => (source.1, document source.1))
  sound : c.Sound
  slots : ∀ entry ∈ view, entry.slot < c.documents.length
  spots : ∀ entry ∈ view, ∃ folder name,
    t.LeadsToSpot (s.sidecarPath entry.path) folder name ∧ t.HoldsFile folder name

variable {c c' : Catalog} {view : View}

theorem indexes_of_load (hfollow : s.followLinks = true) (h : s.load order t = .ok (c, view))
    (hdistinct : view.Pairwise fun a b => a.path.same b.path = false) :
    ∃ sources, s.Indexes t sources c view := by
  obtain ⟨sources, hscan, hsources, hpaths⟩ := exists_sources_of_load h
  obtain ⟨hsound, hslots⟩ := Catalog.sound_of_ofSources hsources
  obtain ⟨entries, hentries, hbuild⟩ := bind_eq_ok_iff.1 hsources
  obtain ⟨_, _, hview⟩ := Catalog.build_eq_ok_iff.1 hbuild
  have hall : (sources.map Prod.fst).Pairwise fun p q => p.same q = false := by
    rw [← hpaths, List.pairwise_map]
    exact hdistinct
  refine ⟨sources, scan_of_other_order hscan (List.pairwise_map.1 hall), fun document => ?_, hsound,
    hslots, fun entry hentry => ?_⟩
  · rw [hview]
    apply Catalog.entriesFrom_congr
    rw [← Catalog.map_path_entriesFrom 0, ← hview, hpaths, List.map_map]
    rfl
  · have hpath : entry.path ∈ sources.map Prod.fst := hpaths ▸ List.mem_map_of_mem hentry
    obtain ⟨source, hsource, heq⟩ := List.mem_map.1 hpath
    rw [← heq]
    exact leadsToSpot_of_scan hfollow hscan hsource

theorem Indexes.of_setAttribute (h : s.Indexes t sources c view) {path : Path} {name : String}
    {values : List Value} (hset : c.setAttribute view path name values = .ok c') :
    s.Indexes t sources c' view := by
  obtain ⟨hsound, _, hlength⟩ := Catalog.sound_of_setAttribute h.sound hset
  refine ⟨h.scan, h.entries, hsound, ?_, h.spots⟩
  rw [hlength]
  exact h.slots

/-- Entries of a view have documents of their own, so an attribute is set in one of them only. -/
theorem Indexes.document_of_setAttribute (h : s.Indexes t sources c view) {path : Path}
    {name : String} {values : List Value} (hset : c.setAttribute view path name values = .ok c')
    {edited entry : Entry} (hedited : view.entry? path = some edited) (hentry : entry ∈ view) :
    c'.document entry.slot =
      if entry = edited then (c.document edited.slot).set name values
        else c.document entry.slot := by
  obtain ⟨found, hfound, _, _, rfl⟩ := Catalog.setAttribute_eq_ok_iff.1 hset
  cases hfound.symm.trans hedited
  have hmem := List.mem_of_find?_eq_some hedited
  by_cases heq : entry = edited
  · rw [if_pos heq, heq]
    exact Catalog.document_setAt (h.slots edited hmem) ..
  · rw [if_neg heq]
    refine Catalog.document_setAt_of_ne _ (fun hslot => heq ?_) ..
    rw [h.entries fun _ => .empty] at hentry hmem
    exact Catalog.eq_of_slot_eq hentry hmem hslot

theorem Indexes.get?_of_setAttribute (h : s.Indexes t sources c view) {path : Path} {name : String}
    {values : List Value} (hset : c.setAttribute view path name values = .ok c')
    {edited entry : Entry} (hedited : view.entry? path = some edited) (hentry : entry ∈ view) :
    (c'.document entry.slot).get? name = some values ↔
      entry = edited ∨ (c.document entry.slot).get? name = some values := by
  rw [h.document_of_setAttribute hset hedited hentry]
  by_cases heq : entry = edited
  · rw [if_pos heq, Document.get?_set, if_pos rfl]
    exact iff_of_true rfl (.inl heq)
  · rw [if_neg heq]
    exact (or_iff_right heq).symm

/-- Each entry of a view has in a loaded catalog the document that the last entry with the spot of
its side-car has in the saved one. -/
def HasLast (s : Store) (t : FileTree) (view : View) (saved loaded : Catalog) : Prop :=
  ∀ entry ∈ view, ∃ last, s.lastWriter t view entry.path = some last ∧
    loaded.document entry.slot = saved.document last.slot

theorem HasLast.document {saved loaded : Catalog} (h : s.HasLast t view saved loaded)
    {entry last : Entry} (hentry : entry ∈ view)
    (hlast : s.lastWriter t view entry.path = some last) :
    loaded.document entry.slot = saved.document last.slot := by
  obtain ⟨writer, hwriter, hdocument⟩ := h entry hentry
  cases hlast.symm.trans hwriter
  exact hdocument

/-- The document of the last entry whose side-car has the spot of a path. -/
def lastDocument (s : Store) (t : FileTree) (c : Catalog) (view : View) (path : Path) : Document :=
  match s.lastWriter t view path with
  | some last => c.document last.slot
  | none => .empty

theorem Indexes.exists_entry (h : s.Indexes t sources c view) {source : Path × String}
    (hsource : source ∈ sources) : ∃ entry ∈ view, entry.path = source.1 := by
  apply List.mem_map.1
  rw [h.entries fun _ => .empty, Catalog.map_path_entriesFrom, List.map_map]
  exact List.mem_map_of_mem hsource

theorem Indexes.getElem?_slot (h : s.Indexes t sources c view) {entry : Entry}
    (hentry : entry ∈ view) : ∃ source, sources[entry.slot]? = some source ∧
    source.1 = entry.path := by
  rw [h.entries fun _ => .empty] at hentry
  obtain ⟨i, hslot, hpath⟩ := Catalog.getElem?_of_mem_entriesFrom hentry
  rw [Nat.zero_add] at hslot
  rw [List.map_map, List.getElem?_map] at hpath
  rw [hslot]
  exact Option.map_eq_some_iff.1 hpath

theorem Indexes.lastDocument_eq (h : s.Indexes t sources c view) {source : Path × String}
    (hsource : source ∈ sources) : ∃ last ∈ view, s.lastWriter t view source.1 = some last ∧
      s.lastDocument t c view source.1 = c.document last.slot := by
  obtain ⟨entry, hentry, hpath⟩ := h.exists_entry hsource
  obtain ⟨last, hlast⟩ := exists_lastWriter (s := s) (t := t) hentry
  rw [hpath] at hlast
  refine ⟨last, (lastWriter_self hlast).1, hlast, ?_⟩
  rw [lastDocument, hlast]

/-- After a save that succeeds, the tree is loaded into the same view, and each entry has the
document of the last one that has the same spot, when all these documents can be read again. -/
theorem Indexes.load_of_save (h : s.Indexes t sources c view) (hfollow : s.followLinks = true)
    {token : String} (htoken : FreshToken t token) {refused : Path → Option FileTree.Refusal} :
    ((s.save token refused t c view).1 = .ok () ↔
      ∀ entry ∈ view, s.hasRoom token entry.path = true ∧ refused entry.path = none) ∧
    ((s.save token refused t c view).1 = .ok () →
      (∀ path last, s.lastWriter t view path = some last → (c.document last.slot).IsRead) →
      ∃ loaded, (∀ order, s.load order (s.save token refused t c view).2 = .ok (loaded, view)) ∧
        s.HasLast t view c loaded) := by
  obtain ⟨hok, hfiles⟩ := save_of_spots (c := c) htoken h.spots
  refine ⟨hok, fun hall hread => ?_⟩
  obtain ⟨hover, htext⟩ := hfiles hall
  have hscan := fun order => scan_of_overwrites hfollow hover (h.scan order)
    (fun path => (s.lastDocument t c view path).text ++ "\n") (fun source hsource => by
      obtain ⟨entry, hentry, hpath⟩ := h.exists_entry hsource
      obtain ⟨last, _, hlast, heq⟩ := h.lastDocument_eq hsource
      rw [heq, ← hpath]
      exact htext entry hentry last (hpath ▸ hlast))
  have hdocument : ∀ source ∈ sources, s.lastDocument t c view source.1 ∈ c.documents ∧
      (s.lastDocument t c view source.1).IsRead := by
    intro source hsource
    obtain ⟨last, hmem, hlast, heq⟩ := h.lastDocument_eq hsource
    rw [heq]
    exact ⟨Catalog.document_mem (h.slots last hmem), hread _ _ hlast⟩
  obtain ⟨loaded, hload, hdocuments⟩ := load_of_scan_text (r := c.registry) hscan
    (fun source hsource =>
    Document.ofText_text_append (h.sound.storable _ (hdocument source hsource).1)
      (hdocument source hsource).2 fun _ => Document.isSpace_lineEnd)
    (fun source hsource => h.sound.recorded _ (hdocument source hsource).1)
  rw [← h.entries] at hload
  refine ⟨loaded, hload, fun entry hentry => ?_⟩
  obtain ⟨source, hsource, hpath⟩ := h.getElem?_slot hentry
  obtain ⟨last, _, hlast, heq⟩ := h.lastDocument_eq (List.mem_of_getElem? hsource)
  rw [← hpath]
  refine ⟨last, hlast, ?_⟩
  rw [← heq]
  apply Catalog.document_of_getElem?
  rw [hdocuments, List.getElem?_map, hsource]
  rfl

/-- Where the edited entry is the last one with its spot, only new values that can be read again are
loaded; where it is not, they are not even in the tree. -/
theorem Indexes.load_of_set_save (h : s.Indexes t sources c view) (hfollow : s.followLinks = true)
    (hread : ∀ d ∈ c.documents, d.IsRead) {path : Path} {name : String} {values : List Value}
    (hset : c.setAttribute view path name values = .ok c') {token : String}
    (htoken : FreshToken t token) {refused : Path → Option FileTree.Refusal}
    (hall : (s.save token refused t c' view).1 = .ok ()) {edited last : Entry}
    (hedited : view.entry? path = some edited) (hlast : s.lastWriter t view edited.path = some last)
    (hvalues : last = edited → ∀ v ∈ values, v.IsRead) :
    ∃ loaded, (∀ order, s.load order (s.save token refused t c' view).2 = .ok (loaded, view)) ∧
      s.HasLast t view c' loaded := by
  have hold : ∀ entry ∈ view, (c.document entry.slot).IsRead := fun entry hentry =>
    hread _ (Catalog.document_mem (h.slots entry hentry))
  refine ((h.of_setAttribute hset).load_of_save hfollow htoken).2 hall
    fun other writer hwriter => ?_
  obtain ⟨hmem, hself⟩ := lastWriter_self hwriter
  rw [h.document_of_setAttribute hset hedited hmem]
  by_cases heq : writer = edited
  · rw [if_pos heq]
    rw [heq] at hself
    cases hlast.symm.trans hself
    exact Document.isRead_set (hold _ (List.mem_of_find?_eq_some hedited)) (hvalues rfl)
  · rw [if_neg heq]
    exact hold writer hmem

/-- With links followed, an attribute is set in a loaded index and all of it is saved. The save
succeeds when there is room for a temporary file beside each side-car and the system refuses
nothing. Then, in whatever order folders are listed, the new values are loaded again under their
path exactly when its entry is the last one whose side-car has the same spot and all timestamps can
be read, or when the document of the last one had the same values before. Unless the last one is to
hold timestamps that cannot be read, the tree is loaded into the same view, and each entry has the
document of the last one with the same spot. -/
theorem load_of_linked_save (s : Store) (hfollow : s.followLinks = true) {order : WalkOrder}
    {t : FileTree} {c c' : Catalog} {view : View} (hload : s.load order t = .ok (c, view))
    (hpaths : view.Pairwise fun a b => a.path.same b.path = false) {path : Path} {name : String}
    {values : List Value} (hset : c.setAttribute view path name values = .ok c') {token : String}
    (htoken : FreshToken t token) (refused : Path → Option FileTree.Refusal) :
    ((s.save token refused t c' view).1 = .ok () ↔
      ∀ entry ∈ view, s.hasRoom token entry.path = true ∧ refused entry.path = none) ∧
    ((s.save token refused t c' view).1 = .ok () → ∃ edited last,
      view.entry? path = some edited ∧ s.lastWriter t view edited.path = some last ∧
      (∀ other, (∃ loaded found, s.load other (s.save token refused t c' view).2
        = .ok (loaded, found) ∧
          (loaded.metadata found path).get? name = some values) ↔
        (last = edited ∧ ∀ time, .timestamp time ∈ values → time.IsPlain) ∨
          (c.document last.slot).get? name = some values) ∧
      ((last = edited → ∀ time, .timestamp time ∈ values → time.IsPlain) →
        ∃ loaded, (∀ other, s.load other (s.save token refused t c' view).2 = .ok (loaded, view)) ∧
          s.HasLast t view c' loaded)) := by
  obtain ⟨sources, hindexes⟩ := indexes_of_load hfollow hload hpaths
  refine ⟨((hindexes.of_setAttribute hset).load_of_save hfollow htoken).1, fun hall => ?_⟩
  obtain ⟨edited, hedited, _⟩ := Catalog.setAttribute_eq_ok_iff.1 hset
  have hmem := List.mem_of_find?_eq_some hedited
  obtain ⟨last, hlast⟩ := exists_lastWriter (s := s) (t := t) hmem
  obtain ⟨hlastMem, _⟩ := lastWriter_self hlast
  have hreloads :=
    hindexes.load_of_set_save hfollow (isRead_of_load hload) hset htoken hall hedited hlast
  have hkept : ∀ loaded, s.HasLast t view c' loaded →
      ((loaded.metadata view path).get? name = some values ↔
        last = edited ∨ (c.document last.slot).get? name = some values) := by
    intro loaded hdocuments
    rw [Catalog.metadata, Catalog.find?, hedited, Option.map_some, Option.getD_some,
      hdocuments.document hmem hlast]
    exact hindexes.get?_of_setAttribute hset hedited hlastMem
  simp only [← Value.forall_isRead_iff]
  refine ⟨edited, last, hedited, hlast, fun other => Iff.intro ?_ ?_, hreloads⟩
  · intro h
    obtain ⟨loaded, found, hloaded, hvalues⟩ := h
    have hnew := isRead_of_metadata hloaded hvalues
    obtain ⟨reloaded, hreloaded, hdocuments⟩ := hreloads fun _ => hnew
    cases hloaded.symm.trans (hreloaded other)
    exact ((hkept _ hdocuments).1 hvalues).imp_left fun heq => ⟨heq, hnew⟩
  · intro h
    have hnew : ∀ v ∈ values, v.IsRead := by
      rcases h with ⟨_, hnew⟩ | hold
      · exact hnew
      · exact isRead_of_load hload _ (Catalog.document_mem (hindexes.slots last hlastMem))
          (name, values)
          (OrderedMap.mem_entries_iff.2 hold)
    obtain ⟨loaded, hloaded, hdocuments⟩ := hreloads fun _ => hnew
    exact ⟨loaded, view, hloaded other, (hkept _ hdocuments).2 (h.imp_left And.left)⟩

/-! ### A folder and a link to it -/

/-- The folder `d` with a file and its side-car, and the link `e` to the folder. -/
def linkedFolder : FileTree :=
  let tree : Except FileFault FileTree := do
    let t ← FileTree.empty.makeFile ⟨"d/x"⟩ (.text "")
    let t ← t.makeFile ⟨"d/x.mdf"⟩ (.text "\x7b\"k\": [\"a\"]\x7d")
    t.make ⟨"e"⟩ (.link ⟨"d"⟩)
  tree.toOption.getD .empty

def following : Store := { here with followLinks := true }

def linkedView : View := [⟨⟨"d/x"⟩, 0⟩, ⟨⟨"e/x"⟩, 1⟩]

def linkedCatalog (first second : String) : Catalog :=
  ⟨[.ofList [("k", [.text first])], .ofList [("k", [.text second])]], ⟨.ofList [("k", some .text)]⟩⟩

theorem distinct_linkedView : linkedView.Pairwise fun a b => a.path.same b.path = false := by
  decide +kernel

/-- The one side-car is found under both paths, each time with the same text. -/
theorem load_linked {t : FileTree} (text : String) {value : String}
    (hfiles : following.files t
      = [["d", "x"], ["d", "x.mdf"], ["e", "x"], ["e", "x.mdf"]].map .ok)
    (hread : ([["d", "x"], ["d", "x.mdf"], ["e", "x"], ["e", "x.mdf"]].filterMap
      (following.sidecar? t)).mapM (Sidecar.read t) = .ok [(⟨"d/x"⟩, text), (⟨"e/x"⟩, text)])
    (hsources : Catalog.ofSources [(⟨"d/x"⟩, text), (⟨"e/x"⟩, text)]
      = .ok (linkedCatalog value value, linkedView)) (order : WalkOrder) :
    following.load order t = .ok (linkedCatalog value value, linkedView) := by
  have horder : ((Path.mk "d/x").compare ⟨"e/x"⟩ != .gt) = true := by decide +kernel
  have hsorted : [(Path.mk "d/x", text), (⟨"e/x"⟩, text)].mergeSort
      (fun a b => a.1.compare b.1 != .gt) = [(⟨"d/x"⟩, text), (⟨"e/x"⟩, text)] :=
    List.mergeSort_of_pairwise (List.pairwise_pair.2 horder)
  have hscan : following.scan .byName t = .ok [(⟨"d/x"⟩, text), (⟨"e/x"⟩, text)] :=
    scan_eq_ok_iff_read.2 ⟨_, _, hfiles, hread, hsorted.symm⟩
  have hsame : (Path.mk "d/x").same ⟨"e/x"⟩ = false := by decide +kernel
  have hdifferent : [(Path.mk "d/x", text), (⟨"e/x"⟩, text)].Pairwise fun a b =>
      a.1.same b.1 = false :=
    List.pairwise_pair.2 hsame
  exact load_eq_ok_iff_ofSources.2 ⟨_, scan_of_other_order hscan hdifferent order, hsources⟩

theorem load_linkedFolder (order : WalkOrder) :
    following.load order linkedFolder = .ok (linkedCatalog "a" "a", linkedView) :=
  load_linked "\x7b\"k\": [\"a\"]\x7d" (by decide +kernel) (by decide +kernel)
    (by decide +kernel) order

/-- What is set under the path through the link is found again under both paths. -/
theorem set_kept_behind_link :
    following.load .byName linkedFolder = .ok (linkedCatalog "a" "a", linkedView) ∧
    (linkedView.Pairwise fun a b => a.path.same b.path = false) ∧
    (linkedCatalog "a" "a").setAttribute linkedView ⟨"e/x"⟩ "k" [.text "b"]
      = .ok (linkedCatalog "a" "b") ∧
    ∃ loaded, (∀ other, following.load other
        (following.save "f00d" (fun _ => none) linkedFolder (linkedCatalog "a" "b") linkedView).2
          = .ok (loaded, linkedView)) ∧
      (loaded.metadata linkedView ⟨"e/x"⟩).get? "k" = some [.text "b"] ∧
      loaded.document 0 = .ofList [("k", [.text "b"])] := by
  have hset : (linkedCatalog "a" "a").setAttribute linkedView ⟨"e/x"⟩ "k" [.text "b"]
      = .ok (linkedCatalog "a" "b") := by decide +kernel
  obtain ⟨hok, hsaved⟩ :=
    load_of_linked_save following rfl (load_linkedFolder .byName) distinct_linkedView
    hset (show FreshToken linkedFolder "f00d" by decide +kernel) fun _ => none
  obtain ⟨edited, last, hedited, hlast, hkept, hloads⟩ := hsaved (hok.2 (by decide +kernel))
  have hentry : linkedView.entry? ⟨"e/x"⟩ = some ⟨⟨"e/x"⟩, 1⟩ := by decide +kernel
  have hsecond : ∀ path ∈ [Path.mk "d/x", ⟨"e/x"⟩],
      following.lastWriter linkedFolder linkedView path = some ⟨⟨"e/x"⟩, 1⟩ := by decide +kernel
  cases hedited.symm.trans hentry
  cases hlast.symm.trans (hsecond ⟨"e/x"⟩ (by simp))
  obtain ⟨loaded, hloaded, hdocuments⟩ := hloads fun _ _ htime => by simp at htime
  obtain ⟨reloaded, found, hreloaded, hvalues⟩ :=
    (hkept .byName).2 (.inl ⟨rfl, fun _ htime => by simp at htime⟩)
  cases (hloaded .byName).symm.trans hreloaded
  refine ⟨load_linkedFolder .byName, distinct_linkedView, hset, loaded, hloaded, hvalues, ?_⟩
  exact hdocuments.document (List.mem_cons_self ..) (hsecond ⟨"d/x"⟩ (by simp))

/-- What is set under the other path is lost, in whatever order folders are listed, as the document
behind the link is written after it. -/
theorem set_lost_before_link :
    (∀ order, following.load order linkedFolder = .ok (linkedCatalog "a" "a", linkedView)) ∧
    (linkedView.Pairwise fun a b => a.path.same b.path = false) ∧
    (linkedCatalog "a" "a").setAttribute linkedView ⟨"d/x"⟩ "k" [.text "b"]
      = .ok (linkedCatalog "b" "a") ∧
    (following.save "f00d" (fun _ => none) linkedFolder (linkedCatalog "b" "a") linkedView).1
      = .ok () ∧
    (∀ order, following.load order
      (following.save "f00d" (fun _ => none) linkedFolder (linkedCatalog "b" "a") linkedView).2
        = .ok (linkedCatalog "a" "a", linkedView)) ∧
    ((linkedCatalog "a" "a").metadata linkedView ⟨"d/x"⟩).get? "k" ≠ some [.text "b"] := by
  refine ⟨load_linkedFolder, distinct_linkedView, by decide +kernel, by decide +kernel, ?_,
    by decide +kernel⟩
  exact load_linked (((linkedCatalog "a" "a").document 1).text ++ "\n") (by decide +kernel)
    (by decide +kernel) (by decide +kernel)

end Store

end SidecarIndex

import SidecarIndex.Proofs.Store.Check
import SidecarIndex.Proofs.Store.Note

/-! # What a scan finds

A scan goes through every folder below the root by the whole path of the folder, and reads each
side-car of something that is there by its whole path. When these paths are short enough to be
followed it finds every such side-car once, and it looks at the contents of no other file. -/

namespace SidecarIndex

namespace FileTree

variable {t : FileTree}

theorem stepsOf_eq_ok_iff {path : Path} : stepsOf path = .ok path.walk ↔
    path.text ≠ "" ∧ '\x00' ∉ path.text.toList ∧ path.text.utf8ByteSize ≤ pathLimit := by
  unfold stepsOf
  by_cases hempty : path.text = ""
  · simp [hempty]
  · by_cases hzero : '\x00' ∈ path.text.toList
    · simp [hempty, hzero]
    · by_cases hlong : pathLimit < path.text.utf8ByteSize
      · simp [hempty, hzero, hlong]
      · simp [hempty, hzero, hlong, Nat.le_of_not_lt hlong]

end FileTree

namespace Path

variable {root : Path} {names : List String}

theorem mem_intercalate_iff {c : Char} (hc : c ≠ '/') {pieces : List (List Char)} :
    c ∈ ['/'].intercalate pieces ↔ ∃ piece ∈ pieces, c ∈ piece := by
  induction pieces with
  | nil => simp
  | cons first rest ih =>
    cases rest with
    | nil => simp
    | cons second rest =>
      rw [List.intercalate_cons_cons, List.mem_append, List.mem_append, ih,
        List.exists_mem_cons_iff]
      simp [hc]

theorem mem_text_iff {p : Path} {c : Char} (hc : c ≠ '/') :
    c ∈ p.text.toList ↔ ∃ piece ∈ p.pieces, c ∈ piece := by
  rw [text_of_pieces, mem_intercalate_iff hc]

/-- A path below a root that can be followed can be followed when it is short enough. -/
theorem stepsOf_below_iff (hroot : FileTree.stepsOf root = .ok root.walk)
    (hnames : ∀ name ∈ names, IsFileName name) (hne : names ≠ []) :
    FileTree.stepsOf (root.below names) = .ok (root.below names).walk ↔
      (root.below names).text.utf8ByteSize ≤ FileTree.pathLimit := by
  obtain ⟨hempty, hzero, _⟩ := FileTree.stepsOf_eq_ok_iff.1 hroot
  obtain ⟨front, hstem⟩ := exists_isStem hempty
  have hpieces := hstem.pieces_below hnames hne
  have hbelowEmpty : (root.below names).text ≠ "" := by
    intro heq
    have hlength := congrArg List.length (hpieces.symm.trans (pieces_eq_iff.2 heq))
    have hfront := List.length_pos_iff.2 hstem.ne_nil
    have hmore := List.length_pos_iff.2 hne
    simp only [List.length_append, List.length_map, List.length_singleton] at hlength
    omega
  have hbelowZero : '\x00' ∉ (root.below names).text.toList := by
    rw [mem_text_iff (by decide), hpieces]
    intro h
    obtain ⟨piece, hpiece, hmem⟩ := h
    rcases List.mem_append.1 hpiece with hfront | hname
    · -- The pieces in front are pieces of the root.
      apply hzero
      rw [mem_text_iff (by decide)]
      rcases hstem.pieces_root with hsame | hslash
      · exact ⟨piece, hsame ▸ hfront, hmem⟩
      · exact ⟨piece, hslash ▸ List.mem_append_left _ hfront, hmem⟩
    · obtain ⟨name, hthere, rfl⟩ := List.mem_map.1 hname
      exact (hnames name hthere).2.2.2.2.1 hmem
  rw [FileTree.stepsOf_eq_ok_iff, and_iff_right hbelowEmpty, and_iff_right hbelowZero]

end Path

namespace Store

variable {s : Store} {order : WalkOrder} {t u : FileTree} {base : Location} {names : List String}
  {path : Path} {sources : List (Path × String)}

/-- The path to what some names lead to below the root can be followed as far as its length goes. -/
def Fits (s : Store) (names : List String) : Prop :=
  (s.root.below names).text.utf8ByteSize ≤ FileTree.pathLimit

/-! ### Folders -/

theorem leadsSomewhere_below_iff (hlinks : t.LinkFree) (hroot : t.resolve .node s.root = .ok base)
    (hne : names ≠ []) (hthere : t.at? (base ++ names) ≠ none) :
    t.leadsSomewhere (s.root.below names) = true ↔ s.Fits names := by
  have hsteps := ((FileTree.resolve_eq_ok_iff hlinks).1 hroot).1
  have hfits := Path.stepsOf_below_iff hsteps (FileTree.isFileName_of_at? hthere) hne
  rw [FileTree.leadsSomewhere_iff]
  apply Iff.intro
  · intro h
    obtain ⟨_, hresolve⟩ := h
    exact hfits.1 ((FileTree.resolve_eq_ok_iff hlinks).1 hresolve).1
  · exact fun h => ⟨_, FileTree.resolve_below hlinks hroot hthere hne (hfits.2 h)⟩

/-- The files below the root can be listed when the paths of all folders there can be followed. -/
theorem walks_iff (hlinks : t.LinkFree) (hroot : t.resolve .node s.root = .ok base) :
    s.Walks t base ↔ ∀ names, names ≠ [] → t.at? (base ++ names) = some .folder → s.Fits names := by
  have hfolder : ∀ names, names ≠ [] → t.at? (base ++ names) = some .folder →
      (t.leadsSomewhere (s.root.below names) = true ↔ s.Fits names) := by
    intro names hne hat
    exact leadsSomewhere_below_iff hlinks hroot hne (hat ▸ Option.some_ne_none _)
  apply Iff.intro
  · exact fun h names hne hat => (hfolder names hne hat).1 (h.opens names hne hat)
  · exact fun h => ⟨hroot, fun names hne hat => (hfolder names hne hat).2 (h names hne hat)⟩

theorem walks_of_scan_of_root (hlinks : t.LinkFree) (hroot : t.resolve .node s.root = .ok base)
    (h : s.scan order t = .ok sources) : s.Walks t base := by
  obtain ⟨other, hwalks⟩ := walks_of_scan hlinks h
  cases hroot.symm.trans hwalks.root
  exact hwalks

/-! ### Side-cars -/

theorem readsAt_iff (hlinks : t.LinkFree) (hroot : t.resolve .node s.root = .ok base)
    {place : Place} (h : s.Describes t base place.names place.path) {text : String} :
    s.ReadsAt t base place text ↔
      s.Fits place.names ∧ t.textAt? (base ++ place.names) = some text := by
  have hsteps := ((FileTree.resolve_eq_ok_iff hlinks).1 hroot).1
  have hfits := Path.stepsOf_below_iff hsteps (FileTree.isFileName_of_at? h.there) h.ne_nil
  exact ⟨fun hreads => ⟨hfits.1 hreads.steps, hreads.text⟩,
    fun hreads => ⟨hfits.2 hreads.1, hreads.2⟩⟩

/-! ### Scans -/

theorem exists_scan_iff (hlinks : t.LinkFree) (hroot : t.resolve .node s.root = .ok base)
    (order : WalkOrder) : (∃ sources, s.scan order t = .ok sources) ↔
      (∀ names, names ≠ [] → t.at? (base ++ names) = some .folder → s.Fits names) ∧
      ∀ names path, s.Describes t base names path →
        s.Fits names ∧ ∃ text, t.textAt? (base ++ names) = some text := by
  rw [← walks_iff hlinks hroot]
  apply Iff.intro
  · intro h
    obtain ⟨sources, hscan⟩ := h
    have hwalks := walks_of_scan_of_root hlinks hroot hscan
    refine ⟨hwalks, fun names path hdescribes => ?_⟩
    have hplace : ⟨names, path⟩ ∈ s.places order t base := mem_places_iff.2 hdescribes
    obtain ⟨source, _, _, hreads⟩ := exists_of_forall₂_of_mem
      ((scan_eq_ok_iff hlinks hwalks).1 hscan).flip hplace
    obtain ⟨hfits, htext⟩ := (readsAt_iff hlinks hroot hdescribes).1 hreads
    exact ⟨hfits, source.2, htext⟩
  · intro h
    obtain ⟨hwalks, hread⟩ := h
    have hall : ∀ place ∈ s.places order t base, ∃ source : Path × String,
        source.1 = place.path ∧ s.ReadsAt t base place source.2 := by
      intro place hplace
      have hdescribes := mem_places_iff.1 hplace
      obtain ⟨hfits, text, htext⟩ := hread _ _ hdescribes
      exact ⟨(place.path, text), rfl, (readsAt_iff hlinks hroot hdescribes).2 ⟨hfits, htext⟩⟩
    obtain ⟨sources, hsources⟩ := exists_forall₂ hall
    exact ⟨sources, (scan_eq_ok_iff hlinks hwalks).2 hsources⟩

/-- What a scan gives when files hold other contents is the same as long as the side-cars of what is
there hold the same. -/
theorem scan_iff_of_alike (hlinks : t.LinkFree) (hroot : t.resolve .node s.root = .ok base)
    (halike : t.Alike u) (hsame : ∀ names path, s.Describes t base names path →
      u.at? (base ++ names) = t.at? (base ++ names)) :
    s.scan order u = .ok sources ↔ s.scan order t = .ok sources := by
  have hulinks := halike.linkFree hlinks
  have huroot : u.resolve .node s.root = .ok base := by
    rw [← halike.resolve_eq hlinks]
    exact hroot
  by_cases hwalks : s.Walks t base
  · have hreads : ∀ place ∈ s.places order t base, ∀ text,
        s.ReadsAt u base place text ↔ s.ReadsAt t base place text := by
      intro place hplace text
      have htext : u.textAt? (base ++ place.names) = t.textAt? (base ++ place.names) := by
        rw [FileTree.textAt?, hsame _ _ (mem_places_iff.1 hplace), FileTree.textAt?]
      exact ⟨fun h => ⟨h.steps, htext ▸ h.text⟩, fun h => ⟨h.steps, htext ▸ h.text⟩⟩
    rw [scan_eq_ok_iff hlinks hwalks, scan_eq_ok_iff hulinks (hwalks.of_alike hlinks halike),
      ← places_alike hlinks halike]
    apply Iff.intro
    · intro h
      exact forall₂_imp_of_mem h fun place hplace source hsource =>
        ⟨hsource.1, (hreads place hplace source.2).1 hsource.2⟩
    · intro h
      exact forall₂_imp_of_mem h fun place hplace source hsource =>
        ⟨hsource.1, (hreads place hplace source.2).2 hsource.2⟩
  · apply iff_of_false
    · intro hscan
      exact hwalks ((walks_of_scan_of_root hulinks huroot hscan).of_alike hulinks halike.symm)
    · exact fun hscan => hwalks (walks_of_scan_of_root hlinks hroot hscan)

theorem exists_names_of_scan (hlinks : t.LinkFree) (hroot : t.resolve .node s.root = .ok base)
    (h : s.scan order t = .ok sources) : ∃ found : List (List String), found.Nodup ∧
      (∀ names, names ∈ found ↔ ∃ path, s.Describes t base names path) ∧
      List.Forall₂ (fun names source => s.Describes t base names source.1 ∧
        t.textAt? (base ++ names) = some source.2) found sources := by
  have hwalks := walks_of_scan_of_root hlinks hroot h
  refine ⟨(s.places order t base).map Place.names, nodup_places s order t base, fun names => ?_, ?_⟩
  · rw [List.mem_map]
    apply Iff.intro
    · intro hnames
      obtain ⟨place, hplace, rfl⟩ := hnames
      exact ⟨place.path, mem_places_iff.1 hplace⟩
    · intro hnames
      obtain ⟨path, hdescribes⟩ := hnames
      exact ⟨⟨names, path⟩, mem_places_iff.2 hdescribes, rfl⟩
  · rw [List.forall₂_map_left_iff]
    refine forall₂_imp_of_mem ((scan_eq_ok_iff hlinks hwalks).1 h)
      fun place hplace source hsource => ?_
    obtain ⟨hpath, hreads⟩ := hsource
    have hdescribes := mem_places_iff.1 hplace
    rw [hpath]
    exact ⟨hdescribes, hreads.text⟩

/-- In a tree without links, where the system refuses nothing for other reasons such as permissions,
a scan succeeds exactly when the paths of all folders below the root and of all side-cars of what is
there are short enough to be followed, and these side-cars are texts. In whatever order folders are
listed, it gives each of these side-cars once, with the path that it describes and its text, in the
order of the paths, and nothing else. What other files hold does not matter to it. -/
theorem scan_finds_sidecars (hlinks : t.LinkFree) (hroot : t.resolve .node s.root = .ok base)
    (order : WalkOrder) :
    ((∃ sources, s.scan order t = .ok sources) ↔
      (∀ names, names ≠ [] → t.at? (base ++ names) = some .folder → s.Fits names) ∧
      ∀ names path, s.Describes t base names path →
        s.Fits names ∧ ∃ text, t.textAt? (base ++ names) = some text) ∧
    (∀ sources, s.scan order t = .ok sources →
      (∃ found : List (List String), found.Nodup ∧
        (∀ names, names ∈ found ↔ ∃ path, s.Describes t base names path) ∧
        List.Forall₂ (fun names source => s.Describes t base names source.1 ∧
          t.textAt? (base ++ names) = some source.2) found sources) ∧
      sources.Pairwise fun a b => a.1.compare b.1 ≠ .gt) ∧
    ∀ u, t.Alike u →
      (∀ names path, s.Describes t base names path →
        u.at? (base ++ names) = t.at? (base ++ names)) →
        ∀ sources, s.scan order u = .ok sources ↔ s.scan order t = .ok sources := by
  refine ⟨exists_scan_iff hlinks hroot order, ?_, ?_⟩
  · intro sources hscan
    exact ⟨exists_names_of_scan hlinks hroot hscan, pairwise_of_scan hscan⟩
  · intro u halike hsame sources
    exact scan_iff_of_alike hlinks hroot halike hsame

/-- A folder with a side-car, a side-car in it, and side-cars of nothing, one of which is no
text. -/
def shelf : FileTree :=
  let tree : Except FileFault FileTree := do
    let t ← FileTree.empty.makeFile ⟨"d/x"⟩ (.text "")
    let t ← t.makeFile ⟨"d/x.mdf"⟩ (.text "[]")
    let t ← t.makeFile ⟨"d.mdf"⟩ (.text "\x7b\x7d")
    let t ← t.makeFile ⟨"d/.mdf"⟩ (.text "")
    t.makeFile ⟨"gone.mdf"⟩ (.bytes [255])
  tree.toOption.getD .empty

/-- The side-car in the folder comes before the one of the folder below the root, but after it in
the order of the paths. -/
theorem scan_shelf :
    let sources : List (Path × String) := [(⟨"d"⟩, "\x7b\x7d"), (⟨"d/x"⟩, "[]")]
    shelf.LinkFree ∧ shelf.resolve .node here.root = .ok [] ∧
      here.scan .byName shelf = .ok sources ∧
      (∀ names path, here.Describes shelf [] names path → here.Fits names) ∧
      ∃ found : List (List String), found.Nodup ∧
        (∀ names, names ∈ found ↔ ∃ path, here.Describes shelf [] names path) ∧
        List.Forall₂ (fun names source => here.Describes shelf [] names source.1 ∧
          shelf.textAt? names = some source.2) found sources := by
  intro sources
  have hlinks : shelf.LinkFree := by decide +kernel
  have hroot : shelf.resolve .node here.root = .ok [] := by decide +kernel
  have hfiles : here.files shelf
      = [["d", ".mdf"], ["d", "x"], ["d", "x.mdf"], ["d.mdf"], ["gone.mdf"]].map .ok := by
    decide +kernel
  have hread : ([["d", ".mdf"], ["d", "x"], ["d", "x.mdf"], ["d.mdf"], ["gone.mdf"]].filterMap
      (here.sidecar? shelf)).mapM (Sidecar.read shelf) = .ok sources.reverse := by decide +kernel
  have hcompare : (Path.mk "d/x").compare ⟨"d"⟩ = .gt := by decide +kernel
  have hsorted : sources = sources.reverse.mergeSort fun a b => a.1.compare b.1 != .gt := by
    simp [sources, List.mergeSort, hcompare]
  have hscan : here.scan .byName shelf = .ok sources :=
    scan_eq_ok_iff_read.2 ⟨_, _, hfiles, hread, hsorted⟩
  obtain ⟨hsucceeds, hfound, _⟩ := scan_finds_sidecars hlinks hroot .byName
  refine ⟨hlinks, hroot, hscan, fun names path hdescribes => ?_, (hfound _ hscan).1⟩
  exact ((hsucceeds.1 ⟨_, hscan⟩).2 names path hdescribes).1

/-! ### Long roots -/

/-- Steps that stay, with slashes between them. -/
def stays : Nat → List Char
  | 0 => ['.']
  | count + 1 => '.' :: '/' :: stays count

def stay (count : Nat) : Path := ⟨String.ofList (stays count)⟩

theorem pieces_stay (count : Nat) : (stay count).pieces = List.replicate (count + 1) ['.'] := by
  rw [Path.pieces, stay, String.toList_ofList]
  induction count with
  | zero => decide
  | succ count ih =>
    have hsplit : stays (count + 1) = ['.'] ++ '/' :: stays count := rfl
    rw [hsplit, List.splitOn_append_cons_self, ih]
    rfl

theorem utf8ByteSize_stay (count : Nat) : (stay count).text.utf8ByteSize = 2 * count + 1 := by
  rw [stay]
  induction count with
  | zero => decide
  | succ count ih =>
    have hdot : ('.').utf8Size = 1 := by decide
    have hslash : ('/').utf8Size = 1 := by decide
    rw [stays, String.ofList_cons, String.ofList_cons, String.utf8ByteSize_append,
      String.utf8ByteSize_append, String.utf8ByteSize_singleton, String.utf8ByteSize_singleton,
      ih, hdot,
      hslash]
    omega

theorem text_stay_ne (count : Nat) : (stay count).text ≠ "" := by
  intro hempty
  have hsize := utf8ByteSize_stay count
  rw [hempty, String.utf8ByteSize_empty] at hsize
  omega

theorem endsInSlash_stay (count : Nat) : (stay count).endsInSlash = false := by
  rw [Path.endsInSlash, stay, String.toList_ofList, beq_eq_false_iff_ne]
  have hlast : (stays count).getLast? = some '.' := by
    induction count with
    | zero => rfl
    | succ count ih =>
      cases count with
      | zero => rfl
      | succ count =>
          rw [stays, stays, List.getLast?_cons_cons, List.getLast?_cons_cons, ← stays, ih]
  rw [hlast]
  decide

theorem resolve_stay (hlinks : t.LinkFree) (hfolder : t.at? t.workingFolder = some .folder)
    {count : Nat} (hcount : 2 * count + 1 ≤ FileTree.pathLimit) :
    t.resolve .node (stay count) = .ok t.workingFolder := by
  have hzero : '\x00' ∉ (stay count).text.toList := by
    rw [Path.mem_text_iff (by decide), pieces_stay]
    simp
  have hwalk : (stay count).walk = List.replicate (count + 1) .current := by
    have hstep : Path.stepOf ['.'] = .current := by decide
    rw [Path.walk_eq_stepsAlong (text_stay_ne count), pieces_stay, List.replicate_succ,
      Path.stepsAlong, List.map_cons, List.map_replicate, hstep, ← List.replicate_succ]
    intro _ heq
    cases heq
  refine (FileTree.resolve_eq_ok_iff hlinks).2
    ⟨FileTree.stepsOf_eq_ok_iff.2 ⟨text_stay_ne count, hzero, ?_⟩, ?_⟩
  · exact (utf8ByteSize_stay count).trans_le hcount
  · rw [hwalk]
    exact FileTree.walk_eq_ok_iff.2 ⟨0, Nat.le_refl _, FileTree.way_replicate_current hfolder _⟩

theorem isFileName_hall : IsFileName "hall" := by decide

/-- A folder with nothing in it. -/
def hall : FileTree := FileTree.empty.put [] "hall" .folder (FileTree.canPut_empty isFileName_hall)

theorem at?_hall {location : Location} {node : Node} (h : hall.at? location = some node) :
    node = .folder := by
  rw [hall, FileTree.at?_put, FileTree.at?, nodeAt?] at h
  split at h
  · exact (Option.some.inj h).symm
  · split at h
    · exact (Option.some.inj h).symm
    · cases h

/-- There is no side-car that could not be read, but the root is spelled at such a length that the
path of the folder below it cannot be followed. -/
theorem scan_fails_below_long_root :
    let s : Store := { here with root := stay 2046 }
    hall.LinkFree ∧ hall.resolve .node s.root = .ok [] ∧
      (∀ names path, s.Describes hall [] names path →
      ∃ text, hall.textAt? ([] ++ names) = some text) ∧
      ∀ order, ¬ ∃ sources, s.scan order hall = .ok sources := by
  intro s
  have hlinks : hall.LinkFree := by decide +kernel
  have hroot : hall.resolve .node s.root = .ok [] := resolve_stay hlinks hall.at?_top (by decide)
  refine ⟨hlinks, hroot, ?_, ?_⟩
  · intro names path hdescribes
    obtain ⟨content, hfile⟩ := hdescribes.isFile
    cases at?_hall hfile
  · intro order hscan
    have hfolder : hall.at? ([] ++ ["hall"]) = some .folder := by decide +kernel
    have hfits := ((exists_scan_iff hlinks hroot order).1 hscan).1 ["hall"]
      (List.cons_ne_nil _ _) hfolder
    have habsolute : Path.isAbsolute ⟨"hall"⟩ = false := by decide +kernel
    have hbelow : s.root.below ["hall"] = ⟨(stay 2046).text ++ "/" ++ "hall"⟩ := by
      rw [Path.below, String.intercalate_singleton, Path.join, habsolute,
        if_neg (by simpa [s] using text_stay_ne 2046), if_neg (by simp [s, endsInSlash_stay])]
    have hslash : "/".utf8ByteSize = 1 := by decide
    have hname : "hall".utf8ByteSize = 4 := by decide
    rw [Fits, hbelow, String.utf8ByteSize_append, String.utf8ByteSize_append, utf8ByteSize_stay,
      hslash, hname, FileTree.pathLimit] at hfits
    omega

end Store

end SidecarIndex

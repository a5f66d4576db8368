import SidecarIndex.Proofs.FileTree.Overwrite

/-! # Finding files behind links

A file below a root is found by the names that lead to it, where links to folders may stand on the
way. All folders on the way are looked through, with what their links lead to. The same files are
found once files stand in the place of links to files. -/

namespace SidecarIndex.FileTree

variable {t u : FileTree} {root : Path} {front : List (List Char)}
  {location place folder : Location} {names below : List String} {ways : List (Location × Location)}

/-! ### Names that lead from a root -/

theorem way_names (h : t.at? (location ++ names) = some .folder) :
    t.Way .node 0 location (names.map .named) (location ++ names) := by
  induction names generalizing location with
  | nil =>
    rw [List.append_nil]
    exact .done location
  | cons name rest ih =>
    have hsplit : location ++ name :: rest = (location ++ [name]) ++ rest := by simp
    rw [hsplit] at h ⊢
    have hnext : t.at? (location ++ [name]) = some .folder := by
      cases rest with
      | nil => rwa [List.append_nil] at h
      | cons second others =>
        refine at?_above (List.cons_ne_nil second others) ?_
        rw [h]
        exact Option.some_ne_none _
    obtain ⟨hname, hfolder⟩ : IsFileName name ∧ t.at? location = some .folder := by
      refine t.closed location name ?_
      show t.at? (location ++ [name]) ≠ none
      rw [hnext]
      exact Option.some_ne_none _
    exact .step (.named hfolder hname hnext fun _ heq => nomatch heq) (ih h)

/-- Some names lead to a place from the root that some pieces lead to. -/
def Reaches (t : FileTree) (front : List (List Char)) (names : List String) (place : Location) :
    Prop :=
  ∃ links ≤ linkLimit,
    t.Way .node links t.workingFolder (Path.stepsAlong front ++ names.map .named) place

theorem Reaches.append (h : t.Reaches front names location)
    (hfolder : t.at? (location ++ below) = some .folder) :
    t.Reaches front (names ++ below) (location ++ below) := by
  by_cases hnil : below = []
  · rw [hnil, List.append_nil, List.append_nil]
    exact h
  · obtain ⟨links, hlinks, hway⟩ := h
    refine ⟨links, hlinks, ?_⟩
    rw [List.map_append, ← List.append_assoc, way_append_iff (by simpa using hnil)]
    exact ⟨links, 0, location, rfl, hway, way_names hfolder⟩

/-- From the folder that all names but the last lead to, the last one leads on. -/
theorem Reaches.last {name : String} (h : t.Reaches front (names ++ [name]) place)
    (hfolder : t.Reaches front names folder) :
    ∃ links, t.Way .node links folder [.named name] place := by
  obtain ⟨links, _, hway⟩ := h
  obtain ⟨_, _, hother⟩ := hfolder
  rw [List.map_append, ← List.append_assoc, way_append_iff (by simp)] at hway
  obtain ⟨_, second, middle, _, hfirst, hsecond⟩ := hway
  obtain ⟨_, rfl⟩ := hfirst.unique hother
  exact ⟨second, hsecond⟩

theorem reaches_root (hstem : root.IsStem front) (h : t.resolve .node root = .ok place)
    (hfolder : t.at? place = some .folder) : t.Reaches front [] place := by
  obtain ⟨hsteps, links, hlinks, hway⟩ := resolve_eq_ok_iff_way.1 h
  obtain ⟨count, hwalk⟩ := hstem.walk_root (text_ne_of_stepsOf hsteps)
  rw [hwalk, way_append_current_iff hfolder] at hway
  refine ⟨links, hlinks, ?_⟩
  rwa [List.map_nil, List.append_nil]

theorem resolve_below_iff (hstem : root.IsStem front) (hnames : ∀ name ∈ names, IsFileName name)
    (hne : names ≠ []) : t.resolve .node (root.below names) = .ok place ↔
      stepsOf (root.below names) = .ok (root.below names).walk ∧ t.Reaches front names place := by
  rw [resolve_eq_ok_iff_way, hstem.walk_below hnames hne, Reaches]

theorem Reaches.of_overwrites (h : t.Reaches front names folder) (hover : u.Overwrites t)
    (hfolder : t.at? folder = some .folder) : u.Reaches front names folder := by
  obtain ⟨links, hlinks, hway⟩ := h
  have hroot : .root ∉ (Path.stepsAlong front ++ names.map Component.named).tail :=
    not_mem_tail_append (Path.root_not_mem_tail_stepsAlong front) (by simp)
  obtain ⟨fewer, hfewer, other, hother, hsame, _⟩ := hover.way hway hroot
  rw [hsame hfolder] at hother
  refine ⟨fewer, by omega, ?_⟩
  rwa [hover.workingFolder]

/-! ### Names below a location -/

/-- The names of everything below a location. -/
def namesBelow (t : FileTree) (location : Location) : List (List String) :=
  (t.below location).map Prod.fst

theorem mem_namesBelow_iff :
    below ∈ t.namesBelow location ↔ below ≠ [] ∧ t.at? (location ++ below) ≠ none := by
  rw [namesBelow, List.mem_map]
  apply Iff.intro
  · rintro ⟨found, hfound, rfl⟩
    obtain ⟨hne, hnode⟩ := mem_below_iff.1 hfound
    rw [hnode]
    exact ⟨hne, Option.some_ne_none _⟩
  · intro h
    obtain ⟨hne, hthere⟩ := h
    obtain ⟨node, hnode⟩ := Option.ne_none_iff_exists'.1 hthere
    exact ⟨(below, node), mem_below_iff.2 ⟨hne, hnode⟩, rfl⟩

/-- The keys of a tree say what is below a location. -/
theorem namesBelow_eq_of_keys (h : u.nodes.keys = t.nodes.keys) (location : Location) :
    u.namesBelow location = t.namesBelow location := by
  have hkeys : ∀ v : FileTree, v.namesBelow location = v.nodes.keys.filterMap fun key =>
      (namesBelow? location (key, .folder)).map Prod.fst := by
    intro v
    rw [namesBelow, below_eq, List.map_filterMap, OrderedMap.keys, List.filterMap_map]
    refine List.filterMap_congr fun entry _ => ?_
    simp only [Function.comp_apply, namesBelow?]
    split
    · rfl
    · rfl
  rw [hkeys, hkeys, h]

theorem below_eq_map (t : FileTree) (location : Location) : t.below location =
    (t.namesBelow location).map fun names => (names, (t.at? (location ++ names)).getD .folder) := by
  rw [namesBelow, List.map_map]
  refine (List.map_id' _).symm.trans (List.map_congr_left fun found hfound => ?_)
  rw [Function.comp_apply, (mem_below_iff.1 hfound).2, Option.getD_some]

theorem Opens.filesBelow_eq (h : t.Opens root names location) (fuel : Nat)
    (ways : List (Location × Location)) :
    t.filesBelow true root (fuel + 1) ways names location =
      (t.namesBelow location).flatMap fun below =>
        t.foundAt true ((location, location ++ below.dropLast) :: ways)
          (t.filesBelow true root fuel ((location, location ++ below.dropLast) :: ways))
          (root.below (names ++ below)) (names ++ below)
          ((t.at? (location ++ below)).getD .folder) := by
  rw [h.filesBelow, below_eq_map, List.flatMap_map]

theorem filesBelow_of_not_folder (h : t.at? location ≠ some .folder) (followLinks : Bool)
    (root : Path) (fuel : Nat) (ways : List (Location × Location)) (names : List String) :
    t.filesBelow followLinks root (fuel + 1) ways names location = [] := by
  have hnone : t.below location = [] := by
    rw [List.eq_nil_iff_forall_not_mem]
    rintro ⟨below, node⟩ hbelow
    obtain ⟨hne, hnode⟩ := mem_below_iff.1 hbelow
    exact h (at?_above hne (hnode ▸ Option.some_ne_none _))
  rw [filesBelow, hnone]
  rfl

/-! ### What is found at a place -/

/-- What is found by way of what stands at a path, with links followed. -/
inductive FoundAt (t : FileTree) (ways : List (Location × Location))
    (behind : List String → Location → List Met) (path : Path) (names : List String) :
    Node → List (List String) → Prop
  | file (content : Content) : FoundAt t ways behind path names (.file content) [names]
  | folder {place : Location} : t.resolve .node path = .ok place →
      FoundAt t ways behind path names .folder []
  | linkToFile {target : Path} {place : Location} {content : Content} :
      t.resolve .node path = .ok place → t.at? place = some (.file content) →
      FoundAt t ways behind path names (.link target) [names]
  | linkToFolder {target : Path} {place : Location} {found : List (List String)} :
      t.resolve .node path = .ok place → t.at? place = some .folder → onTheWay ways place = false →
      behind names place = found.map .ok → FoundAt t ways behind path names (.link target) found

theorem stands_of_resolve {path : Path} (h : t.resolve .node path = .ok place) :
    t.at? place = some .folder ∨ ∃ content, t.at? place = some (.file content) := by
  obtain ⟨hsteps, _, _, hway⟩ := resolve_eq_ok_iff_way.1 h
  exact hway.stands (Path.walk_ne_nil (text_ne_of_stepsOf hsteps))

theorem foundAt_eq_ok_iff {behind : List String → Location → List Met} {path : Path} {node : Node}
    {found : List (List String)} : t.foundAt true ways behind path names node = found.map .ok ↔
      t.FoundAt ways behind path names node found := by
  apply Iff.intro
  · intro h
    cases node with
    | file content =>
      rw [singleton_ok_eq_map_iff.1 h]
      exact .file content
    | folder =>
      cases hresolve : t.resolve .node path with
      | ok place =>
        simp only [foundAt, hresolve] at h
        cases List.map_eq_nil_iff.1 h.symm
        exact .folder hresolve
      | error fault =>
        simp only [foundAt, hresolve] at h
        exact absurd h singleton_error_ne_map_ok
    | link target =>
      cases hresolve : t.resolve .node path with
      | error fault =>
        simp only [foundAt, if_true, hresolve] at h
        exact absurd h singleton_error_ne_map_ok
      | ok place =>
        rcases stands_of_resolve hresolve with hfolder | ⟨content, hfile⟩
        · simp only [foundAt, if_true, hresolve, hfolder] at h
          split at h
          · exact absurd h singleton_error_ne_map_ok
          · rename_i hway
            exact .linkToFolder hresolve hfolder (by simpa using hway) h
        · simp only [foundAt, if_true, hresolve, hfile] at h
          rw [singleton_ok_eq_map_iff.1 h]
          exact .linkToFile hresolve hfile
  · intro h
    cases h with
    | file content => rfl
    | folder hplace => simp only [foundAt, hplace, List.map_nil]
    | linkToFile hplace hfile =>
      simp only [foundAt, if_true, hplace, hfile]
      rfl
    | linkToFolder hplace hfolder hway hfound =>
      simp only [foundAt, if_true, hplace, hfolder, hway, Bool.false_eq_true, if_false]
      exact hfound

/-! ### Folders on the way to a file -/

/-- Everything below a location has been looked at, and each file was found by way of something
there. -/
theorem foundAt_of_filesBelow {fuel : Nat} {found : List (List String)}
    (h : t.filesBelow true root (fuel + 1) ways names location = found.map .ok) :
    (∀ below node, below ≠ [] → t.at? (location ++ below) = some node →
      ∃ list, t.FoundAt ((location, location ++ below.dropLast) :: ways)
        (t.filesBelow true root fuel ((location, location ++ below.dropLast) :: ways))
        (root.below (names ++ below)) (names ++ below) node list) ∧
    ∀ file ∈ found, ∃ below node list, below ≠ [] ∧ t.at? (location ++ below) = some node ∧
      file ∈ list ∧ t.FoundAt ((location, location ++ below.dropLast) :: ways)
        (t.filesBelow true root fuel ((location, location ++ below.dropLast) :: ways))
        (root.below (names ++ below)) (names ++ below) node list := by
  rw [(opens_of_filesBelow h).filesBelow_eq] at h
  obtain ⟨lists, hall, rfl⟩ := flatMap_eq_map_ok_iff.1 h
  apply And.intro
  · intro below node hne hnode
    have hkey : below ∈ t.namesBelow location := by
      rw [mem_namesBelow_iff, hnode]
      exact ⟨hne, Option.some_ne_none _⟩
    obtain ⟨list, _, hlist⟩ := exists_of_forall₂_of_mem hall.flip hkey
    rw [hnode, Option.getD_some, foundAt_eq_ok_iff] at hlist
    exact ⟨list, hlist⟩
  · intro file hfile
    obtain ⟨list, hlist, hmem⟩ := List.mem_flatten.1 hfile
    obtain ⟨below, hbelow, hfound⟩ := exists_of_forall₂_of_mem hall hlist
    obtain ⟨hne, hthere⟩ := mem_namesBelow_iff.1 hbelow
    obtain ⟨node, hnode⟩ := Option.ne_none_iff_exists'.1 hthere
    rw [hnode, Option.getD_some, foundAt_eq_ok_iff] at hfound
    exact ⟨below, node, list, hne, hnode, hmem, hfound⟩

/-- Some names lead to a folder, and each link in it leads somewhere. -/
def Visited (t : FileTree) (root : Path) (front : List (List Char)) (names : List String) : Prop :=
  ∃ folder, t.Reaches front names folder ∧ t.at? folder = some .folder ∧
    ∀ name target, t.at? (folder ++ [name]) = some (.link target) →
      t.leadsSomewhere (root.below (names ++ [name])) = true

/-- The folders on the way down to a name are visited when everything below has been looked at. -/
theorem visited_of_filesBelow {fuel : Nat} {found : List (List String)} {rest : List String}
    (h : t.filesBelow true root (fuel + 1) ways names location = found.map .ok)
    (hreach : t.Reaches front names location) (hthere : t.at? (location ++ (below ++ rest)) ≠ none)
    (hne : rest ≠ []) : t.Visited root front (names ++ below) := by
  rw [← List.append_assoc] at hthere
  have hfolder := at?_above hne hthere
  refine ⟨location ++ below, hreach.append hfolder, hfolder, fun name target hlink => ?_⟩
  rw [List.append_assoc] at hlink ⊢
  obtain ⟨list, hlist⟩ := (foundAt_of_filesBelow h).1 _ _ (by simp) hlink
  cases hlist with
  | linkToFile hplace => exact leadsSomewhere_iff.2 ⟨_, hplace⟩
  | linkToFolder hplace => exact leadsSomewhere_iff.2 ⟨_, hplace⟩

/-- A file whose names lead on from some names, through folders that have been visited. -/
def FoundBehind (t : FileTree) (root : Path) (front : List (List Char)) (names file : List String) :
    Prop :=
  ∃ more, file = names ++ more ∧ more ≠ [] ∧ (∀ name ∈ more, IsFileName name) ∧
    ∀ pre rest, more = pre ++ rest → rest ≠ [] → t.Visited root front (names ++ pre)

theorem FoundBehind.of_append {file : List String}
    (h : t.FoundBehind root front (names ++ below) file) (hbelow : ∀ name ∈ below, IsFileName name)
    (hvisited : ∀ pre rest, below = pre ++ rest → rest ≠ [] → t.Visited root front (names ++ pre)) :
    t.FoundBehind root front names file := by
  obtain ⟨more, rfl, hne, hmore, hfolders⟩ := h
  refine ⟨below ++ more, List.append_assoc .., by simp [hne], ?_, fun pre rest heq hrest => ?_⟩
  · exact List.forall_mem_append.2 ⟨hbelow, hmore⟩
  · rcases List.append_eq_append_iff.1 heq with ⟨others, rfl, hsplit⟩ | ⟨others, rfl, _⟩
    · rw [← List.append_assoc]
      exact hfolders others rest hsplit hrest
    · by_cases hothers : others = []
      · have hbase := hfolders [] more rfl hne
        rwa [hothers, List.append_nil, List.append_nil] at hbase
      · exact hvisited pre others rfl hothers

theorem foundBehind_of_filesBelow (hstem : root.IsStem front) {fuel : Nat}
    {found : List (List String)} (hnames : ∀ name ∈ names, IsFileName name)
    (hreach : t.at? location = some .folder → t.Reaches front names location)
    (h : t.filesBelow true root fuel ways names location = found.map .ok) {file : List String}
    (hfile : file ∈ found) : t.FoundBehind root front names file := by
  induction fuel generalizing ways names location found file with
  | zero => exact absurd h singleton_error_ne_map_ok
  | succ fuel ih =>
    obtain ⟨below, node, list, hne, hnode, hmem, hlist⟩ := (foundAt_of_filesBelow h).2 file hfile
    have hthere : t.at? (location ++ below) ≠ none := by
      rw [hnode]
      exact Option.some_ne_none _
    have hbelow := isFileName_of_at? hthere
    have hvisited : ∀ pre rest, below = pre ++ rest → rest ≠ [] →
        t.Visited root front (names ++ pre) := by
      intro pre rest heq hrest
      have hlocation := hreach (at?_above hne hthere)
      rw [heq] at hthere
      exact visited_of_filesBelow h hlocation hthere hrest
    have hself : t.FoundBehind root front names (names ++ below) :=
      ⟨below, rfl, hne, hbelow, hvisited⟩
    cases hlist with
    | file =>
      rw [List.mem_singleton.1 hmem]
      exact hself
    | folder => cases hmem
    | linkToFile =>
      rw [List.mem_singleton.1 hmem]
      exact hself
    | linkToFolder hplace _ _ hbehind =>
      have hall : ∀ name ∈ names ++ below, IsFileName name :=
        List.forall_mem_append.2 ⟨hnames, hbelow⟩
      have hdestination := ((resolve_below_iff hstem hall (by simp [hne])).1 hplace).2
      exact (ih hall (fun _ => hdestination) hbehind hmem).of_append hbelow hvisited

/-- A file below a root that is read has a spot in the folder above it. -/
theorem leadsToSpot_of_readText (hstem : root.IsStem front)
    (hnames : ∀ name ∈ names, IsFileName name)
    (hne : names ≠ []) {text : String} (h : t.readText (root.below names) = .ok text) :
    ∃ folder name, t.LeadsToSpot (root.below names) folder name ∧ t.HoldsFile folder name := by
  simp only [readText, read, bind_eq_ok_iff] at h
  obtain ⟨node, ⟨place, hplace, hnode⟩, htext⟩ := h
  obtain ⟨content, hfile⟩ : ∃ content, t.at? place = some (.file content) := by
    rcases stands_of_resolve hplace with hfolder | hfile
    · rw [hfolder] at hnode
      cases hnode
      cases htext
    · exact hfile
  obtain ⟨above, name, rfl⟩ : ∃ above name, names = above ++ [name] :=
    ⟨_, _, (List.dropLast_concat_getLast hne).symm⟩
  obtain ⟨hsteps, links, hlinks, hway⟩ := (resolve_below_iff hstem hnames hne).1 hplace
  rw [List.map_append, ← List.append_assoc, way_append_iff (by simp)] at hway
  obtain ⟨count, _, folder, rfl, habove, hlast⟩ := hway
  have hholds : t.HoldsFile folder name := ⟨_, place, content, hlast, hfile⟩
  obtain ⟨first, rest, hfront⟩ := List.exists_cons_of_ne_nil hstem.ne_nil
  refine ⟨folder, name, ⟨hsteps, ⟨first, rest ++ above.map String.toList, count, ?_, ?_, ?_⟩,
    hholds.canPut⟩, hholds⟩
  · rw [hstem.pieces_below hnames hne, hfront]
    simp
  · omega
  · rw [← List.cons_append, ← hfront, Path.stepsAlong_append hstem.ne_nil, Path.map_stepOf_names]
    · exact habove
    · exact fun other hother => hnames other (List.mem_append_left _ hother)

/-! ### Files in the place of links -/

/-- What is found by way of something below a location is found there still. -/
theorem FoundAt.of_overwrites (h : u.Overwrites t) (hstem : root.IsStem front)
    {behind other : List String → Location → List Met}
    (hnames : ∀ name ∈ names ++ below, IsFileName name) (hne : below ≠ [])
    (hreach : t.Reaches front names location)
    (hbehind : ∀ place (found : List (List String)), t.Reaches front (names ++ below) place →
      behind (names ++ below) place = found.map .ok → other (names ++ below) place = found.map .ok)
    {node : Node} (hnode : t.at? (location ++ below) = some node) {list : List (List String)}
    (hlist : t.FoundAt ways behind (root.below (names ++ below)) (names ++ below) node list) :
    ∃ node, u.at? (location ++ below) = some node ∧
      u.FoundAt ways other (root.below (names ++ below)) (names ++ below) node list := by
  cases hlist with
  | file content =>
    obtain ⟨content, hfile⟩ := h.at?_file hnode
    exact ⟨_, hfile, .file content⟩
  | folder hplace =>
    obtain ⟨place, hother, _⟩ := h.resolve hplace
    exact ⟨_, h.at?_folder hnode, .folder hother⟩
  | linkToFile hplace hfile =>
    obtain ⟨place, hother, _, hends⟩ := h.resolve hplace
    obtain ⟨content, hnew⟩ := hends _ hfile
    rcases h.nodes (location ++ below) with hsame | ⟨_, _, content, _, _, hover⟩
    · exact ⟨_, hsame.trans hnode, .linkToFile hother hnew⟩
    · exact ⟨_, hover, .file content⟩
  | @linkToFolder target place list hplace hfolder hway hfound =>
    have hdestination := ((resolve_below_iff hstem hnames (by simp [hne])).1 hplace).2
    rcases h.nodes (location ++ below) with hsame | ⟨folder, name, content, heq, hholds, _⟩
    · obtain ⟨_, hother, hends, _⟩ := h.resolve hplace
      cases hends hfolder
      exact ⟨_, hsame.trans hnode,
        .linkToFolder hother (h.at?_folder hfolder) hway (hbehind place list hdestination hfound)⟩
    -- A link to a folder has no file in its place.
    · obtain ⟨above, last, rfl⟩ : ∃ above last, below = above ++ [last] :=
        ⟨_, _, (List.dropLast_concat_getLast hne).symm⟩
      rw [← List.append_assoc] at heq hdestination
      obtain ⟨rfl, hlast⟩ := List.append_inj' heq rfl
      cases hlast
      obtain ⟨links, hlink⟩ := hdestination.last (hreach.append hholds.canPut.2.1)
      obtain ⟨_, content, hfile⟩ := hholds.ends hlink List.not_mem_nil
      cases hfolder.symm.trans hfile

theorem Opens.of_overwrites (hopens : t.Opens root names location) (h : u.Overwrites t) :
    u.Opens root names location := by
  intro below hne hfolder
  refine h.leadsSomewhere (hopens below hne ?_)
  rcases h.nodes (location ++ below) with hsame | ⟨_, _, _, _, _, hfile⟩
  · rwa [← hsame]
  · cases hfolder.symm.trans hfile

/-- The same files are found below a location once files stand in the place of links to files. -/
theorem filesBelow_of_overwrites (h : u.Overwrites t) (hstem : root.IsStem front) {fuel : Nat}
    {found : List (List String)} (hnames : ∀ name ∈ names, IsFileName name)
    (hreach : t.at? location = some .folder → t.Reaches front names location)
    (hfound : t.filesBelow true root fuel ways names location = found.map .ok) :
    u.filesBelow true root fuel ways names location = found.map .ok := by
  induction fuel generalizing ways names location found with
  | zero => exact absurd hfound singleton_error_ne_map_ok
  | succ fuel ih =>
    have hopens := opens_of_filesBelow hfound
    rw [hopens.filesBelow_eq] at hfound
    rw [(hopens.of_overwrites h).filesBelow_eq, namesBelow_eq_of_keys h.keys]
    obtain ⟨lists, hlists, rfl⟩ := flatMap_eq_map_ok_iff.1 hfound
    refine flatMap_eq_map_ok_iff.2
      ⟨lists, forall₂_imp_of_mem hlists fun below hbelow list hlist => ?_, rfl⟩
    obtain ⟨hne, hthere⟩ := mem_namesBelow_iff.1 hbelow
    obtain ⟨node, hnode⟩ := Option.ne_none_iff_exists'.1 hthere
    have hall : ∀ name ∈ names ++ below, IsFileName name :=
      List.forall_mem_append.2 ⟨hnames, isFileName_of_at? hthere⟩
    rw [hnode, Option.getD_some, foundAt_eq_ok_iff] at hlist
    obtain ⟨other, hother, hsame⟩ := hlist.of_overwrites h hstem hall hne
      (hreach (at?_above hne hthere)) (fun place list hplace => ih hall fun _ => hplace) hnode
    rw [hother, Option.getD_some, foundAt_eq_ok_iff]
    exact hsame

/-- A path to something in a folder that has been visited leads somewhere only if it did before
files stood in the place of links. -/
theorem leadsSomewhere_of_visited (h : u.Overwrites t) (hstem : root.IsStem front)
    (hnames : ∀ name ∈ names, IsFileName name) (hvisited : t.Visited root front names) {path : Path}
    (hpath : path.isAbsolute = false) {last : List Char}
    (hpieces : path.pieces = names.map String.toList ++ [last])
    (hleads : u.leadsSomewhere (root.join path) = true) :
    t.leadsSomewhere (root.join path) = true := by
  obtain ⟨folder, hreach, hfolder, hlinks⟩ := hvisited
  obtain ⟨_, _, hother⟩ := hreach.of_overwrites h hfolder
  obtain ⟨place, hplace⟩ := leadsSomewhere_iff.1 hleads
  obtain ⟨hsteps, _, _, hway⟩ := resolve_eq_ok_iff_way.1 hplace
  have hwalk : (root.join path).walk
      = (Path.stepsAlong front ++ names.map .named) ++ [Path.stepOf last] := by
    rw [hstem.walk_join hpath, hpieces, List.map_append, Path.map_stepOf_names hnames,
      ← List.append_assoc]
    rfl
  rw [hwalk, way_append_iff (List.cons_ne_nil _ _)] at hway
  obtain ⟨_, _, _, _, hfirst, hlast⟩ := hway
  obtain ⟨_, rfl⟩ := hother.unique hfirst
  obtain ⟨links, hfew, habove⟩ := hreach
  -- A last step that is no link takes no more links than there are above it.
  have hstep : ∀ next, t.Takes folder (Path.stepOf last) 0 next [] →
      t.leadsSomewhere (root.join path) = true := by
    intro next htakes
    refine leadsSomewhere_iff.2 ⟨next, resolve_eq_ok_iff_way.2 ⟨hsteps, links, hfew, ?_⟩⟩
    rw [hwalk, way_append_iff (List.cons_ne_nil _ _)]
    exact ⟨links, 0, folder, rfl, habove, .step htakes (.done next)⟩
  cases hpiece : Path.stepOf last with
  | root => exact absurd hpiece (Path.stepOf_ne_root last)
  | current => exact hstep folder (hpiece ▸ .current hfolder)
  | parent => exact hstep folder.dropLast (hpiece ▸ .parent hfolder)
  | named name =>
    rw [hpiece] at hlast hstep
    have hname := hlast.isFileName
    obtain ⟨other, hother⟩ := hlast.exists_named
    have hthere : t.at? (folder ++ [name]) ≠ none := by
      rw [Ne, ← h.at?_eq_none_iff, hother]
      exact Option.some_ne_none _
    obtain ⟨node, hnode⟩ := Option.ne_none_iff_exists'.1 hthere
    cases node with
    | folder => exact hstep _ (.named hfolder hname hnode fun _ heq => nomatch heq)
    | file content => exact hstep _ (.named hfolder hname hnode fun _ heq => nomatch heq)
    | link target =>
      have hall : ∀ other ∈ names ++ [name], IsFileName other :=
        List.forall_mem_append.2 ⟨hnames, List.forall_mem_singleton.2 hname⟩
      have hsame : path = ⟨"/".intercalate (names ++ [name])⟩ := by
        apply Path.eq_of_pieces
        rw [hpieces, Path.eq_toList_of_stepOf hpiece, Path.pieces_intercalate hall (by simp),
          List.map_append, List.map_singleton]
      rw [hsame]
      exact hlinks name target hnode

end SidecarIndex.FileTree

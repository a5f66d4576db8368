import Mathlib.Data.List.Induction
import SidecarIndex.Proofs.FileTree.Walk
import SidecarIndex.Proofs.OrderedMap
import SidecarIndex.Store.Scan

/-! # Outlines of trees

Two trees are alike when they differ in nothing but the contents of files. Paths lead to the same
places in both, and the same files are found below a folder. Putting another content into a file
leaves a tree that is alike. -/

namespace SidecarIndex

def Node.shape : Node → Node
  | .file _ => .file (.text "")
  | node => node

namespace FileTree

/-- What stands where, apart from what the files hold. -/
def outline (t : FileTree) : OrderedMap Location Node := t.nodes.mapValues Node.shape

/-- Two trees differ in nothing but the contents of files. -/
structure Alike (t u : FileTree) : Prop where
  workingFolder : t.workingFolder = u.workingFolder
  outline : t.outline = u.outline

theorem Alike.refl (t : FileTree) : t.Alike t := ⟨rfl, rfl⟩

theorem Alike.symm {t u : FileTree} (h : t.Alike u) : u.Alike t :=
  ⟨h.workingFolder.symm, h.outline.symm⟩

theorem Alike.trans {t u v : FileTree} (htu : t.Alike u) (huv : u.Alike v) : t.Alike v :=
  ⟨htu.workingFolder.trans huv.workingFolder, htu.outline.trans huv.outline⟩

section Alike

variable {t u : FileTree}

theorem Alike.shape_at? (h : t.Alike u) (location : Location) :
    (t.at? location).map Node.shape = (u.at? location).map Node.shape := by
  have hget : ∀ v : FileTree, v.outline.get? location = (v.nodes.get? location).map Node.shape :=
    fun v => OrderedMap.get?_mapValues Node.shape v.nodes location
  unfold at? nodeAt?
  split
  · rfl
  · rw [← hget, ← hget, h.outline]

theorem shape_eq_folder_iff {node : Node} : node.shape = .folder ↔ node = .folder := by
  cases node
  all_goals simp [Node.shape]

theorem shape_eq_link_iff {node : Node} {target : Path} :
    node.shape = .link target ↔ node = .link target := by
  cases node
  all_goals simp [Node.shape]

theorem Alike.at?_none (h : t.Alike u) {location : Location} :
    t.at? location = none ↔ u.at? location = none := by
  have hshape := h.shape_at? location
  apply Iff.intro
  · intro hnone
    rw [hnone, Option.map_none] at hshape
    exact Option.map_eq_none_iff.1 hshape.symm
  · intro hnone
    rw [hnone, Option.map_none] at hshape
    exact Option.map_eq_none_iff.1 hshape

theorem Alike.at?_folder (h : t.Alike u) {location : Location}
    (hfolder : t.at? location = some .folder) : u.at? location = some .folder := by
  have hshape := h.shape_at? location
  rw [hfolder] at hshape
  obtain ⟨node, hnode, hfound⟩ := Option.map_eq_some_iff.1 hshape.symm
  rw [hnode, shape_eq_folder_iff.1 hfound]

theorem Alike.isFolder (h : t.Alike u) (location : Location) :
    t.isFolder location = u.isFolder location := by
  have hiff : t.at? location = some .folder ↔ u.at? location = some .folder :=
    ⟨h.at?_folder, h.symm.at?_folder⟩
  rw [FileTree.isFolder, FileTree.isFolder, Bool.eq_iff_iff, beq_iff_eq, beq_iff_eq, hiff]

theorem Alike.linkFree (h : t.Alike u) (hlinks : t.LinkFree) : u.LinkFree := by
  intro location target hlink
  have hshape := h.shape_at? location
  rw [hlink] at hshape
  obtain ⟨node, hnode, hfound⟩ := Option.map_eq_some_iff.1 hshape
  rw [shape_eq_link_iff.1 hfound] at hnode
  exact hlinks location target hnode

/-! ### Following paths -/

theorem Alike.walk_eq (h : t.Alike u) (hlinks : t.LinkFree) (ending : Ending) (location : Location)
    (steps : List Component) : t.walk ending 0 location steps = u.walk ending 0 location steps := by
  simp only [walk]
  induction steps generalizing location with
  | nil => rfl
  | cons step rest ih =>
    cases step with
    | root => exact ih []
    | current => simp only [walkFrom, h.isFolder, ih]
    | parent => simp only [walkFrom, h.isFolder, ih]
    | named name =>
      simp only [walkFrom, h.isFolder, ih]
      have hulinks := h.linkFree hlinks
      cases ht : t.at? (location ++ [name]) with
      | none => rw [h.at?_none.1 ht]
      | some node =>
        cases hu : u.at? (location ++ [name]) with
        | none =>
          rw [h.at?_none.2 hu] at ht
          cases ht
        | some other =>
          cases node with
          | link target => exact absurd ht (hlinks _ _)
          | file content =>
            cases other with
            | link target => exact absurd hu (hulinks _ _)
            | file _ => rfl
            | folder => rfl
          | folder =>
            cases other with
            | link target => exact absurd hu (hulinks _ _)
            | file _ => rfl
            | folder => rfl

theorem Alike.resolve_eq (h : t.Alike u) (hlinks : t.LinkFree) (ending : Ending) (path : Path) :
    t.resolve ending path = u.resolve ending path := by
  simp only [resolve, walk_eq_walk_zero hlinks, walk_eq_walk_zero (h.linkFree hlinks),
    h.walk_eq hlinks, h.workingFolder]

theorem Alike.leadsSomewhere_eq (h : t.Alike u) (hlinks : t.LinkFree) (path : Path) :
    t.leadsSomewhere path = u.leadsSomewhere path := by
  rw [leadsSomewhere, leadsSomewhere, h.resolve_eq hlinks]

/-! ### Below a folder -/

def namesBelow? (location : Location) (entry : Location × Node) : Option (List String × Node) :=
  match location.isPrefixOf? entry.1 with
  | some (name :: names) => some (name :: names, entry.2)
  | _ => none

theorem below_eq (t : FileTree) (location : Location) :
    t.below location = t.nodes.entries.filterMap (namesBelow? location) := rfl

theorem namesBelow?_eq_some_iff {location names : Location} {entry : Location × Node}
    {node : Node} : namesBelow? location entry = some (names, node) ↔
      names ≠ [] ∧ entry = (location ++ names, node) := by
  unfold namesBelow?
  constructor
  · intro h
    split at h
    · rename_i name rest hprefix
      cases h
      refine ⟨List.cons_ne_nil name rest, Prod.ext ?_ rfl⟩
      exact (List.isPrefixOf?_eq_some_iff_append_eq.1 hprefix).symm
    · cases h
  · intro h
    obtain ⟨hne, rfl⟩ := h
    rw [List.isPrefixOf?_eq_some_iff_append_eq.2 rfl]
    cases names with
    | nil => exact absurd rfl hne
    | cons name rest => rfl

theorem mem_below_iff {location names : Location} {node : Node} :
    (names, node) ∈ t.below location ↔ names ≠ [] ∧ t.at? (location ++ names) = some node := by
  rw [below_eq, List.mem_filterMap]
  apply Iff.intro
  · intro h
    obtain ⟨entry, hentry, hfound⟩ := h
    obtain ⟨hne, rfl⟩ := namesBelow?_eq_some_iff.1 hfound
    exact ⟨hne, (at?_eq_some_iff (List.append_ne_nil_of_right_ne_nil _ hne)).2 hentry⟩
  · intro h
    obtain ⟨hne, hat⟩ := h
    refine ⟨_, (at?_eq_some_iff (List.append_ne_nil_of_right_ne_nil _ hne)).1 hat, ?_⟩
    exact namesBelow?_eq_some_iff.2 ⟨hne, rfl⟩

theorem nodup_below (t : FileTree) (location : Location) :
    ((t.below location).map Prod.fst).Nodup := by
  have hkeys : t.nodes.entries.Pairwise fun a b => a.1 ≠ b.1 :=
    List.pairwise_map.1 (List.nodup_iff_pairwise_ne.1 t.nodes.nodup_keys)
  rw [List.nodup_iff_pairwise_ne, List.pairwise_map, below_eq, List.pairwise_filterMap]
  refine hkeys.imp fun {a b} hne found hfound other hother heq => hne ?_
  obtain ⟨_, rfl⟩ := namesBelow?_eq_some_iff.1 hfound
  obtain ⟨_, rfl⟩ := namesBelow?_eq_some_iff.1 hother
  exact congrArg (location ++ ·) heq

theorem Alike.below (h : t.Alike u) (location : Location) :
    (t.below location).map (fun found => (found.1, found.2.shape))
      = (u.below location).map fun found => (found.1, found.2.shape) := by
  have hshape : ∀ v : FileTree, (v.below location).map (fun found => (found.1, found.2.shape))
      = v.outline.entries.filterMap (namesBelow? location) := by
    intro v
    have hentries : v.outline.entries
        = v.nodes.entries.map fun entry => (entry.1, entry.2.shape) := rfl
    rw [below_eq, hentries, List.map_filterMap, List.filterMap_map]
    refine List.filterMap_congr fun entry _ => ?_
    simp only [Function.comp_apply, namesBelow?]
    split
    · rfl
    · rfl
  rw [hshape, hshape, h.outline]

/-! ### Finding files -/

/-- Every folder below a location, to which some names lead from the root, can be opened by its
path. -/
def Opens (t : FileTree) (root : Path) (names : List String) (location : Location) : Prop :=
  ∀ below, below ≠ [] → t.at? (location ++ below) = some .folder →
    t.leadsSomewhere (root.below (names ++ below)) = true

section Opens

variable {root : Path} {followLinks : Bool} {fuel : Nat} {ways : List (Location × Location)}
  {names : List String} {location : Location}

/-- A walk that meets no fault has opened every folder. -/
theorem opens_of_filesBelow {found : List (List String)}
    (h : t.filesBelow followLinks root (fuel + 1) ways names location = found.map .ok) :
    t.Opens root names location := by
  intro below hne hfolder
  induction below using List.reverseRecOn with
  | nil => exact absurd rfl hne
  | append_singleton above name ih =>
    have hopened : above = [] ∨ t.leadsSomewhere (root.below (names ++ above)) = true := by
      by_cases hnil : above = []
      · exact .inl hnil
      · refine .inr (ih hnil (at?_above (List.cons_ne_nil name []) ?_))
        rw [List.append_assoc, hfolder]
        exact Option.some_ne_none _
    cases hresolve : t.resolve .node (root.below (names ++ (above ++ [name]))) with
    | ok place =>
      rw [leadsSomewhere, hresolve]
      rfl
    | error fault =>
      -- The folder would be met as a fault.
      have hnoFault : Except.error fault ∉ found.map Except.ok := error_not_mem_map_ok
      refine absurd ?_ hnoFault
      rw [← h, filesBelow, List.mem_flatMap]
      refine ⟨(above ++ [name], .folder), mem_below_iff.2 ⟨hne, hfolder⟩, ?_⟩
      simp only [List.dropLast_concat, if_pos hopened, foundAt, hresolve]
      exact List.mem_singleton.2 rfl

theorem Opens.above (h : t.Opens root names location) {below : List String} (hne : below ≠ [])
    (hthere : t.at? (location ++ below) ≠ none) :
    below.dropLast = [] ∨ t.leadsSomewhere (root.below (names ++ below.dropLast)) = true := by
  by_cases hnil : below.dropLast = []
  · exact .inl hnil
  · refine .inr (h _ hnil ?_)
    obtain ⟨above, name, rfl⟩ := (List.eq_nil_or_concat below).resolve_left hne
    rw [List.concat_eq_append] at hthere ⊢
    rw [← List.append_assoc] at hthere
    rw [List.dropLast_concat]
    exact at?_above (List.cons_ne_nil name []) hthere

/-- A walk passes over nothing when all folders can be opened. -/
theorem Opens.filesBelow (h : t.Opens root names location) :
    t.filesBelow followLinks root (fuel + 1) ways names location =
      (t.below location).flatMap fun (below, node) =>
        t.foundAt followLinks ((location, location ++ below.dropLast) :: ways)
          (t.filesBelow followLinks root fuel ((location, location ++ below.dropLast) :: ways))
          (root.below (names ++ below)) (names ++ below) node := by
  rw [FileTree.filesBelow]
  refine List.flatMap_congr fun entry hentry => ?_
  obtain ⟨hne, hnode⟩ := mem_below_iff.1 hentry
  exact if_pos (h.above hne (hnode ▸ Option.some_ne_none _))

end Opens

def fileNames? (found : List String × Node) : Option (List String) :=
  match found.2 with
  | .file _ => some found.1
  | _ => none

/-- The names of the files below a location. -/
def namesOfFiles (t : FileTree) (location : Location) : List (List String) :=
  (t.below location).filterMap fileNames?

theorem fileNames?_eq_some_iff {found : List String × Node} {names : List String} :
    fileNames? found = some names ↔ ∃ content, found = (names, .file content) := by
  obtain ⟨other, node⟩ := found
  cases node
  all_goals simp [fileNames?]

theorem mem_namesOfFiles_iff {location : Location} {names : List String} :
    names ∈ t.namesOfFiles location ↔
      names ≠ [] ∧ ∃ content, t.at? (location ++ names) = some (.file content) := by
  rw [namesOfFiles, List.mem_filterMap]
  apply Iff.intro
  · intro h
    obtain ⟨found, hfound, hnames⟩ := h
    obtain ⟨content, rfl⟩ := fileNames?_eq_some_iff.1 hnames
    obtain ⟨hne, hnode⟩ := mem_below_iff.1 hfound
    exact ⟨hne, content, hnode⟩
  · intro h
    obtain ⟨hne, content, hnode⟩ := h
    exact ⟨_, mem_below_iff.2 ⟨hne, hnode⟩, rfl⟩

theorem nodup_namesOfFiles (t : FileTree) (location : Location) :
    (t.namesOfFiles location).Nodup := by
  have hkeys : (t.below location).Pairwise fun a b => a.1 ≠ b.1 :=
    List.pairwise_map.1 (List.nodup_iff_pairwise_ne.1 (t.nodup_below location))
  rw [namesOfFiles, List.nodup_iff_pairwise_ne, List.pairwise_filterMap]
  refine hkeys.imp fun {a b} hne names hfirst other hsecond heq => hne ?_
  obtain ⟨_, rfl⟩ := fileNames?_eq_some_iff.1 hfirst
  obtain ⟨_, rfl⟩ := fileNames?_eq_some_iff.1 hsecond
  exact heq

theorem Alike.namesOfFiles_eq (h : t.Alike u) (location : Location) :
    t.namesOfFiles location = u.namesOfFiles location := by
  have hshape : ∀ v : FileTree, v.namesOfFiles location
      = ((v.below location).map fun found => (found.1, found.2.shape)).filterMap fileNames? := by
    intro v
    rw [namesOfFiles, List.filterMap_map]
    refine List.filterMap_congr fun found _ => ?_
    obtain ⟨names, node⟩ := found
    cases node
    all_goals rfl
  rw [hshape, hshape, h.below]

theorem flatten_eq_filterMap {α β : Type} {f : α → Option β} {xs : List α} {lists : List (List β)}
    (h : List.Forall₂ (fun x list => list = (f x).toList) xs lists) :
    lists.flatten = xs.filterMap f := by
  induction h with
  | nil => rfl
  | @cons x list xs lists hlist _ ih =>
    rw [List.flatten_cons, hlist, ih]
    cases hx : f x with
    | none => rw [List.filterMap_cons_none hx]; rfl
    | some y => rw [List.filterMap_cons_some hx]; rfl

/-- Without links what is met at a place is the file that it is. -/
theorem foundAt_eq_ok_iff_of_linkFree (hlinks : t.LinkFree) {followLinks : Bool} {root : Path}
    {ways : List (Location × Location)} {behind : List String → Location → List Met}
    {location names : Location} {node : Node} (hopens : t.Opens root [] location)
    (hbelow : (names, node) ∈ t.below location) {list : List (List String)} :
    t.foundAt followLinks ways behind (root.below names) names node = list.map .ok ↔
      list = (fileNames? (names, node)).toList := by
  obtain ⟨hne, hnode⟩ := mem_below_iff.1 hbelow
  cases node with
  | file content =>
    rw [foundAt, singleton_ok_eq_map_iff]
    rfl
  | folder =>
    have hleads := hopens names hne hnode
    rw [leadsSomewhere, List.nil_append] at hleads
    rw [foundAt]
    cases hresolve : t.resolve .node (root.below names) with
    | ok place =>
      simp only
      rw [eq_comm, List.map_eq_nil_iff]
      rfl
    | error fault =>
      rw [hresolve] at hleads
      cases hleads
  | link target => exact absurd hnode (hlinks _ _)

/-- Without links a walk meets no fault when all folders can be opened, and then it finds all
files. -/
theorem filesBelow_eq_ok_iff (hlinks : t.LinkFree) {followLinks : Bool} {root : Path} {fuel : Nat}
    {location : Location} {found : List (List String)} :
    t.filesBelow followLinks root (fuel + 1) [] [] location = found.map .ok ↔
      t.Opens root [] location ∧ found = t.namesOfFiles location := by
  have hall : t.Opens root [] location →
      (t.filesBelow followLinks root (fuel + 1) [] [] location = found.map .ok ↔
        found = t.namesOfFiles location) := by
    intro hopens
    rw [hopens.filesBelow, flatMap_eq_map_ok_iff, namesOfFiles]
    apply Iff.intro
    · intro h
      obtain ⟨lists, hlists, rfl⟩ := h
      refine flatten_eq_filterMap (forall₂_imp_of_mem hlists fun entry hentry list hlist => ?_)
      exact (foundAt_eq_ok_iff_of_linkFree hlinks hopens hentry).1 hlist
    · rintro rfl
      refine ⟨(t.below location).map fun entry => (fileNames? entry).toList, ?_, ?_⟩
      · refine List.forall₂_map_right_iff.2 (List.forall₂_same.2 fun entry hentry => ?_)
        exact (foundAt_eq_ok_iff_of_linkFree hlinks hopens hentry).2 rfl
      · refine (flatten_eq_filterMap (List.forall₂_map_right_iff.2 ?_)).symm
        exact List.forall₂_same.2 fun _ _ => rfl
  exact ⟨fun h => ⟨opens_of_filesBelow h, (hall (opens_of_filesBelow h)).1 h⟩,
    fun h => (hall h.1).2 h.2⟩

end Alike

end FileTree

end SidecarIndex

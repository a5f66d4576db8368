import SidecarIndex.OrderedMap
import SidecarIndex.Path

/-! # Trees of files

A tree holds files, folders and symbolic links, each at its location: the list of names that leads
to it from the top. Above everything in a tree stands a folder, and all names are names a file can
have. Names are texts; what has a name that is no text is not in the tree, as no side-car has such a
name. Paths that do not start at the top start at the working folder. -/

namespace SidecarIndex

inductive Content where
  | text (s : String)
  | bytes (b : List UInt8)
  deriving DecidableEq

namespace Content

def ofBytes (b : ByteArray) : Content :=
  match String.fromUTF8? b with
  | some s => text s
  | none => bytes b.toList

def toByteArray : Content → ByteArray
  | text s => s.toUTF8
  | bytes b => ⟨b.toArray⟩

/-- What stands in a file of which no more than the first bytes have been written. -/
def cut (content : Content) (kept : Nat) : Content := ofBytes (content.toByteArray.extract 0 kept)

end Content

inductive Node where
  | file (content : Content)
  | folder
  | link (target : Path)
  deriving DecidableEq

/-- Names of files are not empty, hold no slash and no zero, take at most 255 bytes, and are not the
two names that stand for a folder itself and the one above it. -/
def IsFileName (name : String) : Prop :=
  name ≠ "" ∧ name ≠ "." ∧ name ≠ ".." ∧ '/' ∉ name.toList ∧ '\x00' ∉ name.toList
    ∧ name.utf8ByteSize ≤ 255

instance (name : String) : Decidable (IsFileName name) := inferInstanceAs (Decidable (_ ∧ _))

abbrev Location := List String

def nodeAt? (nodes : OrderedMap Location Node) (location : Location) : Option Node :=
  if location = [] then some .folder else nodes.get? location

structure FileTree where
  nodes : OrderedMap Location Node
  workingFolder : Location
  /-- Everything has the name of a file and stands in a folder. -/
  closed : ∀ location name, nodeAt? nodes (location ++ [name]) ≠ none →
    IsFileName name ∧ nodeAt? nodes location = some .folder

namespace FileTree

def empty : FileTree where
  nodes := OrderedMap.empty
  workingFolder := []
  closed := by
    intro location name h
    simp [nodeAt?] at h

instance : Inhabited FileTree := ⟨empty⟩

def startingAt (t : FileTree) (location : Location) : FileTree :=
  { t with workingFolder := location }

def at? (t : FileTree) (location : Location) : Option Node := nodeAt? t.nodes location

def isFolder (t : FileTree) (location : Location) : Bool := t.at? location == some .folder

theorem at?_top (t : FileTree) : t.at? [] = some .folder := rfl

/-! ### Changes -/

theorem nodeAt?_insert (nodes : OrderedMap Location Node) (location other : Location) (node : Node)
    (h : location ≠ []) : nodeAt? (nodes.insert location node) other =
      if other = location then some node else nodeAt? nodes other := by
  simp only [nodeAt?, OrderedMap.get?_insert]
  by_cases ho : other = location
  · subst ho
    rw [if_neg h, if_pos rfl, if_pos rfl]
  · rw [if_neg ho, if_neg ho]

theorem nodeAt?_erase (nodes : OrderedMap Location Node) (location other : Location)
    (h : location ≠ []) : nodeAt? (nodes.erase location) other =
      if other = location then none else nodeAt? nodes other := by
  simp only [nodeAt?, OrderedMap.get?_erase]
  by_cases ho : other = location
  · subst ho
    rw [if_neg h, if_pos rfl, if_pos rfl]
  · rw [if_neg ho, if_neg ho]

/-- Whether something new, or another file or link, can be put under a name in a folder. -/
def CanPut (t : FileTree) (folder : Location) (name : String) : Prop :=
  IsFileName name ∧ t.at? folder = some .folder ∧ t.at? (folder ++ [name]) ≠ some .folder

instance (t : FileTree) (folder : Location) (name : String) : Decidable (t.CanPut folder name) :=
  inferInstanceAs (Decidable (_ ∧ _))

def put (t : FileTree) (folder : Location) (name : String) (node : Node)
    (h : t.CanPut folder name) : FileTree where
  nodes := t.nodes.insert (folder ++ [name]) node
  workingFolder := t.workingFolder
  closed := by
    intro location other hsome
    have hne : folder ++ [name] ≠ [] := by simp
    rw [nodeAt?_insert _ _ _ _ hne] at hsome ⊢
    obtain ⟨hname, hfolder, hnot⟩ := h
    by_cases heq : location ++ [other] = folder ++ [name]
    · obtain ⟨hl, ho⟩ := List.append_inj' heq rfl
      cases ho
      subst hl
      refine ⟨hname, ?_⟩
      rw [if_neg (by simp)]
      exact hfolder
    · rw [if_neg heq] at hsome
      obtain ⟨hother, habove⟩ := t.closed location other hsome
      refine ⟨hother, ?_⟩
      split
      · rename_i hloc
        exact absurd (hloc ▸ habove) hnot
      · exact habove

theorem at?_put (t : FileTree) (folder : Location) (name : String) (node : Node)
    (h : t.CanPut folder name) (other : Location) : (t.put folder name node h).at? other =
      if other = folder ++ [name] then some node else t.at? other :=
  nodeAt?_insert _ _ _ _ (by simp)

/-- Takes away the file or link at a location; a folder stays. -/
def remove (t : FileTree) (location : Location) : FileTree :=
  if h : t.at? location = some .folder then t else
    { nodes := t.nodes.erase location
      workingFolder := t.workingFolder
      closed := by
        intro above name hsome
        have hne : location ≠ [] := fun he => h (he ▸ t.at?_top)
        rw [nodeAt?_erase _ _ _ hne] at hsome ⊢
        split at hsome
        · exact absurd rfl hsome
        · obtain ⟨hname, habove⟩ := t.closed above name hsome
          refine ⟨hname, ?_⟩
          split
          · rename_i hloc
            exact absurd (hloc ▸ habove) h
          · exact habove }

theorem at?_remove (t : FileTree) (location other : Location)
    (h : t.at? location ≠ some .folder) : (t.remove location).at? other =
      if other = location then none else t.at? other := by
  have hne : location ≠ [] := fun he => h (he ▸ t.at?_top)
  simp only [remove, dif_neg h]
  exact nodeAt?_erase _ _ _ hne

/-! ### Views -/

/-- Everything strictly below a location, by the names that lead there from it, in the order of the
names. -/
def below (t : FileTree) (location : Location) : List (List String × Node) :=
  t.nodes.entries.filterMap fun entry =>
    match location.isPrefixOf? entry.1 with
    | some (name :: names) => some (name :: names, entry.2)
    | _ => none

def files (t : FileTree) : List (Location × Content) :=
  t.nodes.entries.filterMap fun entry =>
    match entry.2 with
    | .file content => some (entry.1, content)
    | _ => none

end FileTree

end SidecarIndex

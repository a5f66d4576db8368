import SidecarIndex.Store.Basic
import SidecarIndex.Index.Catalog

/-! # Scanning, loading and checking a tree

All files below the root are looked at, and those behind links where links are followed. A side-car
without the file or folder it describes is passed over. Loading makes a catalog of all side-cars and
stops at the first problem; checking goes on and gathers the problems. -/

namespace SidecarIndex

def Path.below (root : Path) (names : List String) : Path := root.join ⟨"/".intercalate names⟩

/-- What a walk meets: the names of a file, or a fault. -/
abbrev Met := Except FileFault (List String)

/-- The order in which a walk meets what it finds. The system lists each folder in an order of its
own. -/
structure WalkOrder where
  arrange : List Met → List Met
  perm : ∀ met, (arrange met).Perm met

namespace WalkOrder

def byName : WalkOrder := ⟨id, fun met => .refl met⟩

instance : Inhabited WalkOrder := ⟨byName⟩

end WalkOrder

namespace FileTree

/-- Whether a location lies on the way from one of the starting points to its end. -/
def onTheWay (ways : List (Location × Location)) (location : Location) : Bool :=
  ways.any fun way => way.1.isPrefixOf location && location.isPrefixOf way.2

/-- What is met by way of what stands at a path: a file is found itself, and with links followed the
file or the files behind a link. A folder has to be one that its path leads to, and a link back to a
folder on the way to it is refused. -/
def foundAt (t : FileTree) (followLinks : Bool) (ways : List (Location × Location))
    (behind : List String → Location → List Met) (path : Path) (names : List String) :
    Node → List Met
  | .file _ => [.ok names]
  | .folder =>
    match t.resolve .node path with
    | .ok _ => []
    | .error fault => [.error fault]
  | .link _ =>
    if followLinks then
      match t.resolve .node path with
      | .error fault => [.error fault]
      | .ok destination =>
        match t.at? destination with
        | some (.file _) => [.ok names]
        | some .folder =>
          if onTheWay ways destination then [.error .tooManyLinks] else behind names destination
        | _ => []
    else []

/-- What is met below a location, to which some names lead from the root; nothing is met in a folder
that its path does not lead to. Each link on the way to a file takes one unit of fuel; as no way
passes a folder twice by links, the number of nodes is enough. -/
def filesBelow (t : FileTree) (followLinks : Bool) (root : Path) :
    Nat → List (Location × Location) → List String → Location → List Met
  | 0, _, _, _ => [.error .tooManyLinks]
  | fuel + 1, ways, names, location =>
    (t.below location).flatMap fun (below, node) =>
      let folder := below.dropLast
      if folder = [] ∨ t.leadsSomewhere (root.below (names ++ folder)) then
        let ways := (location, location ++ folder) :: ways
        t.foundAt followLinks ways (filesBelow t followLinks root fuel ways)
          (root.below (names ++ below)) (names ++ below) node
      else []

end FileTree

namespace Store

structure Sidecar where
  described : Path
  file : Path
  deriving DecidableEq

/-- What a walk below the root meets. -/
def files (s : Store) (t : FileTree) : List Met :=
  match t.resolve .node s.root with
  | .ok location => t.filesBelow s.followLinks s.root (t.nodes.size + 1) [] [] location
  | .error fault => [.error fault]

/-! ### Scanning -/

/-- The side-car that a file is, when what it describes is there. -/
def sidecar? (s : Store) (t : FileTree) (names : List String) : Option Sidecar := do
  let described ← s.described? names
  if t.leadsSomewhere (s.root.join described) then some ⟨described, s.root.below names⟩ else none

def Sidecar.read (t : FileTree) (sidecar : Sidecar) : Except Error (Path × String) :=
  match t.readText sidecar.file with
  | .ok s => .ok (sidecar.described, s)
  | .error fault => .error (.invalidDocument sidecar.file (.file fault))

/-- Reads the side-cars among what a walk meets, one after the other, up to the first fault of the
walk or of a file. -/
def gather (s : Store) (t : FileTree) : List Met → Except Error (List (Path × String))
  | [] => .ok []
  | .error fault :: _ => .error (.file fault)
  | .ok names :: rest =>
    match s.sidecar? t names with
    | none => gather s t rest
    | some sidecar => do
      let source ← sidecar.read t
      return source :: (← gather s t rest)

/-- The described paths below the root with the texts of their side-cars, in the order of the
paths. -/
def scan (s : Store) (order : WalkOrder) (t : FileTree) : Except Error (List (Path × String)) := do
  let sources ← s.gather t (order.arrange (s.files t))
  return sources.mergeSort fun a b => a.1.compare b.1 != .gt

/-! ### Loading and checking -/

def readDocument (s : Store) (source : Path × String) : Except Error (Path × Document) :=
  match Document.ofText source.2 with
  | .ok d => .ok (source.1, d)
  | .error e => .error (.invalidDocument (s.sidecarPath source.1) (.document e))

def load (s : Store) (order : WalkOrder) (t : FileTree) : Except Error (Catalog × View) := do
  let sources ← s.scan order t
  let entries ← sources.mapM s.readDocument
  Catalog.build entries

/-- The documents that can be read and the problems of the others, each in order. -/
def partition : List (Except Error (Path × Document)) → List (Path × Document) × List Error
  | [] => ([], [])
  | .ok entry :: rest => (entry :: (partition rest).1, (partition rest).2)
  | .error e :: rest => ((partition rest).1, e :: (partition rest).2)

/-- All problems below the root: the side-cars that are no documents, then the first attribute whose
variant differs among those that are. -/
def check (s : Store) (order : WalkOrder) (t : FileTree) : Except Error (List Error) := do
  let sources ← s.scan order t
  let (entries, problems) := partition (sources.map s.readDocument)
  match Registry.ofEntries entries with
  | .ok _ => return problems
  | .error e => return problems ++ [e]

end Store

end SidecarIndex

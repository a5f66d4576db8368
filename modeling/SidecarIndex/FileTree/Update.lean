import SidecarIndex.FileTree.Resolve

/-! # Changing a tree by paths

Files and folders are made where a path leads, and a file is replaced by way of a temporary one, so
that what stands under its name is always whole. -/

namespace SidecarIndex.FileTree

def put? (t : FileTree) (folder : Location) (name : String) (node : Node) :
    Except FileFault FileTree :=
  if h : t.CanPut folder name then .ok (t.put folder name node h)
  else if ¬ IsFileName name then .error .nameTooLong
  else if !t.isFolder folder then .error .noFolder
  else .error .isFolder

/-- The last step of a path as a name, and the steps before it. -/
def splitLast? (steps : List Component) : Option (List Component × String) :=
  match steps.getLast? with
  | some (.named name) => some (steps.dropLast, name)
  | _ => none

/-! ### Making files, folders and links -/

/-- Follows steps from a location and makes the folders that are missing. -/
def makeFoldersFrom (t : FileTree) : Location → List Component →
    Except FileFault (FileTree × Location)
  | location, [] => .ok (t, location)
  | location, step :: rest =>
    match step with
    | .root => makeFoldersFrom t [] rest
    | .current => makeFoldersFrom t location rest
    | .parent => makeFoldersFrom t location.dropLast rest
    | .named name =>
      match t.at? (location ++ [name]) with
      | none => do makeFoldersFrom (← t.put? location name .folder) (location ++ [name]) rest
      | some .folder => makeFoldersFrom t (location ++ [name]) rest
      | some (.link target) => do
        makeFoldersFrom t (← t.walk .node linkLimit location target.walk) rest
      | some (.file _) => .error .noFolder

def makeFolder (t : FileTree) (path : Path) : Except FileFault FileTree := do
  return (← t.makeFoldersFrom t.workingFolder path.components).1

def make (t : FileTree) (path : Path) (node : Node) : Except FileFault FileTree := do
  match splitLast? path.components with
  | none => .error .isFolder
  | some (steps, name) =>
    let (t, folder) ← t.makeFoldersFrom t.workingFolder steps
    t.put? folder name node

/-- Puts a file where a path leads. A link at its end leads on, also to a name under which nothing
stands yet. -/
def putFile (t : FileTree) (path : Path) (content : Content) : Except FileFault FileTree := do
  let place ← t.resolve .spot path
  match place.getLast? with
  | some name => t.put? place.dropLast name (.file content)
  | none => .error .isFolder

def makeFile (t : FileTree) (path : Path) (content : Content) : Except FileFault FileTree := do
  let (t, _) ← t.makeFoldersFrom t.workingFolder path.components.dropLast
  t.putFile path content

/-! ### Replacing a file -/

/-- What the system refuses while a file is replaced, for reasons that do not show in the tree: to
make the temporary file, to take more of its content than the first bytes, or to rename it. -/
inductive Refusal where
  | create (reason : String)
  | content (kept : Nat) (reason : String)
  | rename (reason : String)
  deriving DecidableEq

/-- What gets into a file of its content. -/
def written (refused : Option Refusal) (content : Content) : Content :=
  match refused with
  | some (.content kept _) => content.cut kept
  | _ => content

/-- Writes a file where a path leads. When the system stops taking its content, the file stays with
what has been written. -/
def write (t : FileTree) (refused : Option Refusal) (path : Path) (content : Content) :
    Except FileFault Unit × FileTree :=
  match t.putFile path (written refused content) with
  | .error fault => (.error fault, t)
  | .ok u =>
    match refused with
    | some (.create reason) => (.error (.refused reason), t)
    | some (.content _ reason) => (.error (.refused reason), u)
    | _ => (.ok (), u)

def spotOf (t : FileTree) (path : Path) : Except FileFault (Location × String) := do
  match splitLast? (← stepsOf path) with
  | some (above, name) => return (← t.walk .node linkLimit t.workingFolder above, name)
  | none => .error .noFolder

/-- Moves a file or a link: another one that has the new path is replaced, a folder is not. -/
def moveFile (t : FileTree) (source target : Path) : Except FileFault FileTree := do
  let (folder, name) ← t.spotOf source
  let (newFolder, newName) ← t.spotOf target
  match t.at? (folder ++ [name]) with
  | none => .error .missing
  | some .folder => .error .isFolder
  | some node => (t.remove (folder ++ [name])).put? newFolder newName node

def rename (t : FileTree) (refused : Option Refusal) (source target : Path) :
    Except FileFault FileTree := do
  let moved ← t.moveFile source target
  match refused with
  | some (.rename reason) => .error (.refused reason)
  | _ => return moved

/-- Replaces the file at a path: its new content is put into a temporary file beside it, which then
takes its path. When that fails the temporary file is left, if it has been made. -/
def replace (t : FileTree) (refused : Option Refusal) (target : Path) (temporary : String)
    (content : Content) : Except FileFault Unit × FileTree :=
  let beside := target.parent.join ⟨temporary⟩
  match t.write refused beside content with
  | (.error fault, t) => (.error fault, t)
  | (.ok (), t) =>
    match t.rename refused beside target with
    | .error fault => (.error fault, t)
    | .ok t => (.ok (), t)

end SidecarIndex.FileTree

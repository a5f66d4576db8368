import SidecarIndex.Store.Scan
import SidecarIndex.Document.Basic

/-! # Writing side-cars -/

namespace SidecarIndex.Store

/-- The name of the temporary file for a side-car; the token keeps it apart from other files. -/
def temporaryName (target : Path) (token : String) : String :=
  let name := ((FileTree.splitLast? target.components).map Prod.snd).getD ""
  "." ++ name ++ "-" ++ token ++ ".tmp"

/-- Replaces the side-car of a path by the text of a document and a line end. -/
def write (s : Store) (token : String) (refused : Option FileTree.Refusal) (t : FileTree)
    (path : Path) (d : Document) : Except Error Unit × FileTree :=
  let target := s.sidecarPath path
  let (outcome, t) :=
    t.replace refused target (temporaryName target token) (.text (d.text ++ "\n"))
  (outcome.mapError .file, t)

/-- Writes the side-car of each entry, in order; the first that cannot be written stops the rest.
What the system refuses may differ from path to path. -/
def writeAll (s : Store) (token : String) (refused : Path → Option FileTree.Refusal) :
    FileTree → List (Path × Document) → Except Error Unit × FileTree
  | t, [] => (.ok (), t)
  | t, (path, d) :: rest =>
    match s.write token (refused path) t path d with
    | (.ok (), t) => writeAll s token refused t rest
    | (.error e, t) => (.error e, t)

section

-- Without this the equation is checked by evaluating what a write does to an unknown tree.
attribute [local irreducible] write

theorem writeAll_cons (s : Store) (token : String) (refused : Path → Option FileTree.Refusal)
    (t : FileTree) (path : Path) (d : Document) (rest : List (Path × Document)) :
    s.writeAll token refused t ((path, d) :: rest)
      = match s.write token (refused path) t path d with
        | (.ok (), t) => s.writeAll token refused t rest
        | (.error e, t) => (.error e, t) := rfl

end

def save (s : Store) (token : String) (refused : Path → Option FileTree.Refusal) (t : FileTree)
    (c : Catalog) (view : View) : Except Error Unit × FileTree :=
  s.writeAll token refused t (c.contents view)

end SidecarIndex.Store

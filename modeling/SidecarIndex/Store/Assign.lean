import SidecarIndex.Store.Save
import SidecarIndex.Editing

/-! # Setting an attribute in a tree

An attribute is set by an edited text: the text is read in the variant that the attribute has in the
tree, and only the side-car of the path is written. -/

namespace SidecarIndex

namespace Catalog

/-- The variant in which an edited text is read: the recorded one of the attribute, else the one
that the text suggests, else text. -/
def editingVariant (c : Catalog) (name text : String) : Except ValueFault Variant :=
  match c.registry.variant? name with
  | some variant => .ok variant
  | none => (Editing.inferVariant text).map fun found => found.getD .text

def assign (c : Catalog) (view : View) (path : Path) (name text : String) :
    Except Error Catalog := do
  let fault (f : ValueFault) : Error := .problem (.valueFormat f)
  let variant ← (c.editingVariant name text).mapError fault
  let values ← (Editing.read text variant).mapError fault
  c.setAttribute view path name values

end Catalog

namespace Store

/-- Sets an attribute of a path below the root to the values of an edited text. -/
def assign (s : Store) (order : WalkOrder) (token : String) (refused : Option FileTree.Refusal)
    (t : FileTree) (path : Path) (name text : String) : Except Error Unit × FileTree :=
  match s.load order t with
  | .error e => (.error e, t)
  | .ok (c, view) =>
    match c.assign view path name text with
    | .error e => (.error e, t)
    | .ok c => s.write token refused t path (c.metadata view path)

end Store

end SidecarIndex

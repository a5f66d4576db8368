import SidecarIndex.Settings
import SidecarIndex.FileTree.Update

/-! # Stores

A store names the side-car of every file and folder below a root: its path with an extension. -/

namespace SidecarIndex

structure Store where
  root : Path
  extension : String
  followLinks : Bool
  isDotted : extension.toList.head? = some '.'
  deriving DecidableEq

namespace Store

def ofSettings (root : Path) (settings : Settings) : Store :=
  ⟨root, settings.dottedExtension, settings.followLinks, head?_dotted settings.extension⟩

def withExtension (s : Store) (extension : String) : Store :=
  ⟨s.root, dotted extension, s.followLinks, head?_dotted extension⟩

def sidecarPath (s : Store) (path : Path) : Path := ⟨(s.root.join path).text ++ s.extension⟩

/-- The path that a file is the side-car of, given the file's names below the root. A file whose
path does not end in the extension is no side-car, nor is one with nothing or a slash before it. -/
def described? (s : Store) (names : List String) : Option Path :=
  let file := "/".intercalate names
  let described := (file.toList.take (file.length - s.extension.length))
  if described ++ s.extension.toList ≠ file.toList then none
  else if described = [] ∨ described.getLast? = some '/' then none
  else some ⟨String.ofList described⟩

end Store

end SidecarIndex

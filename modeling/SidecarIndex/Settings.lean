import SidecarIndex.Toml.Reader
import SidecarIndex.FileTree.Resolve
import SidecarIndex.Text.Basic

/-! # Settings

How side-cars are named, and whether links are followed while a tree is scanned. Settings come from
the environment, from a file in the tree and from a file of the user. Each is a layer that may leave
settings open, and what a layer leaves open is taken from the next. A layer with a fault makes the
settings unusable, even where an earlier layer has said everything. -/

namespace SidecarIndex

/-- The extension with a dot in front, added where it is missing. -/
def dotted (extension : String) : String :=
  if extension.toList.head? = some '.' then extension else "." ++ extension

theorem head?_dotted (extension : String) : (dotted extension).toList.head? = some '.' := by
  by_cases h : extension.toList.head? = some '.'
  · simp only [dotted, if_pos h]; exact h
  · simp only [dotted, if_neg h, String.toList_append]; rfl

structure Settings where
  extension : String := ".mdf"
  followLinks : Bool := false
  deriving DecidableEq

def Settings.dottedExtension (s : Settings) : String := dotted s.extension

/-! ### Layers -/

structure Layer where
  extension : Option String := none
  followLinks : Option Bool := none
  deriving DecidableEq

namespace Layer

/-- The first layer, with what it leaves open taken from the second. -/
def or (a b : Layer) : Layer := ⟨a.extension.or b.extension, a.followLinks.or b.followLinks⟩

def toSettings (a : Layer) : Settings :=
  let defaults : Settings := {}
  ⟨a.extension.getD defaults.extension, a.followLinks.getD defaults.followLinks⟩

/-! ### Files -/

def extensionKey : String := "sidecar_ext"

def followLinksKey : String := "follow_links"

def text? (file : Path) (key : String) (entries : Toml.Entries) :
    Except ConfigFault (Option String) :=
  match entries.get? key with
  | none => .ok none
  | some (.string s) => .ok (some s)
  | some _ => .error (.wrongType file key)

def boolean? (file : Path) (key : String) (entries : Toml.Entries) :
    Except ConfigFault (Option Bool) :=
  match entries.get? key with
  | none => .ok none
  | some (.boolean b) => .ok (some b)
  | some _ => .error (.wrongType file key)

/-- The layer of a file, given what reading it gave: a missing file says nothing. -/
def ofFile (file : Path) (found : Except FileFault String) : Except ConfigFault Layer :=
  match found with
  | .error .missing => .ok {}
  | .error fault => .error (.unreadable file fault)
  | .ok s =>
    match Toml.ofText? s with
    | none => .error (.malformed file)
    | some entries => do
      return ⟨← text? file extensionKey entries, ← boolean? file followLinksKey entries⟩

/-! ### The environment -/

def truthWords : List (String × Bool) :=
  [("1", true), ("true", true), ("yes", true), ("0", false), ("false", false), ("no", false)]

def truth? (s : String) : Option Bool :=
  truthWords.lookup (String.ofList (Text.fold (Text.trim s.toList)))

/-- The truth value of a variable. An empty text without a reading counts as unset. -/
def variableTruth? (key : String) : Option String → Except ConfigFault (Option Bool)
  | none => .ok none
  | some s =>
    match truth? s with
    | some b => .ok (some b)
    | none => if s.isEmpty then .ok none else .error (.environment key s)

end Layer

structure Environment where
  extension : Option String := none
  followLinks : Option String := none
  deriving DecidableEq

namespace Environment

def extensionVariable : String := "MEDINX_SIDECAR_EXT"

def followLinksVariable : String := "MEDINX_FOLLOW_LINKS"

/-- The layer of the environment; an empty extension is one. -/
def toLayer (e : Environment) : Except ConfigFault Layer := do
  return ⟨e.extension, ← Layer.variableTruth? followLinksVariable e.followLinks⟩

end Environment

structure SettingsFile where
  path : Path
  found : Except FileFault String

namespace Settings

def treeFile : String := ".medinx.toml"

/-- The settings for a root, from the environment, the tree and a file of the user. -/
def load (environment : Environment) (user : SettingsFile) (t : FileTree) (root : Path) :
    Except Error Settings := do
  let file := root.join ⟨treeFile⟩
  let first ← environment.toLayer.mapError .config
  let second ← (Layer.ofFile file (t.readText file)).mapError .config
  let third ← (Layer.ofFile user.path user.found).mapError .config
  return (first.or (second.or third)).toSettings

end Settings

end SidecarIndex

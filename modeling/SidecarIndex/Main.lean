import SidecarIndex.Command.Run

/-! # The command line

What a command looks at is read from disk into a tree, the command is run on the tree, and the files
it has changed are written back. -/

namespace SidecarIndex.Disk

/-! ### Reading a tree -/

def locationText (location : Location) : String := "/" ++ "/".intercalate location

def locationOf (path : String) : Location := (path.splitOn "/").filter (!·.isEmpty)

def onDisk (location : Location) : IO.FS.DirEntry :=
  ⟨⟨locationText location.dropLast⟩, location.getLast?.getD ""⟩

def typeAt? (location : Location) : IO (Option IO.FS.FileType) := do
  try return some (← (onDisk location).path.symlinkMetadata).type
  catch _ => return none

/-- Where a link ends, or nothing when it leads nowhere. -/
def destination? (location : Location) : IO (Option Location) := do
  try return some (locationOf (← IO.FS.realPath (onDisk location).path).toString)
  catch _ => return none

/-- Puts a node into a tree, in place of what stands there unless that is a folder. -/
def put (t : FileTree) (location : Location) (node : Node) : FileTree :=
  ((t.make ⟨locationText location⟩ node).toOption).getD t

def putLink (t : FileTree) (location : Location) (destination : Option Location) : FileTree :=
  let nowhere := locationText (location ++ ["missing"])
  put t location (.link ⟨(destination.map locationText).getD nowhere⟩)

def addFile (wanted : Bool) (t : FileTree) (location : Location) : IO FileTree := do
  if wanted then
    return put t location (.file (.ofBytes (← IO.FS.readBinFile (onDisk location).path)))
  else if (t.at? location).isSome then return t
  else return put t location (.file (.text ""))

/-- Puts what stands at a location on disk into a tree, with all below it and all that links lead
to. The content of a file is read where the path of the file, or of a link to it, is wanted. -/
partial def addAll (wanted : String → Bool) (wantedHere : Bool) (t : FileTree)
    (location : Location) : IO FileTree := do
  let wantedHere := wantedHere || wanted (locationText location)
  match ← typeAt? location with
  | none => return t
  | some .dir =>
    let mut t := put t location .folder
    for below in ← (onDisk location).path.readDir do
      let next := location ++ [below.fileName]
      if (t.at? next).isNone then t ← addAll wanted false t next
    return t
  | some .symlink =>
    let destination ← destination? location
    let t := putLink t location destination
    match destination with
    | some place => if t.isFolder place then return t else addAll wanted wantedHere t place
    | none => return t
  | some _ => addFile wantedHere t location

/-- Puts the folders and links that steps lead through into a tree, and a file at their end. Gives
the location they lead to, if they lead anywhere. -/
def addWay (t : FileTree) (location : Location) : List Component → IO (FileTree × Option Location)
  | [] => return (t, some location)
  | .root :: rest => addWay t [] rest
  | .current :: rest => addWay t location rest
  | .parent :: rest => addWay t location.dropLast rest
  | .named name :: rest => do
    let next := location ++ [name]
    match ← typeAt? next with
    | none => return (t, none)
    | some .dir => addWay (put t next .folder) next rest
    | some .symlink =>
      let destination ← destination? next
      let t := putLink t next destination
      match destination with
      | none => return (t, none)
      | some place =>
        match ← typeAt? place with
        | some .dir => addWay (put t place .folder) place rest
        | _ => return (← addFile rest.isEmpty t place, none)
    | some _ => return (← addFile rest.isEmpty t next, none)

/-- The tree that a command looks at: the way to its root, its file of settings, and all below the
root. -/
def treeFor (environment : Environment) (user : SettingsFile) (root : Path) : IO FileTree := do
  let start := locationOf (← IO.currentDir).toString
  let t := (put .empty start .folder).startingAt start
  let (t, place) ← addWay t start root.components
  let (t, _) ← addWay t start (root.join ⟨Settings.treeFile⟩).components
  match place, Settings.load environment user t root with
  | some place, .ok settings => addAll (·.endsWith settings.dottedExtension) false t place
  | _, _ => return t

/-! ### Settings -/

def settingsFolder? : IO (Option String) := do
  match ← IO.getEnv "XDG_CONFIG_HOME" with
  | some folder => if folder.startsWith "/" then return some folder
  | none => pure ()
  return (← IO.getEnv "HOME").map (· ++ "/.config")

def readSettings (path : Path) : IO (Except FileFault String) := do
  try
    match Content.ofBytes (← IO.FS.readBinFile ⟨path.text⟩) with
    | .text s => return .ok s
    | .bytes _ => return .error .noText
  catch
    | .noFileOrDirectory _ _ _ => return .error .missing
    | _ => return .error .noFolder

def userSettings : IO SettingsFile := do
  match ← settingsFolder? with
  | some folder =>
    let path : Path := ⟨folder ++ "/medinx/medinx.toml"⟩
    return ⟨path, ← readSettings path⟩
  | none => return ⟨⟨""⟩, .error .missing⟩

def environment : IO Environment := do
  return ⟨← IO.getEnv Environment.extensionVariable, ← IO.getEnv Environment.followLinksVariable⟩

/-! ### Writing -/

def token : IO String := do
  let bytes ← IO.getRandomBytes 12
  return String.join (bytes.toList.map fun b => String.ofList (padded 3 b.toNat))

def writeFile (name : String) (location : Location) (content : Content) : IO Unit := do
  let temporary := onDisk
    (location.dropLast ++ ["." ++ location.getLast?.getD "" ++ "-" ++ name ++ ".tmp"])
  IO.FS.writeBinFile temporary.path content.toByteArray
  IO.FS.rename temporary.path (onDisk location).path

def writeChanges (name : String) (before after : FileTree) : IO Unit :=
  after.files.forM fun (location, content) => do
    if before.at? location ≠ some (.file content) then writeFile name location content

end SidecarIndex.Disk

open SidecarIndex in
def main (arguments : List String) : IO UInt32 := do
  let environment ← Disk.environment
  let user ← Disk.userSettings
  let token ← Disk.token
  let t ← match Request.ofArguments? arguments with
    | some (.run command) => Disk.treeFor environment user command.root
    | _ => pure .empty
  let (report, after) := runArguments environment user { token } t arguments
  Disk.writeChanges token t after
  IO.print report.out
  IO.eprint report.err
  return report.code.toUInt32

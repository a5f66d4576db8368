import SidecarIndex.Command.Arguments
import SidecarIndex.Command.Listing
import SidecarIndex.Settings
import SidecarIndex.Store.Assign

/-! # Running commands

A command is run on a tree and gives a report: what is printed, and a code that is zero when all
went well. Only setting an attribute changes the tree. -/

namespace SidecarIndex

structure Report where
  code : UInt8 := 0
  out : String := ""
  err : String := ""
  deriving DecidableEq

namespace Report

def ofError (e : Error) : Report := { code := 1, err := "Error: " ++ e.message ++ "\n" }

def ofText : Except Error String → Report
  | .ok text => { out := text }
  | .error e => ofError e

/-- The report of a check: it fails with problems, and prints them all. -/
def ofProblems : Except Error (List Error) → Report
  | .ok [] => { out := "All side-cars are valid.\n" }
  | .ok problems => { code := 1, out := Listing.problems problems }
  | .error e => ofError e

def misuse : Report :=
  { code := 2
    err := "Usage: medinx [--root DIR] [-v] list [QUERY...] | show PATH | attrs"
      ++ " | set PATH ATTRIBUTE VALUES | check\n" }

def version : Report := { out := "medinx 0.3.0\n" }

end Report

/-- What a command meets in a system besides the tree: the order in which folders are listed, the
token for temporary files, and what is refused of a write. -/
structure System where
  order : WalkOrder := .byName
  token : String
  refused : Option FileTree.Refusal := none

namespace Store

def listPaths (s : Store) (order : WalkOrder) (t : FileTree) (query : List String) :
    Except Error String := do
  let (c, view) ← s.load order t
  return Listing.paths (← c.filter view (" ".intercalate query)).paths

def describe (s : Store) (order : WalkOrder) (t : FileTree) (path : Path) :
    Except Error String := do
  let (c, view) ← s.load order t
  match c.find? view path with
  | some d => .ok (Listing.document path d)
  | none => .error (.notFound path)

def listAttributes (s : Store) (order : WalkOrder) (t : FileTree) : Except Error String := do
  return Listing.attributes (← s.load order t).1.registry

end Store

namespace Task

def run (s : Store) (system : System) (t : FileTree) : Task → Report × FileTree
  | list query => (.ofText (s.listPaths system.order t query), t)
  | describe path => (.ofText (s.describe system.order t path.normalized), t)
  | attributes => (.ofText (s.listAttributes system.order t), t)
  | assign path name text =>
    let (outcome, t) :=
      s.assign system.order system.token system.refused t path.normalized name text
    (.ofText (outcome.map fun _ => s!"Updated {name} of {path.normalized.text}\n"), t)
  | check => (.ofProblems (s.check system.order t), t)

end Task

def Command.run (environment : Environment) (user : SettingsFile) (system : System) (t : FileTree)
    (command : Command) : Report × FileTree :=
  match Settings.load environment user t command.root with
  | .error e => (.ofError e, t)
  | .ok settings => command.task.run (.ofSettings command.root settings) system t

def runArguments (environment : Environment) (user : SettingsFile) (system : System) (t : FileTree)
    (arguments : List String) : Report × FileTree :=
  match Request.ofArguments? arguments with
  | none => (.misuse, t)
  | some .version => (.version, t)
  | some (.run command) => command.run environment user system t

end SidecarIndex

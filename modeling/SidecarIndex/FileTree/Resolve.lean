import SidecarIndex.FileTree.Basic
import SidecarIndex.Error

/-! # Following paths

A path leads through a tree step by step, and through the links that stand on its way. At most forty
links are followed for one path, those on the ways to which links lead included, and a path is at
most 4095 bytes long. -/

namespace SidecarIndex

inductive Ending where
  | node
  | spot
  deriving DecidableEq

namespace FileTree

/-- Follows steps from a location. Where a link leads together with the steps behind it is asked of
`onLink`, given the folder of the link. -/
def walkFrom (t : FileTree) (onLink : Location → List Component → Except FileFault Location)
    (ending : Ending) : Location → List Component → Except FileFault Location
  | location, [] => .ok location
  | location, step :: rest =>
    match step with
    | .root => walkFrom t onLink ending [] rest
    | .current =>
      if t.isFolder location then walkFrom t onLink ending location rest else .error .noFolder
    | .parent =>
      if t.isFolder location then walkFrom t onLink ending location.dropLast rest
      else .error .noFolder
    | .named name =>
      if !t.isFolder location then .error .noFolder
      else if ¬ IsFileName name then .error .nameTooLong
      else match t.at? (location ++ [name]) with
        | none =>
          if rest.isEmpty && ending == .spot then .ok (location ++ [name]) else .error .missing
        | some (.link target) => onLink location (target.walk ++ rest)
        | some _ => walkFrom t onLink ending (location ++ [name]) rest

/-- Follows steps from a location through at most so many links. -/
def walk (t : FileTree) (ending : Ending) : Nat → Location → List Component →
    Except FileFault Location
  | 0 => walkFrom t (fun _ _ => .error .tooManyLinks) ending
  | links + 1 => walkFrom t (walk t ending links) ending

def linkLimit : Nat := 40

def pathLimit : Nat := 4095

def stepsOf (path : Path) : Except FileFault (List Component) :=
  if path.text = "" then .error .missing
  else if '\x00' ∈ path.text.toList then .error .zeroCharacter
  else if pathLimit < path.text.utf8ByteSize then .error .nameTooLong
  else .ok path.walk

def resolve (t : FileTree) (ending : Ending) (path : Path) : Except FileFault Location := do
  t.walk ending linkLimit t.workingFolder (← stepsOf path)

def read (t : FileTree) (path : Path) : Except FileFault Node := do
  match t.at? (← t.resolve .node path) with
  | some node => .ok node
  | none => .error .missing

def leadsSomewhere (t : FileTree) (path : Path) : Bool := (t.resolve .node path).isOk

def readText (t : FileTree) (path : Path) : Except FileFault String := do
  match ← t.read path with
  | .file (.text s) => .ok s
  | .file (.bytes _) => .error .noText
  | .folder => .error .isFolder
  | .link _ => .error .tooManyLinks

end FileTree

end SidecarIndex

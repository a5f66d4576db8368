import SidecarIndex.Path

/-! # Commands and their arguments

Arguments are taken one by one from the left. A word names the task, and options stand in front of
it or behind it; those behind it win. What starts with a hyphen is an option, up to an argument of
two hyphens: after that everything is an operand of the task. -/

namespace SidecarIndex

/-! ### Commands -/

inductive Task where
  | list (query : List String)
  | describe (path : Path)
  | attributes
  | assign (path : Path) (name text : String)
  | check
  deriving DecidableEq

structure Command where
  root : Path
  verbose : Bool
  task : Task
  deriving DecidableEq

inductive Request where
  | version
  | run (command : Command)
  deriving DecidableEq

/-! ### Single arguments -/

inductive Argument where
  | operandsOnly
  | named (name : List Char) (value : Option (List Char))
  | letters (s : List Char)
  | word (s : String)
  deriving DecidableEq

namespace Argument

def ofNamed (s : List Char) : Argument :=
  match s.span (· ≠ '=') with
  | (name, []) => named name none
  | (name, _ :: value) => named name (some value)

/-- The form of an argument; a hyphen alone is a word. -/
def ofText (s : String) : Argument :=
  match s.toList with
  | ['-', '-'] => operandsOnly
  | '-' :: '-' :: rest => ofNamed rest
  | ['-'] => word s
  | '-' :: rest => letters rest
  | _ => word s

end Argument

/-! ### Tasks by name -/

inductive TaskName where
  | list | describe | attributes | assign | check
  deriving DecidableEq

namespace TaskName

def words : List (String × TaskName) :=
  [("list", list), ("ls", list), ("show", describe), ("attrs", attributes), ("set", assign),
   ("check", check)]

def ofWord? (word : String) : Option TaskName := words.lookup word

def path? (word : String) : Option Path := if word.isEmpty then none else some ⟨word⟩

def withOperands? : TaskName → List String → Option Task
  | list, operands => some (.list operands)
  | describe, [path] => (path? path).map .describe
  | attributes, [] => some .attributes
  | assign, [path, name, text] => (path? path).map fun p => .assign p name text
  | check, [] => some .check
  | _, _ => none

end TaskName

/-! ### Reading -/

structure Options where
  root : Option Path := none
  verbose : Bool := false
  deriving DecidableEq

namespace Options

def setRoot? (o : Options) (value : String) : Option Options :=
  if value.isEmpty ∨ o.root.isSome then none else some { o with root := some ⟨value⟩ }

def setVerbose? (o : Options) : Option Options :=
  if o.verbose then none else some { o with verbose := true }

end Options

structure Reading where
  before : Options := {}
  name : Option TaskName := none
  behind : Options := {}
  operands : List String := []
  rootExpected : Bool := false
  operandsOnly : Bool := false
  deriving DecidableEq

/-- Why reading ends early: the version was asked for, or the arguments make no sense. -/
inductive Reading.Stop where
  | version
  | misuse
  deriving DecidableEq

namespace Reading

def orMisuse (found : Option α) : Except Stop α :=
  match found with
  | some a => .ok a
  | none => .error .misuse

def setOption (r : Reading) (set : Options → Option Options) : Except Stop Reading :=
  match r.name with
  | none => do return { r with before := ← orMisuse (set r.before) }
  | some _ => do return { r with behind := ← orMisuse (set r.behind) }

def takeWord (r : Reading) (word : String) : Except Stop Reading :=
  match r.name with
  | some _ => .ok { r with operands := r.operands ++ [word] }
  | none =>
    if r.operandsOnly then .error .misuse
    else do return { r with name := some (← orMisuse (TaskName.ofWord? word)) }

def version (r : Reading) : Stop := if r.name.isNone then .version else .misuse

def takeLetter (r : Reading) (letter : Char) : Except Stop Reading :=
  if letter = 'v' then r.setOption Options.setVerbose?
  else if letter = 'V' then .error r.version
  else .error .misuse

def takeNamed (r : Reading) (name : List Char) (value : Option (List Char)) : Except Stop Reading :=
  match String.ofList name, value with
  | "root", none => .ok { r with rootExpected := true }
  | "root", some value => r.setOption (Options.setRoot? · (String.ofList value))
  | "verbose", none => r.setOption Options.setVerbose?
  | "version", none => .error r.version
  | _, _ => .error .misuse

def take (r : Reading) (argument : String) : Except Stop Reading :=
  if r.operandsOnly then r.takeWord argument
  else match r.rootExpected, Argument.ofText argument with
    | true, .word s => { r with rootExpected := false }.setOption (Options.setRoot? · s)
    | true, _ => .error .misuse
    | false, .word s => r.takeWord s
    | false, .operandsOnly => .ok { r with operandsOnly := true }
    | false, .named name value => r.takeNamed name value
    | false, .letters s => s.foldlM takeLetter r

def command? (r : Reading) : Option Command := do
  if r.rootExpected then none
  let task ← (← r.name).withOperands? r.operands
  let root := (r.behind.root.or r.before.root).getD ⟨"."⟩
  return ⟨root, r.before.verbose || r.behind.verbose, task⟩

end Reading

def Request.ofArguments? (arguments : List String) : Option Request :=
  match arguments.foldlM Reading.take {} with
  | .ok r => r.command?.map .run
  | .error .version => some .version
  | .error .misuse => none

end SidecarIndex

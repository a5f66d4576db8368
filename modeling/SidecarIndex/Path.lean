/-! # Paths

A path keeps the text it was given as, and is compared by its components: repeated slashes, slashes
at the end, and dots other than at the start do not count. `..` is kept, as what it leads to depends
on the tree. -/

namespace SidecarIndex

inductive Component where
  | root
  | current
  | parent
  | named (name : String)
  deriving DecidableEq

namespace Component

def text : Component → String
  | root => "/"
  | current => "."
  | parent => ".."
  | named name => name

def rank : Component → Nat
  | root => 0
  | current => 1
  | parent => 2
  | named _ => 3

def compare (a b : Component) : Ordering :=
  match a, b with
  | named m, named n => Ord.compare m n
  | a, b => Ord.compare a.rank b.rank

/-- The step that stands between two slashes, if any does. -/
def ofPiece? (piece : List Char) : Option Component :=
  if piece = [] ∨ piece = ['.'] then none
  else if piece = ['.', '.'] then some parent
  else some (named (String.ofList piece))

/-- The order of two lists of steps: by the first step that differs. -/
def compareList : List Component → List Component → Ordering
  | [], [] => .eq
  | [], _ :: _ => .lt
  | _ :: _, [] => .gt
  | a :: as, b :: bs => (a.compare b).then (compareList as bs)

end Component

structure Path where
  text : String
  deriving DecidableEq

namespace Path

def components (p : Path) : List Component :=
  let pieces := p.text.toList.splitOn '/'
  let inner := pieces.filterMap Component.ofPiece?
  match pieces with
  | [] :: _ :: _ => .root :: inner
  | ['.'] :: _ => .current :: inner
  | _ => inner

/-- The steps that lead along a path in a tree. A slash, and a dot, stay in a place that has to be a
folder. -/
def walk (p : Path) : List Component :=
  let step (piece : List Char) : Component := (Component.ofPiece? piece).getD .current
  match p.text.toList.splitOn '/' with
  | [[]] => []
  | [] :: pieces => .root :: pieces.map step
  | pieces => pieces.map step

/-- The pieces between slashes up to the last that is a step. -/
def upToStep (pieces : List (List Char)) : List (List Char) :=
  (pieces.reverse.dropWhile fun piece => (Component.ofPiece? piece).isNone).reverse

/-- The pieces between slashes up to the step before the last one. -/
def aboveStep (pieces : List (List Char)) : List (List Char) := upToStep (upToStep pieces).dropLast

/-- The path of what the last step of a path starts from: its text up to the step before. -/
def parent (p : Path) : Path :=
  let text (pieces : List (List Char)) := String.ofList (['/'].intercalate pieces)
  match p.text.toList.splitOn '/' with
  | [[]] => p
  | [] :: pieces => ⟨"/" ++ text (aboveStep pieces)⟩
  | ['.'] :: pieces =>
    if upToStep pieces = [] then ⟨""⟩ else ⟨text (['.'] :: aboveStep pieces)⟩
  | pieces => ⟨text (aboveStep pieces)⟩

def same (p q : Path) : Bool := p.components == q.components

def compare (p q : Path) : Ordering := Component.compareList p.components q.components

def isAbsolute (p : Path) : Bool := p.text.toList.head? == some '/'

def endsInSlash (p : Path) : Bool := p.text.toList.getLast? == some '/'

/-- The path `p` as seen from `base`: an absolute one stands for itself, any other is put behind the
text of `base`. -/
def join (base p : Path) : Path :=
  if p.isAbsolute ∨ base.text = "" then p
  else if base.endsInSlash then ⟨base.text ++ p.text⟩
  else ⟨base.text ++ "/" ++ p.text⟩

def ofComponents (steps : List Component) : Path :=
  steps.foldl (fun p step => p.join ⟨step.text⟩) ⟨""⟩

def normalized (p : Path) : Path := ofComponents (p.components.filter (· ≠ .current))

/-- The steps of `p` after those of `base`, when it starts with them. -/
def stepsAfter? (base p : Path) : Option (List Component) :=
  base.components.isPrefixOf? p.components

/-- The pieces from the next step on behind so many steps. -/
def behindSteps : Nat → List (List Char) → List (List Char)
  | _, [] => []
  | 0, piece :: rest =>
    if (Component.ofPiece? piece).isNone then behindSteps 0 rest else piece :: rest
  | count + 1, piece :: rest =>
    if (Component.ofPiece? piece).isNone then behindSteps (count + 1) rest
    else behindSteps count rest

/-- The pieces from the next step on behind the first component and so many others. -/
def behind (p : Path) (count : Nat) : List (List Char) :=
  match p.text.toList.splitOn '/' with
  | [] :: second :: rest => behindSteps count (second :: rest)
  | ['.'] :: rest => behindSteps count rest
  | pieces => behindSteps (count + 1) pieces

/-- A path up to its last step. A slash or a dot at its beginning stays. -/
def trimmed (p : Path) : Path :=
  match p.text.toList.splitOn '/' with
  | [] => p
  | first :: rest =>
    if first = [] ∧ upToStep rest = [] then ⟨String.ofList (p.text.toList.take 1)⟩
    else ⟨String.ofList (['/'].intercalate (first :: upToStep rest))⟩

/-- The path `p` from the step after those of `base` up to its last one, when it starts with the
steps of `base`. -/
def after? (base p : Path) : Option Path :=
  (stepsAfter? base p).map fun _ =>
    match base.components with
    | [] => p.trimmed
    | _ :: others => ⟨String.ofList (['/'].intercalate (upToStep (p.behind others.length)))⟩

theorem same_iff {p q : Path} : p.same q = true ↔ p.components = q.components := by
  simp [same]

end Path

/-- A path as the system has it: bytes, which need not be those of a text. -/
structure RawPath where
  bytes : ByteArray

namespace RawPath

def path? (p : RawPath) : Option Path := (String.fromUTF8? p.bytes).map Path.mk

end RawPath

def Path.raw (p : Path) : RawPath := ⟨p.text.toUTF8⟩

end SidecarIndex

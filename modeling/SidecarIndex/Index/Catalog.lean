import SidecarIndex.Registry
import SidecarIndex.Document.Reader
import SidecarIndex.Query.Reader
import SidecarIndex.Query.Selection

/-! # Catalogs and views

A catalog holds the documents of an index and the registry of their types. A view is a list of
paths, each with the slot of its document in the catalog, so that all views of one catalog show the
same documents: what is set through one view is seen in all of them. -/

namespace SidecarIndex

structure Entry where
  path : Path
  slot : Nat
  deriving DecidableEq

abbrev View := List Entry

structure Catalog where
  documents : List Document
  registry : Registry
  deriving DecidableEq

namespace View

def paths (view : View) : List Path := view.map Entry.path

def entry? (view : View) (path : Path) : Option Entry :=
  List.find? (fun entry => entry.path.same path) view

end View

namespace Catalog

def empty : Catalog := ⟨[], Registry.empty⟩

instance : Inhabited Catalog := ⟨empty⟩

/-- The document in a slot; an empty one where there is no such slot. -/
def document (c : Catalog) (slot : Nat) : Document := c.documents.getD slot Document.empty

/-- The entries of a list of paths, with slots counted from `first`. -/
def entriesFrom (first : Nat) : List (Path × Document) → View
  | [] => []
  | (path, _) :: rest => ⟨path, first⟩ :: entriesFrom (first + 1) rest

def build (entries : List (Path × Document)) : Except Error (Catalog × View) := do
  let registry ← Registry.ofEntries entries
  return (⟨entries.map Prod.snd, registry⟩, entriesFrom 0 entries)

/-- Reads the text of each side-car; the first that is no document is reported with its path. -/
def readSources (sources : List (Path × String)) : Except Error (List (Path × Document)) :=
  sources.mapM fun source =>
    match Document.ofText source.2 with
    | .ok d => .ok (source.1, d)
    | .error e => .error (.invalidDocument source.1 (.document e))

def ofSources (sources : List (Path × String)) : Except Error (Catalog × View) := do
  build (← readSources sources)

/-! ### Views -/

def select (c : Catalog) (view : View) (predicates : List Predicate) : View :=
  view.filter fun entry => Query.accepts predicates (c.document entry.slot)

def filter (c : Catalog) (view : View) (query : String) : Except Error View :=
  match Query.ofText query with
  | .ok predicates => .ok (c.select view predicates)
  | .error fault => .error (.predicateFormat fault)

def find? (c : Catalog) (view : View) (path : Path) : Option Document :=
  (view.entry? path).map fun entry => c.document entry.slot

def metadata (c : Catalog) (view : View) (path : Path) : Document :=
  (c.find? view path).getD Document.empty

def contents (c : Catalog) (view : View) : List (Path × Document) :=
  view.map fun entry => (entry.path, c.document entry.slot)

/-! ### Setting attributes -/

def setAt (c : Catalog) (slot : Nat) (name : String) (values : List Value) : Catalog :=
  { c with documents := c.documents.modify slot fun d => d.set name values }

/-- The fault of a value that no side-car can hold. -/
def storeFault? : Value → Option ValueFault
  | .text s => if isPlainLiteral s.toList then none else some (.text s)
  | .number n => if n.isFinite then none else some (.number n)
  | _ => none

theorem storeFault?_eq_none_iff (v : Value) : storeFault? v = none ↔ v.isStorable = true := by
  cases v <;> simp [storeFault?, Value.isStorable]

/-- Replaces the values of an attribute in the first entry of a view with a path. The entry has to
be there, the name has to be a name, the values of one variant and that the recorded one, and each
value storable. Then the attribute is recorded; in any other case nothing changes. -/
def setAttribute (c : Catalog) (view : View) (path : Path) (name : String) (values : List Value) :
    Except Error Catalog := do
  match view.entry? path with
  | none => .error (.notFound path)
  | some entry =>
    if !isName name.toList then .error (.problem (.attributeFormat name))
    else
      let found ← c.registry.checkValues path name values
      match values.findSome? storeFault? with
      | some fault => .error (.problem (.valueFormat fault))
      | none =>
        .ok ({ c with registry := c.registry.register name found }.setAt entry.slot name values)

/-! ### Completions -/

def completes (typed text : String) : Bool := typed.toList.isPrefixOf text.toList

/-- The texts that start with what has been typed, in order and without repeats. -/
def completions (typed : String) (texts : List String) : List String :=
  (OrderedMap.ofList ((texts.filter (completes typed)).map fun text => (text, ()))).keys

def completeAttributes (c : Catalog) (view : View) (typed : String) : List String :=
  completions typed ((c.contents view).flatMap fun entry => entry.2.names)

def completeValues (c : Catalog) (view : View) (typed : String) (name? : Option String) :
    List String :=
  completions typed <|
    (c.contents view).flatMap fun entry =>
      (entry.2.entries.filter fun attr => name?.all (· == attr.1)).flatMap fun attr =>
        attr.2.map Value.shown

end Catalog

end SidecarIndex

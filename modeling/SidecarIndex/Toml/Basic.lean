import SidecarIndex.Number.Basic

/-! # TOML tables

A TOML text holds one table: values under keys, some of them tables again. Its statements are
carried out one after the other. A header opens a table, once and for all, or lists one more; a key
puts a value into the table of the last header, and no key is given a second value. -/

namespace SidecarIndex

/-- How a table was written, on which depends what may be added to it later on. -/
inductive TableForm where
  | headed
  | implied
  | dotted
  | braced
  deriving DecidableEq

inductive Toml where
  | string (s : String)
  | boolean (b : Bool)
  | integer (n : Int)
  | float (n : Number)
  | moment (s : String)
  | array (items : List Toml)
  | table (form : TableForm) (entries : List (String × Toml))
  | listed (tables : List (List (String × Toml)))

namespace Toml

abbrev Entries := List (String × Toml)

def Entries.get? (entries : Entries) (key : String) : Option Toml :=
  (entries.find? fun entry => entry.1 = key).map Prod.snd

/-! ### Changing tables -/

namespace Entries

/-- Changes the value under a key, or adds one under it. -/
def alter? (key : String) (change : Option Toml → Option Toml) : Entries → Option Entries
  | [] => (change none).map fun v => [(key, v)]
  | (k, v) :: rest =>
    if k = key then (change (some v)).map fun w => (k, w) :: rest
    else (alter? key change rest).map ((k, v) :: ·)

def put? (key : String) (v : Toml) (entries : Entries) : Option Entries :=
  entries.alter? key fun
    | none => some v
    | some _ => none

def alterLast? (change : Entries → Option Entries) (tables : List Entries) : Option Toml := do
  return listed (tables.dropLast ++ [← change (← tables.getLast?)])

/-- Changes what a step of a header leads to: a table, or the last of the tables listed. A missing
table is made; nothing is added to a table in braces. -/
def passHeader? (change : Entries → Option Entries) : Option Toml → Option Toml
  | none => (change []).map (table .implied)
  | some (table form entries) => if form = .braced then none else (change entries).map (table form)
  | some (listed tables) => alterLast? change tables
  | some _ => none

def within? : List String → (Entries → Option Entries) → Entries → Option Entries
  | [], change, entries => change entries
  | key :: path, change, entries => entries.alter? key (passHeader? (within? path change))

/-- Changes what a step of a dotted key leads to: a table of dotted keys, and before the last of
these steps also a table that is a step of headers only, or the last of the tables listed. -/
def passKey? (isLast : Bool) (change : Entries → Option Entries) : Option Toml → Option Toml
  | none => (change []).map (table .dotted)
  | some (table form entries) =>
    if form = .dotted ∨ (form = .implied ∧ ¬ isLast) then (change entries).map (table form)
    else none
  | some (listed tables) => if isLast then none else alterLast? change tables
  | some _ => none

/-- Gives a dotted key its value: all its steps but the last lead to the table. -/
def putAt? : List String → Toml → Entries → Option Entries
  | [], _, _ => none
  | [key], v, entries => entries.put? key v
  | step :: key :: path, v, entries =>
    entries.alter? step (passKey? path.isEmpty (putAt? (key :: path) v))

end Entries

/-! ### Statements -/

inductive Statement where
  | header (path : List String)
  | listHeader (path : List String)
  | entry (path : List String) (v : Toml)

/-- Opens the table under a key: a new one, or one that was a step of a header only. -/
def openTable? : Option Toml → Option Toml
  | none => some (table .headed [])
  | some (table .implied entries) => some (table .headed entries)
  | some _ => none

def listTable? : Option Toml → Option Toml
  | none => some (listed [[]])
  | some (listed tables) => some (listed (tables ++ [[]]))
  | some _ => none

def openAt? (path : List String) (change : Option Toml → Option Toml) (entries : Entries) :
    Option Entries :=
  match path.getLast? with
  | some key => entries.within? path.dropLast (Entries.alter? key change)
  | none => none

/-- Carries out statements, given the path of the header they stand under. -/
def build? : List String → Entries → List Statement → Option Entries
  | _, entries, [] => some entries
  | under, entries, statement :: rest =>
    match statement with
    | .header path => do build? path (← openAt? path openTable? entries) rest
    | .listHeader path => do build? path (← openAt? path listTable? entries) rest
    | .entry path v => do
      build? under (← entries.within? under (Entries.putAt? path v)) rest

end Toml

end SidecarIndex

import SidecarIndex.Document.Basic
import SidecarIndex.Error

/-! # Registry of types

Every attribute has one variant in all documents of an index. The registry records it, once the
first value of the attribute has been seen; an attribute without any value is recorded without a
variant. -/

namespace SidecarIndex

structure Registry where
  types : NameMap (Option Variant)
  deriving DecidableEq

namespace Registry

def empty : Registry := ⟨OrderedMap.empty⟩

instance : Inhabited Registry := ⟨empty⟩

def variant? (r : Registry) (name : String) : Option Variant := (r.types.get? name).join

def contains (r : Registry) (name : String) : Bool := r.types.contains name

def names (r : Registry) : List String := r.types.keys

def unknown (r : Registry) : List String :=
  (r.types.entries.filter fun entry => entry.2.isNone).map Prod.fst

/-- Records an attribute. A variant that is known stays. -/
def register (r : Registry) (name : String) (found : Option Variant) : Registry :=
  match r.types.get? name with
  | some (some _) => r
  | some none => if found.isSome then ⟨r.types.insert name found⟩ else r
  | none => ⟨r.types.insert name found⟩

/-- Recording an attribute settles its variant, unless it was known, and touches no other. -/
theorem variant?_register (r : Registry) (name other : String) (found : Option Variant) :
    (r.register name found).variant? other =
      if other = name then (r.variant? name).or found else r.variant? other := by
  simp only [register, variant?]
  split
  · rename_i h
    split
    · rename_i heq; subst heq; simp [h]
    · rfl
  · rename_i h
    split
    · simp only [OrderedMap.get?_insert]
      split <;> simp [h]
    · rename_i hnone
      cases found with
      | some v => simp at hnone
      | none =>
        split
        · rename_i heq; subst heq; simp [h]
        · rfl
  · rename_i h
    simp only [OrderedMap.get?_insert]
    split <;> simp [h]

/-- A variant found at a path must be the recorded one, when both are known. -/
def check (r : Registry) (path : Path) (name : String) (found : Option Variant) :
    Except Error Unit :=
  match r.variant? name, found with
  | some registered, some found =>
    if registered = found then .ok ()
    else .error (.typeConsistency name path registered found)
  | _, _ => .ok ()

def observe (r : Registry) (path : Path) (name : String) (values : List Value) :
    Except Error Registry := do
  let found := values.head?.map Value.variant
  r.check path name found
  return r.register name found

def checkValues (r : Registry) (path : Path) (name : String) (values : List Value) :
    Except Error (Option Variant) := do
  match commonVariant values with
  | .error (first, other) => .error (.problem (.typeHomogeneity name first other))
  | .ok found =>
    r.check path name found
    return found

def observeDocument (r : Registry) (path : Path) (d : Document) : Except Error Registry :=
  d.entries.foldlM (fun r entry => r.observe path entry.1 entry.2) r

/-- The registry of a list of documents with their paths. The first attribute whose variant differs
from the recorded one is reported. -/
def ofEntries (entries : List (Path × Document)) : Except Error Registry :=
  entries.foldlM (fun r entry => r.observeDocument entry.1 entry.2) empty

end Registry

end SidecarIndex

/-! # Ordered maps

A map keeps its entries in the order of their keys and holds each key once, so that two maps with
the same entries are equal. -/

namespace SidecarIndex

/-- Keys that stand in an order: of two different ones, one comes first. -/
class KeyOrder (κ : Type u) [LT κ] : Prop where
  trans : ∀ {a b c : κ}, a < b → b < c → a < c
  total : ∀ {a b : κ}, ¬ a < b → a ≠ b → b < a

instance : KeyOrder String where
  trans := Std.lt_trans
  total h hne := Std.lt_of_le_of_ne (Std.not_lt.1 h) (Ne.symm hne)

instance : KeyOrder (List String) where
  trans := Std.lt_trans
  total h hne := Std.lt_of_le_of_ne (Std.not_lt.1 h) (Ne.symm hne)

namespace OrderedMap.Entries

variable {κ : Type u} {α : Type v} [LT κ] [DecidableLT κ] [DecidableEq κ]

/-- Puts a value under a key into a list in the order of the keys, in place of the one there. -/
def insert (key : κ) (value : α) : List (κ × α) → List (κ × α)
  | [] => [(key, value)]
  | entry :: rest =>
    if key < entry.1 then (key, value) :: entry :: rest
    else if key = entry.1 then (key, value) :: rest
    else entry :: insert key value rest

theorem mem_insert {key : κ} {value : α} {entries : List (κ × α)} {e : κ × α}
    (h : e ∈ insert key value entries) : e = (key, value) ∨ e ∈ entries := by
  induction entries with
  | nil => simpa [insert] using h
  | cons entry rest ih =>
    simp only [insert] at h
    split at h
    · simpa using h
    · split at h
      · rcases List.mem_cons.1 h with h | h
        · exact .inl h
        · exact .inr (List.mem_cons_of_mem _ h)
      · rcases List.mem_cons.1 h with h | h
        · exact .inr (h ▸ List.mem_cons_self ..)
        · exact (ih h).imp id (List.mem_cons_of_mem _)

theorem sorted_insert [KeyOrder κ] (key : κ) (value : α)
    {entries : List (κ × α)} (h : entries.Pairwise fun a b => a.1 < b.1) :
    (insert key value entries).Pairwise fun a b => a.1 < b.1 := by
  induction entries with
  | nil => simp [insert]
  | cons entry rest ih =>
    obtain ⟨hhead, htail⟩ := List.pairwise_cons.1 h
    simp only [insert]
    split
    · rename_i hlt
      refine List.pairwise_cons.2 ⟨?_, h⟩
      intro e he
      rcases List.mem_cons.1 he with rfl | he
      · exact hlt
      · exact KeyOrder.trans hlt (hhead e he)
    · rename_i hnot
      split
      · rename_i heq
        refine List.pairwise_cons.2 ⟨?_, htail⟩
        intro e he
        show key < e.1
        rw [heq]
        exact hhead e he
      · rename_i hne
        refine List.pairwise_cons.2 ⟨?_, ih htail⟩
        intro e he
        rcases mem_insert he with rfl | he
        · exact KeyOrder.total hnot hne
        · exact hhead e he

omit [LT κ] [DecidableLT κ] in
theorem lookup_cons (key other : κ) (value : α) (rest : List (κ × α)) :
    ((key, value) :: rest).lookup other = if other = key then
      some value else rest.lookup other := by
  by_cases h : other = key
  · rw [List.lookup_cons, h, beq_self_eq_true, if_pos rfl]
  · rw [List.lookup_cons, beq_false_of_ne h, if_neg h]

theorem lookup_insert (key other : κ) (value : α) (entries : List (κ × α)) :
    (insert key value entries).lookup other =
      if other = key then some value else entries.lookup other := by
  induction entries with
  | nil => rw [insert, lookup_cons]
  | cons entry rest ih =>
    obtain ⟨first, old⟩ := entry
    simp only [insert]
    split
    · rw [lookup_cons]
    · split
      · rename_i heq
        have heq : key = first := heq
        subst heq
        rw [lookup_cons, lookup_cons]
        split <;> rfl
      · rename_i hne
        rw [lookup_cons, lookup_cons, ih]
        split
        · rename_i hkey
          rw [if_neg fun h => hne (h.symm.trans hkey)]
        · rfl

omit [LT κ] [DecidableLT κ] in
theorem lookup_filter (key other : κ) (entries : List (κ × α)) :
    (entries.filter fun entry => entry.1 ≠ key).lookup other =
      if other = key then none else entries.lookup other := by
  induction entries with
  | nil => simp
  | cons entry rest ih =>
    obtain ⟨first, value⟩ := entry
    by_cases h : first = key
    · subst h
      simp only [List.filter_cons, ne_eq, not_true, decide_false, Bool.false_eq_true, if_false]
      rw [lookup_cons, ih]
      split <;> rfl
    · simp only [List.filter_cons, ne_eq, h, not_false_eq_true, decide_true, if_true]
      rw [lookup_cons, lookup_cons, ih]
      by_cases ho : other = first
      · subst ho
        rw [if_pos rfl, if_neg h, if_pos rfl]
      · rw [if_neg ho, if_neg ho]

end OrderedMap.Entries

structure OrderedMap (κ : Type u) [LT κ] (α : Type v) where
  entries : List (κ × α)
  sorted : entries.Pairwise fun a b => a.1 < b.1

abbrev NameMap (α : Type v) := OrderedMap String α

namespace OrderedMap

variable {κ : Type u} {α : Type v} [LT κ]

def empty : OrderedMap κ α := ⟨[], List.Pairwise.nil⟩

instance : Inhabited (OrderedMap κ α) := ⟨empty⟩

instance [DecidableEq κ] [DecidableEq α] : DecidableEq (OrderedMap κ α) := fun a b =>
  decidable_of_iff (a.entries = b.entries) (by cases a; cases b; simp)

def keys (m : OrderedMap κ α) : List κ := m.entries.map Prod.fst

def size (m : OrderedMap κ α) : Nat := m.entries.length

def isEmpty (m : OrderedMap κ α) : Bool := m.entries.isEmpty

def filter (m : OrderedMap κ α) (keep : κ × α → Bool) : OrderedMap κ α :=
  ⟨m.entries.filter keep, m.sorted.filter keep⟩

variable [DecidableEq κ]

def get? (m : OrderedMap κ α) (key : κ) : Option α := m.entries.lookup key

def contains (m : OrderedMap κ α) (key : κ) : Bool := (m.get? key).isSome

def erase (m : OrderedMap κ α) (key : κ) : OrderedMap κ α := m.filter fun entry => entry.1 ≠ key

@[simp] theorem get?_empty (key : κ) : (empty : OrderedMap κ α).get? key = none := rfl

theorem get?_erase (m : OrderedMap κ α) (key other : κ) :
    (m.erase key).get? other = if other = key then none else m.get? other :=
  Entries.lookup_filter key other m.entries

variable [DecidableLT κ] [KeyOrder κ]

def insert (m : OrderedMap κ α) (key : κ) (value : α) : OrderedMap κ α :=
  ⟨Entries.insert key value m.entries, Entries.sorted_insert key value m.sorted⟩

/-- The map of a list of pairs; of two values under one key the later stays. -/
def ofList (pairs : List (κ × α)) : OrderedMap κ α :=
  pairs.foldl (fun m pair => m.insert pair.1 pair.2) empty

theorem get?_insert (m : OrderedMap κ α) (key other : κ) (value : α) :
    (m.insert key value).get? other = if other = key then some value else m.get? other :=
  Entries.lookup_insert key other value m.entries

end OrderedMap

end SidecarIndex

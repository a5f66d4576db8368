import SidecarIndex.OrderedMap

/-! # Laws of ordered maps

A map is seen through its look-up. As every key stands once and the keys stand in order, the entries
are exactly the pairs that a look-up finds, and the look-up alone fixes the map. -/

namespace SidecarIndex.OrderedMap

variable {κ : Type u} {α : Type v}

/-! ### Entries and look-up -/

theorem Entries.mem_of_lookup [DecidableEq κ] {entries : List (κ × α)} {key : κ} {value : α}
    (h : entries.lookup key = some value) : (key, value) ∈ entries := by
  obtain ⟨before, after, rfl, _⟩ := List.lookup_eq_some_iff.1 h
  simp

/-- Of two pairs under one key the first is found; where each key stands once that is the pair. -/
theorem Entries.lookup_of_mem [DecidableEq κ] {entries : List (κ × α)} {key : κ} {value : α}
    (hkeys : (entries.map Prod.fst).Nodup) (h : (key, value) ∈ entries) :
    entries.lookup key = some value := by
  induction entries with
  | nil => cases h
  | cons entry rest ih =>
    obtain ⟨first, old⟩ := entry
    have hfresh : first ∉ rest.map Prod.fst := (List.nodup_cons.1 hkeys).1
    have hrest : (rest.map Prod.fst).Nodup := (List.nodup_cons.1 hkeys).2
    rw [lookup_cons]
    rcases List.mem_cons.1 h with heq | hmem
    · cases heq
      rw [if_pos rfl]
    · have hkey : key ∈ rest.map Prod.fst := List.mem_map.2 ⟨_, hmem, rfl⟩
      have hne : key ≠ first := fun he => hfresh (he ▸ hkey)
      rw [if_neg hne]
      exact ih hrest hmem

/-- What is found under a key in a list of pairs made from others is made from the first that has
it. -/
theorem Entries.lookup_map [DecidableEq κ] {β : Type w} (key : β → κ) (value : β → α) (xs : List β)
    (other : κ) : (xs.map fun x => (key x, value x)).lookup other
      = (xs.find? fun x => key x = other).map value := by
  induction xs with
  | nil => rfl
  | cons x rest ih =>
    rw [List.map_cons, lookup_cons, ih, List.find?_cons]
    by_cases h : key x = other
    · rw [if_pos h.symm, decide_eq_true h]
      rfl
    · rw [if_neg (Ne.symm h), decide_eq_false h]

/-- Where each key stands once, a search that looks at one key alone finds what is under it. -/
theorem Entries.findSome?_key [DecidableEq κ] {β : Type w} {entries : List (κ × α)}
    (hkeys : (entries.map Prod.fst).Nodup) (key : κ) (f : α → Option β) :
    (entries.findSome? fun entry => if entry.1 = key then f entry.2 else none)
      = (entries.lookup key).bind f := by
  induction entries with
  | nil => rfl
  | cons entry rest ih =>
    obtain ⟨first, value⟩ := entry
    obtain ⟨hfresh, hrest⟩ := List.nodup_cons.1 hkeys
    rw [List.findSome?_cons, ih hrest, lookup_cons]
    by_cases h : first = key
    · have hnone : rest.lookup key = none := by
        refine List.lookup_eq_none_iff.2 fun other hother => ?_
        refine bne_iff_ne.2 fun heq => hfresh ?_
        rw [h, heq]
        exact List.mem_map.2 ⟨other, hother, rfl⟩
      simp only [if_pos h, if_pos h.symm, hnone, Option.bind_none, Option.bind_some]
      cases f value
      all_goals rfl
    · simp only [if_neg h, if_neg (Ne.symm h)]

variable [LT κ]

/-- In the order of the keys, an entry with a smaller key than another stands before it. -/
theorem Entries.mem_before_of_lt [Std.Asymm (α := κ) (· < ·)] {before after : List (κ × α)}
    {entry other : κ × α} (hsorted : (before ++ entry :: after).Pairwise fun a b => a.1 < b.1)
    (hmem : other ∈ before ++ entry :: after) (hlt : other.1 < entry.1) : other ∈ before := by
  obtain ⟨_, htail, _⟩ := List.pairwise_append.1 hsorted
  rcases List.mem_append.1 hmem with h | h
  · exact h
  · rcases List.mem_cons.1 h with rfl | h
    · exact absurd hlt (Std.Asymm.asymm _ _ hlt)
    · exact absurd hlt (Std.Asymm.asymm _ _ ((List.pairwise_cons.1 htail).1 other h))

theorem nodup_keys [Std.Irrefl (α := κ) (· < ·)] (m : OrderedMap κ α) :
    (m.entries.map Prod.fst).Nodup := by
  rw [List.nodup_iff_pairwise_ne, List.pairwise_map]
  apply m.sorted.imp
  intro a b hlt heq
  rw [heq] at hlt
  exact Std.Irrefl.irrefl _ hlt

/-- Two lists of entries in the order of their keys with the same members are equal. -/
theorem Entries.eq_of_mem_iff [Std.Asymm (α := κ) (· < ·)] {a b : List (κ × α)}
    (ha : a.Pairwise fun x y => x.1 < y.1) (hb : b.Pairwise fun x y => x.1 < y.1)
    (h : ∀ e, e ∈ a ↔ e ∈ b) : a = b := by
  induction a generalizing b with
  | nil =>
    cases b with
    | nil => rfl
    | cons y ys => exact absurd ((h y).2 (List.mem_cons_self ..)) List.not_mem_nil
  | cons x xs ih =>
    cases b with
    | nil => exact absurd ((h x).1 (List.mem_cons_self ..)) List.not_mem_nil
    | cons y ys =>
      obtain ⟨hx, hxs⟩ := List.pairwise_cons.1 ha
      obtain ⟨hy, hys⟩ := List.pairwise_cons.1 hb
      have hhead : x = y := by
        rcases List.mem_cons.1 ((h x).1 (List.mem_cons_self ..)) with heq | hmem
        · exact heq
        · rcases List.mem_cons.1 ((h y).2 (List.mem_cons_self ..)) with heq | hmem'
          · exact heq.symm
          · exact absurd (hx y hmem') (Std.Asymm.asymm _ _ (hy x hmem))
      subst hhead
      have hne : ∀ e, x.1 < e.1 → e ≠ x := by
        rintro e hlt rfl
        exact Std.Asymm.asymm _ _ hlt hlt
      have htail : ∀ e, e ∈ xs ↔ e ∈ ys := by
        intro e
        apply Iff.intro
        · intro he
          rcases List.mem_cons.1 ((h e).1 (List.mem_cons_of_mem _ he)) with heq | hmem
          · exact absurd heq (hne e (hx e he))
          · exact hmem
        · intro he
          rcases List.mem_cons.1 ((h e).2 (List.mem_cons_of_mem _ he)) with heq | hmem
          · exact absurd heq (hne e (hy e he))
          · exact hmem
      rw [ih hxs hys htail]

variable [DecidableEq κ]

theorem mem_entries_of_get? {m : OrderedMap κ α} {key : κ} {value : α}
    (h : m.get? key = some value) : (key, value) ∈ m.entries :=
  Entries.mem_of_lookup h

theorem mem_entries_iff [Std.Irrefl (α := κ) (· < ·)] {m : OrderedMap κ α} {entry : κ × α} :
    entry ∈ m.entries ↔ m.get? entry.1 = some entry.2 :=
  ⟨fun h => Entries.lookup_of_mem m.nodup_keys h, mem_entries_of_get?⟩

theorem contains_iff {m : OrderedMap κ α} {key : κ} :
    m.contains key = true ↔ ∃ value, m.get? key = some value := by
  simp only [contains, Option.isSome_iff_exists]

theorem ext_get? [Std.Asymm (α := κ) (· < ·)] {m n : OrderedMap κ α}
    (h : ∀ key, m.get? key = n.get? key) : m = n := by
  have hentries : m.entries = n.entries := by
    apply Entries.eq_of_mem_iff m.sorted n.sorted
    intro e
    rw [mem_entries_iff, mem_entries_iff, h]
  cases m
  cases n
  cases hentries
  rfl

omit [DecidableEq κ] in
theorem sorted_keys (m : OrderedMap κ α) : m.keys.Pairwise (· < ·) := List.pairwise_map.2 m.sorted

theorem mem_keys_iff [Std.Irrefl (α := κ) (· < ·)] {m : OrderedMap κ α} {key : κ} :
    key ∈ m.keys ↔ m.contains key = true := by
  rw [contains_iff, keys, List.mem_map]
  apply Iff.intro
  · rintro ⟨entry, hentry, rfl⟩
    exact ⟨entry.2, mem_entries_iff.1 hentry⟩
  · rintro ⟨value, hvalue⟩
    exact ⟨(key, value), mem_entries_of_get? hvalue, rfl⟩

/-! ### Maps with other values -/

omit [DecidableEq κ] in
def mapValues {β : Type w} (f : α → β) (m : OrderedMap κ α) : OrderedMap κ β :=
  ⟨m.entries.map fun entry => (entry.1, f entry.2), List.pairwise_map.2 m.sorted⟩

theorem get?_mapValues {β : Type w} (f : α → β) (m : OrderedMap κ α) (key : κ) :
    (m.mapValues f).get? key = (m.get? key).map f := by
  simp only [mapValues, get?]
  induction m.entries with
  | nil => rfl
  | cons entry rest ih =>
    obtain ⟨first, value⟩ := entry
    rw [List.map_cons, Entries.lookup_cons, Entries.lookup_cons, ih]
    split
    · rfl
    · rfl

omit [DecidableEq κ] in
theorem keys_mapValues {β : Type w} (f : α → β) (m : OrderedMap κ α) :
    (m.mapValues f).keys = m.keys := by
  rw [keys, keys, mapValues, List.map_map]
  rfl

theorem keys_eq_of_contains_iff [Std.Asymm (α := κ) (· < ·)] {β : Type w} {m : OrderedMap κ α}
    {n : OrderedMap κ β} (h : ∀ key, m.contains key = true ↔ n.contains key = true) :
    m.keys = n.keys := by
  have hkeys : m.mapValues (fun _ => ()) = n.mapValues fun _ => () := by
    refine ext_get? fun key => Option.ext fun _ => ?_
    have hkey := h key
    simp only [contains_iff] at hkey
    simpa [get?_mapValues] using hkey
  rw [← keys_mapValues (fun _ => ()) m, hkeys, keys_mapValues]

/-! ### Maps built by insertion -/

variable [DecidableLT κ] [KeyOrder κ]

theorem insert_of_get? [Std.Asymm (α := κ) (· < ·)] {m : OrderedMap κ α} {key : κ} {value : α}
    (h : m.get? key = some value) : m.insert key value = m := by
  refine ext_get? fun other => ?_
  rw [get?_insert]
  by_cases heq : other = key
  · rw [if_pos heq, heq, h]
  · rw [if_neg heq]

/-- What is put under two keys may be put there in either order. -/
theorem insert_comm [Std.Asymm (α := κ) (· < ·)] (m : OrderedMap κ α) {key other : κ}
    (h : key ≠ other) (value new : α) :
    (m.insert key value).insert other new = (m.insert other new).insert key value := by
  refine ext_get? fun k => ?_
  simp only [get?_insert]
  by_cases hkey : k = key
  · rw [if_pos hkey, if_neg (hkey ▸ h), if_pos hkey]
  · rw [if_neg hkey, if_neg hkey]

theorem erase_insert_of_get?_none [Std.Asymm (α := κ) (· < ·)] {m : OrderedMap κ α} {key : κ}
    (h : m.get? key = none) (value : α) : (m.insert key value).erase key = m := by
  refine ext_get? fun other => ?_
  rw [get?_erase, get?_insert]
  by_cases heq : other = key
  · rw [if_pos heq, heq, h]
  · rw [if_neg heq, if_neg heq]

theorem mem_entries_insert [Std.Irrefl (α := κ) (· < ·)] {m : OrderedMap κ α} {key : κ} {value : α}
    {entry : κ × α} : entry ∈ (m.insert key value).entries ↔
      entry = (key, value) ∨ entry.1 ≠ key ∧ entry ∈ m.entries := by
  rw [mem_entries_iff, get?_insert, mem_entries_iff]
  by_cases h : entry.1 = key
  · rw [if_pos h]
    apply Iff.intro
    · intro hvalue
      exact .inl (Prod.ext h (Option.some.inj hvalue).symm)
    · rintro (rfl | ⟨hne, _⟩)
      · rfl
      · exact absurd h hne
  · rw [if_neg h]
    constructor
    · exact fun hmem => .inr ⟨h, hmem⟩
    · rintro (rfl | ⟨_, hmem⟩)
      · exact absurd rfl h
      · exact hmem

theorem get?_foldl_insert (pairs : List (κ × α)) (m : OrderedMap κ α) (key : κ) :
    (pairs.foldl (fun m pair => m.insert pair.1 pair.2) m).get? key =
      (pairs.reverse.lookup key).or (m.get? key) := by
  induction pairs generalizing m with
  | nil => rfl
  | cons pair rest ih =>
    rw [List.foldl_cons, ih, get?_insert, List.reverse_cons, List.lookup_append, Option.or_assoc,
      Entries.lookup_cons]
    by_cases h : key = pair.1
    · simp only [if_pos h, Option.some_or]
    · simp only [if_neg h, List.lookup_nil, Option.none_or]

/-- Where each key stands once, the map of a list of pairs finds exactly these pairs. -/
theorem get?_ofList_eq_some_iff {pairs : List (κ × α)} (hkeys : (pairs.map Prod.fst).Nodup)
    {key : κ} {value : α} : (ofList pairs).get? key = some value ↔ (key, value) ∈ pairs := by
  have hreverse : (pairs.reverse.map Prod.fst).Nodup := by
    rw [List.map_reverse, List.nodup_iff_pairwise_ne, List.pairwise_reverse]
    exact hkeys.imp Ne.symm
  rw [ofList, get?_foldl_insert, get?_empty, Option.or_none]
  apply Iff.intro
  · exact fun h => List.mem_reverse.1 (Entries.mem_of_lookup h)
  · exact fun h => Entries.lookup_of_mem hreverse (List.mem_reverse.2 h)

theorem mem_keys_ofList_iff [Std.Irrefl (α := κ) (· < ·)] {pairs : List (κ × α)} {key : κ} :
    key ∈ (ofList pairs).keys ↔ ∃ pair ∈ pairs, pair.1 = key := by
  rw [mem_keys_iff, contains, ofList, get?_foldl_insert, get?_empty, Option.or_none,
    List.lookup_isSome_iff]
  simp only [List.mem_reverse, beq_iff_eq, eq_comm (a := key)]

theorem ofList_entries [Std.Asymm (α := κ) (· < ·)] (m : OrderedMap κ α) :
    ofList m.entries = m := by
  refine ext_get? fun key => Option.ext fun value => ?_
  rw [get?_ofList_eq_some_iff m.nodup_keys, mem_entries_iff]

end SidecarIndex.OrderedMap

import SidecarIndex.FileTree.Update
import SidecarIndex.Proofs.OrderedMap
import SidecarIndex.Proofs.Outcome

/-! # Paths in a tree without links

Where no link stands in the way, the steps of a path are taken one after the other: the first part
of a path leads to a place, and the rest of it leads on from there. Names that lead to something
lead exactly there. -/

namespace SidecarIndex.FileTree

variable {t : FileTree}

def LinkFree (t : FileTree) : Prop := ∀ location target, t.at? location ≠ some (.link target)

theorem at?_eq_some_iff {location : Location} (hne : location ≠ []) {node : Node} :
    t.at? location = some node ↔ (location, node) ∈ t.nodes.entries := by
  rw [at?, nodeAt?, if_neg hne, OrderedMap.mem_entries_iff]

theorem linkFree_iff : t.LinkFree ↔ ∀ entry ∈ t.nodes.entries, entry.1 ≠ [] →
    (match entry.2 with | .link _ => false | _ => true) = true := by
  apply Iff.intro
  · intro h entry hentry hne
    split
    · rename_i target hlink
      exact absurd ((at?_eq_some_iff hne).2 (hlink ▸ hentry)) (h entry.1 target)
    · rfl
  · intro h location target hlink
    have hne : location ≠ [] := by
      intro hnil
      rw [hnil, at?_top] at hlink
      cases hlink
    exact absurd (h _ ((at?_eq_some_iff hne).1 hlink) hne) Bool.false_ne_true

instance (t : FileTree) : Decidable t.LinkFree := decidable_of_iff _ linkFree_iff.symm

/-! ### Above what is there -/

theorem at?_above {location names : Location} (hne : names ≠ [])
    (h : t.at? (location ++ names) ≠ none) : t.at? location = some .folder := by
  induction names generalizing location with
  | nil => exact absurd rfl hne
  | cons name rest ih =>
    have hsplit : location ++ name :: rest = (location ++ [name]) ++ rest := by simp
    rw [hsplit] at h
    have hnext : t.at? (location ++ [name]) ≠ none := by
      cases rest with
      | nil => rwa [List.append_nil] at h
      | cons second others =>
        rw [ih (List.cons_ne_nil second others) h]
        exact Option.some_ne_none _
    exact (t.closed location name hnext).2

theorem isFileName_of_at? {location names : Location} (h : t.at? (location ++ names) ≠ none) :
    ∀ name ∈ names, IsFileName name := by
  induction names generalizing location with
  | nil => exact fun _ hname => absurd hname List.not_mem_nil
  | cons first rest ih =>
    have hsplit : location ++ first :: rest = (location ++ [first]) ++ rest := by simp
    rw [hsplit] at h
    have hnext : t.at? (location ++ [first]) ≠ none := by
      cases rest with
      | nil => rwa [List.append_nil] at h
      | cons second others =>
        rw [at?_above (List.cons_ne_nil second others) h]
        exact Option.some_ne_none _
    intro name hname
    rcases List.mem_cons.1 hname with rfl | hname
    · exact (t.closed location name hnext).1
    · exact ih h name hname

/-- Each of some names that lead to something is the name of something. -/
theorem exists_at?_of_mem {location names : Location} (h : t.at? (location ++ names) ≠ none)
    {name : String} (hname : name ∈ names) : ∃ above, t.at? (above ++ [name]) ≠ none := by
  obtain ⟨before, behind, rfl⟩ := List.append_of_mem hname
  have hsplit : location ++ (before ++ name :: behind) = (location ++ before ++ [name])
      ++ behind := by
    simp
  rw [hsplit] at h
  refine ⟨location ++ before, ?_⟩
  cases behind with
  | nil => rwa [List.append_nil] at h
  | cons second others =>
    rw [at?_above (List.cons_ne_nil second others) h]
    exact Option.some_ne_none _

theorem forall_names_iff {P : String → Prop} :
    (∀ location name, t.at? (location ++ [name]) ≠ none → P name) ↔
      ∀ entry ∈ t.nodes.entries, ∀ name ∈ entry.1.getLast?, P name := by
  apply Iff.intro
  · intro h entry hentry name hname
    obtain ⟨location, hlocation⟩ := List.getLast?_eq_some_iff.1 hname
    apply h location name
    rw [← hlocation, (at?_eq_some_iff (by simp [hlocation])).2 hentry]
    exact Option.some_ne_none _
  · intro h location name hthere
    obtain ⟨node, hnode⟩ := Option.ne_none_iff_exists'.1 hthere
    exact h _ ((at?_eq_some_iff (by simp)).1 hnode) name List.getLast?_concat

/-! ### Steps -/

theorem walkFrom_eq_walk_zero (hlinks : t.LinkFree)
    (onLink : Location → List Component → Except FileFault Location) (ending : Ending)
    (location : Location) (steps : List Component) :
    t.walkFrom onLink ending location steps = t.walk ending 0 location steps := by
  rw [walk]
  induction steps generalizing location with
  | nil => rfl
  | cons step rest ih =>
    cases step with
    | root => exact ih []
    | current => simp only [walkFrom, ih]
    | parent => simp only [walkFrom, ih]
    | named name =>
      simp only [walkFrom, ih]
      cases hnode : t.at? (location ++ [name]) with
      | none => rfl
      | some node =>
        cases node with
        | file content => rfl
        | folder => rfl
        | link target => exact absurd hnode (hlinks _ _)

/-- How many links may be followed does not matter where there are none. -/
theorem walk_eq_walk_zero (hlinks : t.LinkFree) (ending : Ending) (links : Nat)
    (location : Location) (steps : List Component) :
    t.walk ending links location steps = t.walk ending 0 location steps := by
  cases links with
  | zero => rfl
  | succ links => exact walkFrom_eq_walk_zero hlinks _ ending location steps

theorem walk_append (hlinks : t.LinkFree) (ending : Ending) (location : Location)
    (steps : List Component) {others : List Component} (hne : others ≠ []) :
    t.walk ending 0 location (steps ++ others)
      = (t.walk .node 0 location steps >>= fun place => t.walk ending 0 place others) := by
  simp only [walk]
  induction steps generalizing location with
  | nil => rfl
  | cons step rest ih =>
    cases step with
    | root => exact ih []
    | current =>
      simp only [List.cons_append, walkFrom, ih]
      split
      · rfl
      · rfl
    | parent =>
      simp only [List.cons_append, walkFrom, ih]
      split
      · rfl
      · rfl
    | named name =>
      have hrest : (rest ++ others).isEmpty = false := by
        simp [hne]
      have hending : (Ending.node == Ending.spot) = false := rfl
      simp only [List.cons_append, walkFrom, ih, hrest, hending, Bool.false_and, Bool.and_false]
      split
      · rfl
      · split
        · rfl
        · cases hnode : t.at? (location ++ [name]) with
          | none => rfl
          | some node =>
            cases node with
            | file content => rfl
            | folder => rfl
            | link target => exact absurd hnode (hlinks _ _)

theorem walk_names (hlinks : t.LinkFree) {location names : Location}
    (h : t.at? (location ++ names) ≠ none) :
    t.walk .node 0 location (names.map .named) = .ok (location ++ names) := by
  rw [walk]
  induction names generalizing location with
  | nil => rw [List.append_nil]; rfl
  | cons name rest ih =>
    have hfolder : t.isFolder location = true := by
      rw [isFolder, at?_above (List.cons_ne_nil name rest) h]
      rfl
    have hname : IsFileName name := isFileName_of_at? h name (List.mem_cons_self ..)
    have hsplit : location ++ name :: rest = (location ++ [name]) ++ rest := by simp
    rw [hsplit] at h ⊢
    have hstep := ih h
    simp only [List.map_cons, walkFrom, hfolder, hname, not_true, Bool.not_true, Bool.false_eq_true,
      if_false, hstep]
    cases hnode : t.at? (location ++ [name]) with
    | none =>
      cases rest with
      | nil =>
        rw [List.append_nil] at h
        exact absurd hnode h
      | cons second others =>
        rw [at?_above (List.cons_ne_nil second others) h] at hnode
        cases hnode
    | some node =>
      cases node with
      | file content => rfl
      | folder => rfl
      | link target => exact absurd hnode (hlinks _ _)

theorem leadsSomewhere_iff {path : Path} : t.leadsSomewhere path = true ↔
    ∃ place, t.resolve .node path = .ok place := by
  rw [leadsSomewhere]
  cases t.resolve .node path with
  | ok place => exact iff_of_true rfl ⟨place, rfl⟩
  | error fault => simp [Except.isOk, Except.toBool]

theorem eq_walk_of_stepsOf {path : Path} {steps : List Component} (h : stepsOf path = .ok steps) :
    steps = path.walk := by
  unfold stepsOf at h
  split at h
  · cases h
  · split at h
    · cases h
    · split at h
      · cases h
      · cases h
        rfl

theorem text_ne_of_stepsOf {path : Path} {steps : List Component} (h : stepsOf path = .ok steps) :
    path.text ≠ "" := by
  intro hempty
  rw [stepsOf, if_pos hempty] at h
  cases h

theorem resolve_eq_ok_iff (hlinks : t.LinkFree) {ending : Ending} {path : Path} {place : Location} :
    t.resolve ending path = .ok place ↔
      stepsOf path = .ok path.walk ∧ t.walk ending 0 t.workingFolder path.walk = .ok place := by
  simp only [resolve, bind_eq_ok_iff, walk_eq_walk_zero hlinks ending linkLimit]
  apply Iff.intro
  · intro h
    obtain ⟨steps, hok, hwalk⟩ := h
    cases eq_walk_of_stepsOf hok
    exact ⟨hok, hwalk⟩
  · intro h
    exact ⟨path.walk, h.1, h.2⟩

end SidecarIndex.FileTree

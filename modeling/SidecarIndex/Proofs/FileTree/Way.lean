import SidecarIndex.Proofs.FileTree.Walk

/-! # Ways through a tree with links

A way takes one step after the other from a location and goes through the links that stand on it; it
is known by how many these are. Following steps through at most so many links gives a place when
there is a way to it with no more. A way is put together from the ways along its parts, and there is
no more than one along the same steps. -/

namespace SidecarIndex.FileTree

variable {t u : FileTree} {ending : Ending} {location place : Location} {steps : List Component}

theorem isFolder_iff : t.isFolder location = true ↔ t.at? location = some .folder := beq_iff_eq

/-- One step from a location: the links it goes through, where it leads, and the steps that come
before the others from there, which are those of a link. -/
inductive Takes (t : FileTree) : Location → Component → Nat → Location → List Component → Prop
  | root (location : Location) : Takes t location .root 0 [] []
  | current {location : Location} : t.at? location = some .folder →
      Takes t location .current 0 location []
  | parent {location : Location} : t.at? location = some .folder →
      Takes t location .parent 0 location.dropLast []
  | named {location : Location} {name : String} {node : Node} : t.at? location = some .folder →
      IsFileName name → t.at? (location ++ [name]) = some node → (∀ target, node ≠ .link target) →
      Takes t location (.named name) 0 (location ++ [name]) []
  | link {location : Location} {name : String} {target : Path} : t.at? location = some .folder →
      IsFileName name → t.at? (location ++ [name]) = some (.link target) →
      Takes t location (.named name) 1 location target.walk

/-- A way from a location along steps to a place, through a number of links. Where only a spot is
asked for, nothing need be under the last name. -/
inductive Way (t : FileTree) (ending : Ending) : Nat → Location → List Component → Location → Prop
  | done (location : Location) : Way t ending 0 location [] location
  | missing {location : Location} {name : String} : t.at? location = some .folder →
      IsFileName name →
      t.at? (location ++ [name]) = none → ending = .spot →
      Way t ending 0 location [.named name] (location ++ [name])
  | step {location next place : Location} {step : Component} {more rest : List Component}
      {links count : Nat} : Takes t location step count next more →
      Way t ending links next (more ++ rest) place →
      Way t ending (links + count) location (step :: rest) place

/-! ### Ways and walks -/

/-- A walk that gets to its end goes on from what its first step leads to, or goes on behind a link,
or ends where nothing is. -/
theorem walkFrom_cons_cases {onLink : Location → List Component → Except FileFault Location}
    {step : Component} {rest : List Component}
    (h : t.walkFrom onLink ending location (step :: rest) = .ok place) :
    (∃ next, t.Takes location step 0 next [] ∧ t.walkFrom onLink ending next rest = .ok place) ∨
    (∃ next more, t.Takes location step 1 next more ∧ onLink next (more ++ rest) = .ok place) ∨
    t.Way ending 0 location (step :: rest) place := by
  cases step with
  | root => exact .inl ⟨_, .root location, h⟩
  | current =>
    rw [walkFrom] at h
    split at h
    · rename_i hfolder
      exact .inl ⟨_, .current (isFolder_iff.1 hfolder), h⟩
    · cases h
  | parent =>
    rw [walkFrom] at h
    split at h
    · rename_i hfolder
      exact .inl ⟨_, .parent (isFolder_iff.1 hfolder), h⟩
    · cases h
  | named name =>
    rw [walkFrom] at h
    split at h
    · cases h
    · rename_i hfolder
      have hthere : t.at? location = some .folder := isFolder_iff.1 (by simpa using hfolder)
      split at h
      · cases h
      · rename_i hname
        have hname := Decidable.not_not.1 hname
        cases hnode : t.at? (location ++ [name]) with
        | none =>
          simp only [hnode] at h
          split at h
          · rename_i hspot
            rw [Bool.and_eq_true, List.isEmpty_iff, beq_iff_eq] at hspot
            obtain ⟨rfl, hending⟩ := hspot
            cases h
            exact .inr (.inr (.missing hthere hname hnode hending))
          · cases h
        | some node =>
          simp only [hnode] at h
          cases node with
          | link target => exact .inr (.inl ⟨_, _, .link hthere hname hnode, h⟩)
          | file content => exact .inl ⟨_, .named hthere hname hnode (by simp), h⟩
          | folder => exact .inl ⟨_, .named hthere hname hnode (by simp), h⟩

theorem way_of_walkFrom {onLink : Location → List Component → Except FileFault Location}
    {links : Nat} (hlink : ∀ folder others, onLink folder others = .ok place →
      ∃ count < links, t.Way ending count folder others place)
    (h : t.walkFrom onLink ending location steps = .ok place) :
    ∃ count ≤ links, t.Way ending count location steps place := by
  induction steps generalizing location with
  | nil =>
    cases h
    exact ⟨0, Nat.zero_le _, .done _⟩
  | cons step rest ih =>
    rcases walkFrom_cons_cases h with ⟨next, htakes, hrest⟩ | ⟨next, more, htakes, hbehind⟩ |
      hmissing
    · obtain ⟨count, hcount, hway⟩ := ih hrest
      exact ⟨count, hcount, .step htakes hway⟩
    · obtain ⟨count, hcount, hway⟩ := hlink _ _ hbehind
      exact ⟨count + 1, hcount, .step htakes hway⟩
    · exact ⟨0, Nat.zero_le _, hmissing⟩

theorem Way.walkFrom_eq {links : Nat} (h : t.Way ending links location steps place)
    {onLink : Location → List Component → Except FileFault Location}
    (hlink : ∀ count < links, ∀ folder others, t.Way ending count folder others place →
      onLink folder others = .ok place) : t.walkFrom onLink ending location steps = .ok place := by
  induction h with
  | done location => rfl
  | missing hfolder hname hnone hending =>
    rw [walkFrom, isFolder_iff.2 hfolder, if_neg (by simp), if_neg (not_not.2 hname), hnone,
      hending]
    rfl
  | step htakes hway ih =>
    cases htakes with
    | root => exact ih hlink
    | current hfolder =>
      rw [walkFrom, if_pos (isFolder_iff.2 hfolder)]
      exact ih hlink
    | parent hfolder =>
      rw [walkFrom, if_pos (isFolder_iff.2 hfolder)]
      exact ih hlink
    | @named _ node hfolder hname hnode hlinks =>
      rw [walkFrom, isFolder_iff.2 hfolder, if_neg (by simp), if_neg (not_not.2 hname), hnode]
      cases node with
      | link target => exact absurd rfl (hlinks target)
      | file content => exact ih hlink
      | folder => exact ih hlink
    | link hfolder hname hnode =>
      rw [walkFrom, isFolder_iff.2 hfolder, if_neg (by simp), if_neg (not_not.2 hname), hnode]
      exact hlink _ (Nat.lt_succ_self _) _ _ hway

/-- Following steps through at most so many links gives a place when there is a way to it. -/
theorem walk_eq_ok_iff {links : Nat} : t.walk ending links location steps = .ok place ↔
    ∃ count ≤ links, t.Way ending count location steps place := by
  induction links generalizing location steps with
  | zero =>
    apply Iff.intro
    · intro h
      rw [walk] at h
      refine way_of_walkFrom ?_ h
      intro folder others hlink
      cases hlink
    · intro h
      obtain ⟨count, hcount, hway⟩ := h
      rw [walk]
      refine hway.walkFrom_eq fun other hother => ?_
      omega
  | succ links ih =>
    apply Iff.intro
    · intro h
      rw [walk] at h
      refine way_of_walkFrom (fun folder others hlink => ?_) h
      obtain ⟨count, hcount, hway⟩ := ih.1 hlink
      exact ⟨count, Nat.lt_succ_of_le hcount, hway⟩
    · intro h
      obtain ⟨count, hcount, hway⟩ := h
      rw [walk]
      exact hway.walkFrom_eq fun other hother _ _ hrest => ih.2 ⟨other, by omega, hrest⟩

theorem resolve_eq_ok_iff_way {path : Path} : t.resolve ending path = .ok place ↔
    stepsOf path = .ok path.walk ∧
      ∃ count ≤ linkLimit, t.Way ending count t.workingFolder path.walk place := by
  simp only [resolve, bind_eq_ok_iff, walk_eq_ok_iff]
  apply Iff.intro
  · intro h
    obtain ⟨steps, hok, hway⟩ := h
    cases eq_walk_of_stepsOf hok
    exact ⟨hok, hway⟩
  · intro h
    exact ⟨path.walk, h.1, h.2⟩

/-! ### Parts of ways -/

theorem Takes.unique {step : Component} {count others : Nat} {next other : Location}
    {more : List Component} {otherMore : List Component} (h : t.Takes location step count next more)
    (hother : t.Takes location step others other otherMore) :
    count = others ∧ next = other ∧ more = otherMore := by
  cases h with
  | root =>
    cases hother
    exact ⟨rfl, rfl, rfl⟩
  | current =>
    cases hother
    exact ⟨rfl, rfl, rfl⟩
  | parent =>
    cases hother
    exact ⟨rfl, rfl, rfl⟩
  | named _ _ hnode hlinks =>
    cases hother with
    | named => exact ⟨rfl, rfl, rfl⟩
    | link _ _ hlink => exact absurd (Option.some.inj (hnode.symm.trans hlink)) (hlinks _)
  | link _ _ hlink =>
    cases hother with
    | named _ _ hnode hlinks => exact absurd (Option.some.inj (hnode.symm.trans hlink)) (hlinks _)
    | link _ _ hother =>
      cases hlink.symm.trans hother
      exact ⟨rfl, rfl, rfl⟩

theorem not_takes_of_none {name : String} (h : t.at? (location ++ [name]) = none) {count : Nat}
    {next : Location} {more : List Component} :
    ¬ t.Takes location (.named name) count next more := by
  intro htakes
  cases htakes with
  | named _ _ hnode => cases h.symm.trans hnode
  | link _ _ hlink => cases h.symm.trans hlink

theorem Way.unique {links others : Nat} {other : Location}
    (h : t.Way ending links location steps place)
    (hother : t.Way ending others location steps other) : links = others ∧ place = other := by
  induction h generalizing others with
  | done location =>
    cases hother
    exact ⟨rfl, rfl⟩
  | missing _ _ hnone _ =>
    cases hother with
    | missing => exact ⟨rfl, rfl⟩
    | step htakes => exact absurd htakes (not_takes_of_none hnone)
  | step htakes _ ih =>
    cases hother with
    | missing _ _ hnone => exact absurd htakes (not_takes_of_none hnone)
    | step hfirst hrest =>
      obtain ⟨rfl, rfl, rfl⟩ := htakes.unique hfirst
      obtain ⟨rfl, hplace⟩ := ih hrest
      exact ⟨rfl, hplace⟩

/-- A way along the steps of two lists is a way along the first and one along the second. -/
theorem way_append_iff {others : List Component} (hne : others ≠ []) {links : Nat} :
    t.Way ending links location (steps ++ others) place ↔ ∃ first second middle,
      links = first + second ∧ t.Way .node first location steps middle ∧
        t.Way ending second middle others place := by
  apply Iff.intro
  · intro h
    generalize hall : steps ++ others = all at h
    induction h generalizing steps with
    | done location => exact absurd (List.append_eq_nil_iff.1 hall).2 hne
    | missing hfolder hname hnone hending =>
      rcases List.append_eq_cons_iff.1 hall with ⟨rfl, rfl⟩ | ⟨front, rfl, hrest⟩
      · exact ⟨0, _, _, (Nat.zero_add _).symm, .done _, .missing hfolder hname hnone hending⟩
      · exact absurd (List.append_eq_nil_iff.1 hrest.symm).2 hne
    | step htakes hway ih =>
      rcases List.append_eq_cons_iff.1 hall with ⟨rfl, rfl⟩ | ⟨front, rfl, hrest⟩
      · exact ⟨0, _, _, (Nat.zero_add _).symm, .done _, .step htakes hway⟩
      · -- The steps of a link come before what is left of the first list.
        rw [hrest, ← List.append_assoc] at ih
        obtain ⟨first, second, middle, hsum, hfirst, hsecond⟩ := ih rfl
        exact ⟨_, second, middle, by omega, .step htakes hfirst, hsecond⟩
  · intro h
    obtain ⟨first, second, middle, rfl, hfirst, hsecond⟩ := h
    induction hfirst with
    | done location => rwa [Nat.zero_add]
    | missing _ _ _ hending => cases hending
    | step htakes _ ih =>
      rw [Nat.add_right_comm]
      rw [List.append_assoc] at ih
      exact .step htakes (ih hsecond)

/-! ### Steps from folders -/

theorem Way.folder_of_step {links : Nat} {step : Component} {others : List Component}
    (h : t.Way ending links location (step :: others) place) (hstep : step ≠ .root) :
    t.at? location = some .folder := by
  cases h with
  | missing hfolder => exact hfolder
  | step htakes =>
    cases htakes with
    | root => exact absurd rfl hstep
    | current hfolder => exact hfolder
    | parent hfolder => exact hfolder
    | named hfolder => exact hfolder
    | link hfolder => exact hfolder

theorem Way.isFileName {links : Nat} {name : String} {others : List Component}
    (h : t.Way ending links location (.named name :: others) place) : IsFileName name := by
  cases h with
  | missing _ hname => exact hname
  | step htakes =>
    cases htakes with
    | named _ hname => exact hname
    | link _ hname => exact hname

theorem Way.exists_named {links : Nat} {name : String} {others : List Component}
    (h : t.Way .node links location (.named name :: others) place) :
    ∃ node, t.at? (location ++ [name]) = some node := by
  cases h with
  | missing _ _ _ hending => cases hending
  | step htakes =>
    cases htakes with
    | named _ _ hnode => exact ⟨_, hnode⟩
    | link _ _ hlink => exact ⟨_, hlink⟩

/-- What a way steps to by a name is there. -/
theorem Way.exists_of_mem {links : Nat} {name : String} (h : t.Way .node links location steps place)
    (hname : .named name ∈ steps) : ∃ folder, t.at? (folder ++ [name]) ≠ none := by
  induction h with
  | done => exact absurd hname List.not_mem_nil
  | missing _ _ _ hending => cases hending
  | step htakes hway ih =>
    rcases List.mem_cons.1 hname with rfl | hrest
    · obtain ⟨node, hnode⟩ := (Way.step htakes hway).exists_named
      exact ⟨_, hnode ▸ Option.some_ne_none node⟩
    · exact ih (List.mem_append_right _ hrest)

theorem way_replicate_current {folder : Location} (hfolder : t.at? folder = some .folder)
    (count : Nat) : t.Way .node 0 folder (List.replicate count .current) folder := by
  induction count with
  | zero => exact .done folder
  | succ count ih => exact .step (.current hfolder) ih

/-- Steps that stay do not matter at the end of a way to a folder. -/
theorem way_append_current_iff {links : Nat} (hfolder : t.at? place = some .folder) (count : Nat) :
    t.Way .node links location (steps ++ List.replicate count .current) place ↔
      t.Way .node links location steps place := by
  cases count with
  | zero => rw [List.replicate_zero, List.append_nil]
  | succ count =>
    rw [way_append_iff (by simp)]
    apply Iff.intro
    · intro h
      obtain ⟨first, second, middle, rfl, hfirst, hsecond⟩ := h
      have hmiddle : t.at? middle = some .folder := by
        rw [List.replicate_succ] at hsecond
        exact hsecond.folder_of_step fun heq => nomatch heq
      obtain ⟨rfl, rfl⟩ := hsecond.unique (way_replicate_current hmiddle (count + 1))
      exact hfirst
    · exact fun h => ⟨links, 0, place, rfl, h, way_replicate_current hfolder (count + 1)⟩

/-! ### Ends of ways -/

/-- A step leads to a folder or to a file. -/
theorem Takes.stands {step : Component} {count : Nat} {next : Location} {more : List Component}
    (h : t.Takes location step count next more) :
    t.at? next = some .folder ∨ ∃ content, t.at? next = some (.file content) := by
  cases h with
  | root => exact .inl t.at?_top
  | current hfolder => exact .inl hfolder
  | parent hfolder =>
    rcases List.eq_nil_or_concat location with rfl | ⟨above, name, rfl⟩
    · exact .inl t.at?_top
    · rw [List.concat_eq_append] at hfolder ⊢
      rw [List.dropLast_concat]
      refine .inl (t.closed above name fun hnone => ?_).2
      cases hfolder.symm.trans hnone
  | @named _ node _ _ hnode hlinks =>
    cases node with
    | folder => exact .inl hnode
    | file content => exact .inr ⟨content, hnode⟩
    | link target => exact absurd rfl (hlinks target)
  | link hfolder => exact .inl hfolder

/-- So does a way to something that takes a step. -/
theorem Way.stands {links : Nat} (h : t.Way .node links location steps place) (hne : steps ≠ []) :
    t.at? place = some .folder ∨ ∃ content, t.at? place = some (.file content) := by
  induction h with
  | done => exact absurd rfl hne
  | missing _ _ _ hending => cases hending
  | @step _ _ _ _ more rest _ _ htakes hway ih =>
    by_cases hnil : more ++ rest = []
    · rw [hnil] at hway
      cases hway
      exact htakes.stands
    · exact ih hnil

theorem Takes.not_link {step : Component} {count : Nat} {next : Location} {more : List Component}
    (h : t.Takes location step count next more) (target : Path) :
    t.at? next ≠ some (.link target) := by
  intro hlink
  rcases h.stands with hfolder | ⟨content, hfile⟩
  · cases hlink.symm.trans hfolder
  · cases hlink.symm.trans hfile

/-- A way that takes a step does not end at a link. -/
theorem Way.not_link {links : Nat} (h : t.Way ending links location steps place)
    (hstart : steps = [] → ∀ target, t.at? location ≠ some (.link target)) (target : Path) :
    t.at? place ≠ some (.link target) := by
  induction h with
  | done location => exact hstart rfl target
  | missing _ _ hnone =>
    intro hlink
    cases hnone.symm.trans hlink
  | step htakes _ ih => exact ih fun _ => htakes.not_link

/-! ### Ways where more is there -/

/-- All that is in a tree is in another one, where files may hold other contents. -/
def Kept (t u : FileTree) : Prop := ∀ location node, t.at? location = some node →
  u.at? location = some node ∨ ∃ old new, node = .file old ∧ u.at? location = some (.file new)

theorem Kept.folder (h : t.Kept u) (hfolder : t.at? location = some .folder) :
    u.at? location = some .folder := by
  rcases h _ _ hfolder with hsame | ⟨_, _, hfile, _⟩
  · exact hsame
  · cases hfile

theorem Kept.takes (h : t.Kept u) {step : Component} {count : Nat} {next : Location}
    {more : List Component} (htakes : t.Takes location step count next more) :
    u.Takes location step count next more := by
  cases htakes with
  | root => exact .root location
  | current hfolder => exact .current (h.folder hfolder)
  | parent hfolder => exact .parent (h.folder hfolder)
  | named hfolder hname hnode hlinks =>
    rcases h _ _ hnode with hsame | ⟨_, _, _, hfile⟩
    · exact .named (h.folder hfolder) hname hsame hlinks
    · exact .named (h.folder hfolder) hname hfile fun _ heq => nomatch heq
  | link hfolder hname hlink =>
    rcases h _ _ hlink with hsame | ⟨_, _, hfile, _⟩
    · exact .link (h.folder hfolder) hname hsame
    · cases hfile

/-- A way to something that is there is still one where more is there. -/
theorem Way.of_kept {links : Nat} (hway : t.Way .node links location steps place) (h : t.Kept u) :
    u.Way .node links location steps place := by
  induction hway with
  | done location => exact .done location
  | missing _ _ _ hending => cases hending
  | step htakes _ ih => exact .step (h.takes htakes) ih

theorem kept_put {folder : Location} {name : String} (h : t.CanPut folder name)
    (hlinks : ∀ target, t.at? (folder ++ [name]) ≠ some (.link target)) (content : Content) :
    t.Kept (t.put folder name (.file content) h) := by
  intro location node hnode
  rw [at?_put]
  by_cases hthere : location = folder ++ [name]
  · rw [if_pos hthere]
    subst hthere
    cases node with
    | file old => exact .inr ⟨old, content, rfl, rfl⟩
    | folder => exact absurd hnode h.2.2
    | link target => exact absurd hnode (hlinks target)
  · rw [if_neg hthere]
    exact .inl hnode

end SidecarIndex.FileTree

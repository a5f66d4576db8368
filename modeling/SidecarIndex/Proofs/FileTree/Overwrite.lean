import SidecarIndex.Proofs.FileTree.Replace

/-! # Trees in which links have become files

A file that takes the place of a link to another file shortens the ways through this link, and
leaves all other ways as they are. A path that leads to a folder leads to the same one after that,
and a path that leads to a file leads to a file. -/

namespace SidecarIndex.FileTree

variable {t u v : FileTree} {location place folder : Location} {steps : List Component}
  {links : Nat} {name : String} {path : Path}

/-! ### Files under a name -/

/-- What stands under a name in a folder is a file, or a link that leads to one. -/
def HoldsFile (t : FileTree) (folder : Location) (name : String) : Prop :=
  ∃ links place content, t.Way .node links folder [.named name] place ∧
    t.at? place = some (.file content)

theorem HoldsFile.node (h : t.HoldsFile folder name) :
    (∃ content, t.at? (folder ++ [name]) = some (.file content)) ∨
      ∃ target, t.at? (folder ++ [name]) = some (.link target) := by
  obtain ⟨links, place, content, hway, hfile⟩ := h
  cases hway with
  | missing _ _ _ hending => cases hending
  | step htakes hrest =>
    cases htakes with
    | named =>
      cases hrest
      exact .inl ⟨content, hfile⟩
    | link _ _ hlink => exact .inr ⟨_, hlink⟩

theorem HoldsFile.canPut (h : t.HoldsFile folder name) : t.CanPut folder name := by
  have hnode := h.node
  obtain ⟨links, place, content, hway, _⟩ := h
  refine ⟨hway.isFileName, hway.folder_of_step (fun heq => nomatch heq), fun hfolder => ?_⟩
  rcases hnode with ⟨_, hfile⟩ | ⟨_, hlink⟩
  · cases hfolder.symm.trans hfile
  · cases hfolder.symm.trans hlink

/-- No way leads on from a file. -/
theorem HoldsFile.ends (h : t.HoldsFile folder name) {rest : List Component}
    (hway : t.Way .node links folder (.named name :: rest) place) (hroot : .root ∉ rest) :
    rest = [] ∧ ∃ content, t.at? place = some (.file content) := by
  obtain ⟨_, middle, content, hnamed, hfile⟩ := h
  cases rest with
  | nil =>
    obtain ⟨_, rfl⟩ := hway.unique hnamed
    exact ⟨rfl, content, hfile⟩
  | cons step others =>
    have hsplit : Component.named name :: step :: others = [.named name] ++ step :: others := rfl
    rw [hsplit, way_append_iff (List.cons_ne_nil _ _)] at hway
    obtain ⟨_, _, other, _, hfirst, hsecond⟩ := hway
    obtain ⟨_, rfl⟩ := hfirst.unique hnamed
    have hstep : step ≠ .root := fun heq => hroot (heq ▸ List.mem_cons_self ..)
    cases hfile.symm.trans (hsecond.folder_of_step hstep)

/-! ### Files in the place of links -/

/-- A tree is another one in which files stand in the place of some files and of links to files. -/
structure Overwrites (u t : FileTree) : Prop where
  workingFolder : u.workingFolder = t.workingFolder
  keys : u.nodes.keys = t.nodes.keys
  nodes : ∀ location, u.at? location = t.at? location ∨ ∃ folder name content,
    location = folder ++ [name] ∧ t.HoldsFile folder name ∧ u.at? location = some (.file content)

theorem Overwrites.refl (t : FileTree) : t.Overwrites t := ⟨rfl, rfl, fun _ => .inl rfl⟩

theorem Overwrites.at?_folder (h : u.Overwrites t) (hfolder : t.at? location = some .folder) :
    u.at? location = some .folder := by
  rcases h.nodes location with hsame | ⟨above, name, content, rfl, hholds, _⟩
  · rw [hsame, hfolder]
  · exact absurd hfolder hholds.canPut.2.2

theorem Overwrites.at?_file (h : u.Overwrites t) {content : Content}
    (hfile : t.at? location = some (.file content)) :
    ∃ other, u.at? location = some (.file other) := by
  rcases h.nodes location with hsame | ⟨_, _, other, _, _, hother⟩
  · exact ⟨content, by rw [hsame, hfile]⟩
  · exact ⟨other, hother⟩

theorem Overwrites.at?_eq_none_iff (h : u.Overwrites t) : u.at? location = none ↔
    t.at? location = none := by
  rcases h.nodes location with hsame | ⟨above, name, content, rfl, hholds, hfile⟩
  · rw [hsame]
  · rw [hfile]
    apply Iff.intro
    · intro hnone
      cases hnone
    · intro hnone
      rcases hholds.node with ⟨_, hfile⟩ | ⟨_, hlink⟩
      · cases hnone.symm.trans hfile
      · cases hnone.symm.trans hlink

theorem Overwrites.canPut (h : u.Overwrites t) (hholds : t.HoldsFile folder name) :
    u.CanPut folder name := by
  obtain ⟨hname, hfolder, hno⟩ := hholds.canPut
  refine ⟨hname, h.at?_folder hfolder, ?_⟩
  rcases h.nodes (folder ++ [name]) with hsame | ⟨_, _, _, _, _, hfile⟩
  · rwa [hsame]
  · rw [hfile]
    exact fun heq => nomatch heq

theorem contains_iff_of_ne_nil (hne : location ≠ []) :
    t.nodes.contains location = true ↔ t.at? location ≠ none := by
  rw [OrderedMap.contains, at?, nodeAt?, if_neg hne, Option.isSome_iff_ne_none]

/-- A file that is put where a file or a link to one was leaves a tree of this kind. -/
theorem Overwrites.of_rewrites (h : u.Overwrites t) (hholds : t.HoldsFile folder name)
    {content : Content} (hrewrites : v.Rewrites u (folder ++ [name]) content) : v.Overwrites t := by
  have hne : folder ++ [name] ≠ [] := by simp
  have hthere : u.nodes.contains (folder ++ [name]) = true := by
    have hkey : folder ++ [name] ∈ t.nodes.keys := by
      rw [OrderedMap.mem_keys_iff, contains_iff_of_ne_nil hne]
      rcases hholds.node with ⟨_, hfile⟩ | ⟨_, hlink⟩
      · rw [hfile]
        exact Option.some_ne_none _
      · rw [hlink]
        exact Option.some_ne_none _
    rwa [← h.keys, OrderedMap.mem_keys_iff] at hkey
  refine ⟨hrewrites.workingFolder.trans h.workingFolder, ?_, fun location => ?_⟩
  · rw [← h.keys, hrewrites.nodes]
    refine OrderedMap.keys_eq_of_contains_iff fun key => ?_
    rw [OrderedMap.contains, OrderedMap.get?_insert]
    by_cases hkey : key = folder ++ [name]
    · rw [if_pos hkey, hkey]
      exact ⟨fun _ => hthere, fun _ => rfl⟩
    · rw [if_neg hkey]
      rfl
  · rw [hrewrites.at?_eq hne]
    by_cases hlocation : location = folder ++ [name]
    · rw [if_pos hlocation]
      exact .inr ⟨folder, name, content, hlocation, hholds, rfl⟩
    · rw [if_neg hlocation]
      exact h.nodes location

/-! ### Ways -/

theorem not_mem_tail_append {α : Type} {a : α} {front back : List α} (hfront : a ∉ front.tail)
    (hback : a ∉ back) : a ∉ (front ++ back).tail := by
  cases front with
  | nil => exact fun hmem => hback (List.mem_of_mem_tail hmem)
  | cons first rest =>
    intro hmem
    rcases List.mem_append.1 hmem with hrest | hmore
    · exact hfront hrest
    · exact hback hmore

/-- The steps of a link start at the root at most at their beginning. -/
theorem Takes.root_not_mem_tail {step : Component} {count : Nat} {next : Location}
    {more : List Component} (htakes : t.Takes location step count next more) :
    .root ∉ more.tail := by
  cases htakes with
  | link => exact Path.root_not_mem_tail_walk _
  | _ => exact List.not_mem_nil

/-- A step goes as it did, or ends at a file where it went through a link to one. -/
theorem Overwrites.takes (h : u.Overwrites t) {step : Component} {count : Nat} {next : Location}
    {more : List Component} (htakes : t.Takes location step count next more) :
    u.Takes location step count next more ∨ ∃ name content, step = .named name ∧
      t.HoldsFile location name ∧ u.Takes location step 0 (location ++ [name]) [] ∧
      u.at? (location ++ [name]) = some (.file content) := by
  cases htakes with
  | root => exact .inl (.root location)
  | current hfolder => exact .inl (.current (h.at?_folder hfolder))
  | parent hfolder => exact .inl (.parent (h.at?_folder hfolder))
  | @named _ node hfolder hname hnode hlinks =>
    rcases h.nodes _ with hsame | ⟨_, _, content, _, _, hfile⟩
    · exact .inl (.named (h.at?_folder hfolder) hname (hsame.trans hnode) hlinks)
    · exact .inl (.named (h.at?_folder hfolder) hname hfile fun _ heq => nomatch heq)
  | link hfolder hname hlink =>
    rcases h.nodes _ with hsame | ⟨above, name, content, heq, hholds, hfile⟩
    · exact .inl (.link (h.at?_folder hfolder) hname (hsame.trans hlink))
    · obtain ⟨rfl, hlast⟩ := List.append_inj' heq rfl
      cases hlast
      exact .inr ⟨_, content, rfl, hholds,
        .named (h.at?_folder hfolder) hname hfile fun _ heq => (nomatch heq), hfile⟩

/-- A way leads to the same place through no more links, or to a file where it led to a file. -/
theorem Way.of_overwrites (hway : t.Way .node links location steps place) (h : u.Overwrites t)
    (hroot : .root ∉ steps.tail) :
    ∃ fewer ≤ links, ∃ other, u.Way .node fewer location steps other ∧
      (other = place ∨ (∃ content, t.at? place = some (.file content)) ∧
        ∃ content, u.at? other = some (.file content)) := by
  induction hway with
  | done location => exact ⟨0, Nat.le_refl _, location, .done location, .inl rfl⟩
  | missing _ _ _ hending => cases hending
  | @step location next place step more rest links count htakes hway ih =>
    have hway' : t.Way .node (links + count) location (step :: rest) place := .step htakes hway
    rcases h.takes htakes with hsame | ⟨name, content, rfl, hholds, hnamed, hfile⟩
    · have hrest := not_mem_tail_append htakes.root_not_mem_tail hroot
      obtain ⟨fewer, hfewer, other, hother, hplace⟩ := ih hrest
      exact ⟨fewer + count, by omega, other, .step hsame hother, hplace⟩
    · obtain ⟨rfl, hplace⟩ := hholds.ends hway' hroot
      exact ⟨0, Nat.zero_le _, location ++ [name], .step hnamed (.done _),
        .inr ⟨hplace, content, hfile⟩⟩

/-- Where a way to a folder or a file leads once files stand in the place of links. -/
theorem Overwrites.way (h : u.Overwrites t) (hway : t.Way .node links location steps place)
    (hroot : .root ∉ steps.tail) :
    ∃ fewer ≤ links, ∃ other, u.Way .node fewer location steps other ∧
      (t.at? place = some .folder → other = place) ∧
      ∀ content, t.at? place = some (.file content) →
        ∃ content, u.at? other = some (.file content) := by
  obtain ⟨fewer, hfewer, other, hother, rfl | ⟨⟨_, hold⟩, hnew⟩⟩ := hway.of_overwrites h hroot
  · exact ⟨fewer, hfewer, other, hother, fun _ => rfl, fun _ hfile => h.at?_file hfile⟩
  · refine ⟨fewer, hfewer, other, hother, fun hfolder => ?_, fun _ _ => hnew⟩
    cases hfolder.symm.trans hold

theorem Overwrites.resolve (h : u.Overwrites t) (hresolve : t.resolve .node path = .ok place) :
    ∃ other, u.resolve .node path = .ok other ∧ (t.at? place = some .folder → other = place) ∧
      ∀ content, t.at? place = some (.file content) →
        ∃ content, u.at? other = some (.file content) := by
  obtain ⟨hsteps, links, hlinks, hway⟩ := resolve_eq_ok_iff_way.1 hresolve
  obtain ⟨fewer, hfewer, other, hother, hends⟩ := h.way hway path.root_not_mem_tail_walk
  refine ⟨other, resolve_eq_ok_iff_way.2 ⟨hsteps, fewer, by omega, ?_⟩, hends⟩
  rwa [h.workingFolder]

theorem Overwrites.leadsSomewhere (h : u.Overwrites t) (hleads : t.leadsSomewhere path = true) :
    u.leadsSomewhere path = true := by
  obtain ⟨place, hplace⟩ := leadsSomewhere_iff.1 hleads
  obtain ⟨other, hother, _⟩ := h.resolve hplace
  exact leadsSomewhere_iff.2 ⟨other, hother⟩

/-! ### Spots -/

theorem LeadsToSpot.of_overwrites (hspot : t.LeadsToSpot path folder name) (h : u.Overwrites t)
    (hholds : t.HoldsFile folder name) : u.LeadsToSpot path folder name := by
  obtain ⟨first, rest, links, hpieces, hlinks, hway⟩ := hspot.above
  obtain ⟨fewer, hfewer, other, hother, hsame, _⟩ :=
    h.way hway (Path.root_not_mem_tail_stepsAlong (first :: rest))
  rw [hsame hspot.canPut.2.1, ← h.workingFolder] at hother
  exact ⟨hspot.steps, ⟨first, rest, fewer, hpieces, by omega, hother⟩, h.canPut hholds⟩

theorem LeadsToSpot.spotOf (h : t.LeadsToSpot path folder name) :
    t.spotOf path = .ok (folder, name) := by
  obtain ⟨first, rest, links, hpieces, hlinks, hway⟩ := h.above
  have hspot := spotOf_of_way h.steps (Path.walk_of_concat hpieces) hlinks hway
  rwa [Path.stepOf_name h.canPut.1] at hspot

/-- Where a file stands under the last step of a path, it is read. -/
theorem LeadsToSpot.readText (h : t.LeadsToSpot path folder name) {s : String}
    (hfile : t.at? (folder ++ [name]) = some (.file (.text s))) : t.readText path = .ok s := by
  obtain ⟨first, rest, links, hpieces, hlinks, hway⟩ := h.above
  obtain ⟨hname, hfolder, _⟩ := h.canPut
  have hresolve : t.resolve .node path = .ok (folder ++ [name]) := by
    refine resolve_eq_ok_iff_way.2 ⟨h.steps, links, hlinks, ?_⟩
    rw [Path.walk_of_concat hpieces, Path.stepOf_name hname, way_append_iff (List.cons_ne_nil _ _)]
    exact ⟨links, 0, folder, rfl, hway,
      .step (.named hfolder hname hfile fun _ heq => nomatch heq) (.done _)⟩
  simp only [FileTree.readText, FileTree.read, bind_eq_ok_iff]
  exact ⟨.file (.text s), ⟨_, hresolve, by rw [hfile]⟩, rfl⟩

end SidecarIndex.FileTree

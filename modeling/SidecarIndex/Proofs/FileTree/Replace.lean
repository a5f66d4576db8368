import SidecarIndex.Proofs.FileTree.Outline
import SidecarIndex.Proofs.FileTree.Way
import SidecarIndex.Proofs.Path

/-! # Replacing a file

What a path leads to is replaced whole or not at all. A replacement that succeeds leaves the tree
the same but for the file under the last step of the path. One that fails, as the temporary file
beside it cannot have its name or its path or as the system refuses something, leaves at most the
temporary file. -/

namespace SidecarIndex.FileTree

variable {t u : FileTree}

/-! ### Another content for a file -/

/-- A tree is another one with a new content for one file. -/
structure Rewrites (u t : FileTree) (location : Location) (content : Content) : Prop where
  workingFolder : u.workingFolder = t.workingFolder
  nodes : u.nodes = t.nodes.insert location (.file content)

theorem ne_nil_of_file {location : Location} {content : Content}
    (h : t.at? location = some (.file content)) : location ≠ [] := by
  intro hnil
  rw [hnil, at?_top] at h
  cases h

theorem Rewrites.at?_eq {location : Location} {content : Content}
    (h : u.Rewrites t location content) (hne : location ≠ []) (other : Location) :
    u.at? other = if other = location then some (.file content) else t.at? other := by
  rw [at?, h.nodes]
  exact nodeAt?_insert t.nodes location other (.file content) hne

theorem Rewrites.alike {location : Location} {content old : Content}
    (h : u.Rewrites t location content)
    (hfile : t.at? location = some (.file old)) : t.Alike u := by
  have hget : t.nodes.get? location = some (.file old) := by
    rw [at?, nodeAt?, if_neg (ne_nil_of_file hfile)] at hfile
    exact hfile
  refine ⟨h.workingFolder.symm, OrderedMap.ext_get? fun other => ?_⟩
  rw [outline, outline, OrderedMap.get?_mapValues, OrderedMap.get?_mapValues, h.nodes,
    OrderedMap.get?_insert]
  by_cases hother : other = location
  · rw [if_pos hother, hother, hget]
    rfl
  · rw [if_neg hother]

/-- A name for a temporary file: it has no slash and no meaning as a step of its own. -/
structure IsTemporary (name : String) : Prop where
  noSlash : '/' ∉ name.toList
  step : Component.ofPiece? name.toList = some (.named name)

theorem put?_of_canPut {folder : Location} {name : String} (node : Node)
    (h : t.CanPut folder name) : t.put? folder name node = .ok (t.put folder name node h) :=
  dif_pos h

/-- The temporary file beside a file can have its name and its path. -/
structure HasRoom (path : Path) (temporary : String) : Prop where
  isFileName : IsFileName temporary
  steps : stepsOf (path.parent.join ⟨temporary⟩) = .ok (path.parent.join ⟨temporary⟩).walk

theorem hasRoom_iff {path : Path} {temporary : String} : HasRoom path temporary ↔
    IsFileName temporary ∧
      stepsOf (path.parent.join ⟨temporary⟩) = .ok (path.parent.join ⟨temporary⟩).walk :=
  ⟨fun h => ⟨h.isFileName, h.steps⟩, fun h => ⟨h.1, h.2⟩⟩

instance (path : Path) (temporary : String) : Decidable (HasRoom path temporary) :=
  decidable_of_iff _ hasRoom_iff.symm

theorem putFile_eq_ok {path : Path} {content : Content} (h : t.putFile path content = .ok u) :
    ∃ folder name, ∃ hput : t.CanPut folder name, t.resolve .spot path = .ok (folder ++ [name]) ∧
      u = t.put folder name (.file content) hput := by
  rw [putFile, bind_eq_ok_iff] at h
  obtain ⟨place, hplace, hput⟩ := h
  split at hput
  · rename_i name hname
    obtain ⟨folder, rfl⟩ := List.getLast?_eq_some_iff.1 hname
    rw [List.dropLast_concat, put?] at hput
    split at hput
    · rename_i hcan
      cases hput
      exact ⟨folder, name, hcan, hplace, rfl⟩
    · split at hput
      · cases hput
      · split at hput
        · cases hput
        · cases hput
  · cases hput

/-- A path to a folder with a name behind it, under which a file can be put there. -/
structure LeadsToSpot (t : FileTree) (path : Path) (folder : Location) (name : String) : Prop where
  steps : stepsOf path = .ok path.walk
  above : ∃ first rest links, path.pieces = first :: (rest ++ [name.toList]) ∧ links ≤ linkLimit ∧
    t.Way .node links t.workingFolder (Path.stepsAlong (first :: rest)) folder
  canPut : t.CanPut folder name

/-! ### The temporary file -/

/-- A temporary file beside what a path leads to is put into the same folder when there is room for
it, and else it cannot be. -/
theorem LeadsToSpot.putFile_beside {path : Path} {folder : Location} {name temporary : String}
    (h : t.LeadsToSpot path folder name) (htemporary : IsTemporary temporary)
    (hfresh : t.at? (folder ++ [temporary]) = none) (content : Content) :
    (HasRoom path temporary ∧ ∃ hput : t.CanPut folder temporary,
      t.putFile (path.parent.join ⟨temporary⟩) content
        = .ok (t.put folder temporary (.file content) hput)) ∨
    (¬ HasRoom path temporary ∧ ∃ fault,
      t.putFile (path.parent.join ⟨temporary⟩) content = .error fault) := by
  obtain ⟨first, rest, links, hpieces, hlinks, hway⟩ := h.above
  obtain ⟨hname, hfolder, _⟩ := h.canPut
  obtain ⟨kept, count, habove, hbeside⟩ := Path.walk_parent_join hpieces (Path.isStep_name hname)
    htemporary.noSlash htemporary.step
  rw [habove, way_append_current_iff hfolder] at hway
  by_cases hroom : HasRoom path temporary
  · have hcan : t.CanPut folder temporary := by
      refine ⟨hroom.isFileName, hfolder, ?_⟩
      rw [hfresh]
      exact fun hnone => nomatch hnone
    refine .inl ⟨hroom, hcan, ?_⟩
    have hresolve : t.resolve .spot (path.parent.join ⟨temporary⟩)
        = .ok (folder ++ [temporary]) := by
      refine resolve_eq_ok_iff_way.2 ⟨hroom.steps, links, hlinks, ?_⟩
      rw [hbeside, way_append_iff (List.cons_ne_nil _ _)]
      exact ⟨links, 0, folder, rfl, hway, .missing hfolder hroom.isFileName hfresh rfl⟩
    rw [putFile, hresolve]
    refine bind_eq_ok_iff.2 ⟨_, rfl, ?_⟩
    simp only [List.getLast?_concat, List.dropLast_concat, put?_of_canPut _ hcan]
  · refine .inr ⟨hroom, ?_⟩
    cases hwrite : t.putFile (path.parent.join ⟨temporary⟩) content with
    | error fault => exact ⟨fault, rfl⟩
    | ok u =>
      obtain ⟨_, _, _, hresolve, _⟩ := putFile_eq_ok hwrite
      obtain ⟨hsteps, _, _, hspot⟩ := resolve_eq_ok_iff_way.1 hresolve
      rw [hbeside, way_append_iff (List.cons_ne_nil _ _)] at hspot
      obtain ⟨_, _, _, _, _, hnamed⟩ := hspot
      exact absurd ⟨hnamed.isFileName, hsteps⟩ hroom

/-- The spot to which a last step leads from a folder, when it is a name. -/
def spotAt (folder : Location) : Component → Except FileFault (Location × String)
  | .named name => .ok (folder, name)
  | _ => .error .noFolder

theorem spotOf_of_steps {path : Path} {steps : List Component} (h : stepsOf path = .ok steps) :
    t.spotOf path = match splitLast? steps with
      | some (above, name) => do return (← t.walk .node linkLimit t.workingFolder above, name)
      | none => .error .noFolder := by
  rw [spotOf, h]
  rfl

theorem spotOf_of_way {path : Path} {above : List Component} {step : Component} {folder : Location}
    {links : Nat} (hsteps : stepsOf path = .ok path.walk) (hwalk : path.walk = above ++ [step])
    (hlinks : links ≤ linkLimit) (hway : t.Way .node links t.workingFolder above folder) :
    t.spotOf path = spotAt folder step := by
  have hplace := walk_eq_ok_iff.2 ⟨links, hlinks, hway⟩
  rw [spotOf_of_steps hsteps, hwalk]
  cases step with
  | named name =>
    rw [Path.splitLast?_concat]
    exact bind_eq_ok_iff.2 ⟨folder, hplace, rfl⟩
  | root => simp [splitLast?, spotAt]
  | current => simp [splitLast?, spotAt]
  | parent => simp [splitLast?, spotAt]

/-- Once a file has been written beside the last step of a path, the path and the one of the file
lead to spots in the same folder. -/
theorem spots_of_putFile {p : Path} {first last : List Char} {rest : List (List Char)}
    {temporary : String} {content : Content} (hp : p.pieces = first :: (rest ++ [last]))
    (hlast : Path.IsStep last) (htemporary : IsTemporary temporary)
    (hsteps : stepsOf p = .ok p.walk)
    (hwrite : t.putFile (p.parent.join ⟨temporary⟩) content = .ok u) :
    ∃ folder links, links ≤ linkLimit ∧ t.at? folder = some .folder ∧
      t.Way .node links t.workingFolder (Path.stepsAlong (first :: rest)) folder ∧
      u.spotOf (p.parent.join ⟨temporary⟩) = .ok (folder, temporary) ∧
      u.spotOf p = spotAt folder (Path.stepOf last) := by
  obtain ⟨kept, count, habove, hbeside⟩ :=
    Path.walk_parent_join hp hlast htemporary.noSlash htemporary.step
  obtain ⟨above, name, hput, hresolve, rfl⟩ := putFile_eq_ok hwrite
  obtain ⟨hbesideSteps, links, hlinks, hway⟩ := resolve_eq_ok_iff_way.1 hresolve
  have hkeeps : t.Kept (t.put above name (.file content) hput) := by
    refine kept_put hput (hway.not_link fun hnil => ?_) content
    rw [hbeside] at hnil
    exact absurd hnil (by simp)
  rw [hbeside] at hway
  obtain ⟨first', second, folder, rfl, hkept, hnamed⟩ :=
    (way_append_iff (List.cons_ne_nil _ _)).1 hway
  have hfolder := hnamed.folder_of_step fun heq => nomatch heq
  have hless : first' ≤ linkLimit := by omega
  have hstay := (way_append_current_iff hfolder count).2 hkept
  rw [← habove] at hstay
  refine ⟨folder, first', hless, hfolder, hstay, ?_, ?_⟩
  · exact spotOf_of_way hbesideSteps hbeside hless (hkept.of_kept hkeeps)
  · exact spotOf_of_way hsteps (Path.walk_of_concat hp) hless (hstay.of_kept hkeeps)

theorem moveFile_file {source target : Path} {folder : Location} {name newName : String}
    {content : Content} (hsource : t.spotOf source = .ok (folder, name))
    (htarget : t.spotOf target = .ok (folder, newName))
    (hfile : t.at? (folder ++ [name]) = some (.file content))
    (hcan : (t.remove (folder ++ [name])).CanPut folder newName) :
    t.moveFile source target
      = .ok ((t.remove (folder ++ [name])).put folder newName (.file content) hcan) := by
  rw [moveFile, hsource]
  refine bind_eq_ok_iff.2 ⟨_, rfl, ?_⟩
  rw [htarget]
  refine bind_eq_ok_iff.2 ⟨_, rfl, ?_⟩
  simp only [hfile]
  exact put?_of_canPut _ hcan

theorem ne_append_name (folder : Location) (name : String) : folder ≠ folder ++ [name] := by
  intro heq
  exact List.cons_ne_nil _ _ (List.self_eq_append_right.1 heq)

theorem at?_put_self {folder : Location} {name : String} {node : Node} (h : t.CanPut folder name) :
    (t.put folder name node h).at? (folder ++ [name]) = some node := by
  rw [at?_put, if_pos rfl]

theorem at?_remove_file {folder : Location} {name : String} {content : Content}
    (hfile : t.at? (folder ++ [name]) = some (.file content)) (location : Location) :
    (t.remove (folder ++ [name])).at? location =
      if location = folder ++ [name] then none else t.at? location := by
  refine t.at?_remove (folder ++ [name]) location ?_
  rw [hfile]
  exact fun heq => nomatch heq

/-- What could be put under a name still can be when a file has been put beside it and taken
away. -/
theorem canPut_remove_put {folder : Location} {name temporary : String}
    (hput : t.CanPut folder temporary) (h : t.CanPut folder name) (content : Content) :
    ((t.put folder temporary (.file content) hput).remove (folder ++ [temporary])).CanPut
      folder name := by
  obtain ⟨hname, hfolder, hnoFolder⟩ := h
  have hinside := ne_append_name folder temporary
  refine ⟨hname, ?_, ?_⟩
  · rw [at?_remove_file (at?_put_self hput), if_neg hinside, at?_put, if_neg hinside, hfolder]
  · rw [at?_remove_file (at?_put_self hput)]
    split
    · exact fun heq => nomatch heq
    · rename_i hother
      rw [at?_put, if_neg hother]
      exact hnoFolder

/-- What has been put under a fresh name and then under another one stands under the other one
only. -/
theorem rewrites_put_remove_put {folder : Location} {name temporary : String} {content : Content}
    (hput : t.CanPut folder temporary) (hfresh : t.at? (folder ++ [temporary]) = none)
    (hcan : ((t.put folder temporary (.file content) hput).remove (folder ++ [temporary])).CanPut
      folder name) :
    (((t.put folder temporary (.file content) hput).remove (folder ++ [temporary])).put folder name
      (.file content) hcan).Rewrites t (folder ++ [name]) content := by
  have hnoFolder : (t.put folder temporary (.file content) hput).at? (folder ++ [temporary])
      ≠ some .folder := by
    rw [at?_put_self]
    exact fun heq => nomatch heq
  have hnone : t.nodes.get? (folder ++ [temporary]) = none := by
    rw [at?, nodeAt?, if_neg (by simp)] at hfresh
    exact hfresh
  have hnodes : ((t.put folder temporary (.file content) hput).remove (folder ++ [temporary])).nodes
      = t.nodes := by
    rw [remove, dif_neg hnoFolder]
    exact OrderedMap.erase_insert_of_get?_none hnone _
  have hworking : ((t.put folder temporary (.file content) hput).remove
      (folder ++ [temporary])).workingFolder = t.workingFolder := by
    rw [remove, dif_neg hnoFolder]
    rfl
  exact ⟨hworking, congrArg (fun nodes => nodes.insert (folder ++ [name]) (.file content)) hnodes⟩

theorem put_rewrites {folder : Location} {name : String} (h : t.CanPut folder name)
    (content : Content) :
    (t.put folder name (.file content) h).Rewrites t (folder ++ [name]) content := ⟨rfl, rfl⟩

section Equations

-- Without this the equation is checked by following a path through an unknown tree.
attribute [local irreducible] write rename

theorem replace_eq (t : FileTree) (refused : Option Refusal) (path : Path) (temporary : String)
    (content : Content) : t.replace refused path temporary content =
      match t.write refused (path.parent.join ⟨temporary⟩) content with
      | (.error fault, u) => (.error fault, u)
      | (.ok (), u) => match u.rename refused (path.parent.join ⟨temporary⟩) path with
        | .error fault => (.error fault, u)
        | .ok v => (.ok (), v) := rfl

end Equations

theorem replace_none_eq (t : FileTree) (path : Path) (temporary : String) (content : Content) :
    t.replace none path temporary content
      = match t.putFile (path.parent.join ⟨temporary⟩) content with
      | .error fault => (.error fault, t)
      | .ok u => match u.moveFile (path.parent.join ⟨temporary⟩) path with
        | .error fault => (.error fault, u)
        | .ok v => (.ok (), v) := by
  have hwritten : written none content = content := rfl
  rw [replace_eq, write, hwritten]
  cases t.putFile (path.parent.join ⟨temporary⟩) content with
  | error fault => rfl
  | ok u =>
    simp only [rename]
    cases u.moveFile (path.parent.join ⟨temporary⟩) path with
    | error fault => rfl
    | ok v => rfl

theorem putFile_of_write {refused : Option Refusal} {path : Path} {content : Content}
    (h : t.write refused path content = (.ok (), u)) :
    t.putFile path (written refused content) = .ok u := by
  rw [write] at h
  split at h
  · cases h
  · rename_i v hput
    rcases refused with _ | (reason | ⟨kept, reason⟩ | reason)
    · cases h
      exact hput
    · cases h
    · cases h
    · cases h
      exact hput

/-- A replacement that fails changes nothing, or leaves the temporary file with some of the
content. -/
theorem exists_of_replace_error {refused : Option Refusal} {path : Path} {temporary : String}
    {content : Content} {fault : FileFault}
    (h : t.replace refused path temporary content = (.error fault, u)) :
    u = t ∨ ∃ left, t.putFile (path.parent.join ⟨temporary⟩) left = .ok u := by
  rw [replace_eq, write] at h
  cases hput : t.putFile (path.parent.join ⟨temporary⟩) (written refused content) with
  | error other =>
    rw [hput] at h
    exact .inl (Prod.mk.inj h).2.symm
  | ok v =>
    rw [hput] at h
    rcases refused with _ | (reason | ⟨kept, reason⟩ | reason)
    · simp only at h
      split at h
      · exact .inr ⟨_, (Prod.mk.inj h).2 ▸ hput⟩
      · cases h
    · exact .inl (Prod.mk.inj h).2.symm
    · exact .inr ⟨_, (Prod.mk.inj h).2 ▸ hput⟩
    · simp only at h
      split at h
      · exact .inr ⟨_, (Prod.mk.inj h).2 ▸ hput⟩
      · cases h

/-- What the system refuses makes a replacement fail. -/
theorem exists_error_of_refused {refused : Option Refusal} (hrefused : refused ≠ none)
    (t : FileTree) (path : Path) (temporary : String) (content : Content) :
    ∃ fault u, t.replace refused path temporary content = (.error fault, u) := by
  rw [replace_eq, write]
  cases t.putFile (path.parent.join ⟨temporary⟩) (written refused content) with
  | error fault => exact ⟨fault, t, rfl⟩
  | ok u =>
    rcases refused with _ | (reason | ⟨kept, reason⟩ | reason)
    · exact absurd rfl hrefused
    · exact ⟨_, _, rfl⟩
    · exact ⟨_, _, rfl⟩
    · simp only [rename]
      cases u.moveFile (path.parent.join ⟨temporary⟩) path with
      | error fault => exact ⟨fault, u, rfl⟩
      | ok v => exact ⟨_, u, rfl⟩

theorem refused_of_replace {refused : Option Refusal} {path : Path} {temporary : String}
    {content : Content} (h : t.replace refused path temporary content = (.ok (), u)) :
    refused = none := by
  by_contra hrefused
  obtain ⟨_, _, herror⟩ := exists_error_of_refused hrefused t path temporary content
  cases h.symm.trans herror

/-- What is under the last step of a path is replaced, and nothing else changes, when there is room
for a temporary file beside it and nothing is refused. Else at most this file is new, and nothing at
all when nothing is refused. -/
theorem LeadsToSpot.replace_cases {path : Path} {folder : Location} {name temporary : String}
    (h : t.LeadsToSpot path folder name) (htemporary : IsTemporary temporary)
    (hfresh : t.at? (folder ++ [temporary]) = none) (refused : Option Refusal) (content : Content) :
    (HasRoom path temporary ∧ refused = none ∧
      ∃ u, t.replace refused path temporary content = (.ok (), u) ∧
      u.Rewrites t (folder ++ [name]) content) ∨
    (¬ (HasRoom path temporary ∧ refused = none) ∧ ∃ fault u,
      t.replace refused path temporary content = (.error fault, u) ∧
      (u = t ∨ refused ≠ none ∧ ∃ left, u.Rewrites t (folder ++ [temporary]) left)) := by
  by_cases hrefused : refused = none
  · subst hrefused
    rcases h.putFile_beside htemporary hfresh content with ⟨hroom, hput, hwrite⟩ |
      ⟨hroom, fault, hwrite⟩
    · obtain ⟨first, rest, links, hpieces, _, hway⟩ := h.above
      obtain ⟨_, _, _, _, hother, hsource, htarget⟩ :=
        spots_of_putFile hpieces (Path.isStep_name h.canPut.1) htemporary h.steps hwrite
      obtain ⟨_, rfl⟩ := hway.unique hother
      rw [Path.stepOf_name h.canPut.1] at htarget
      have hcan := canPut_remove_put hput h.canPut content
      have hmove := moveFile_file hsource htarget (at?_put_self hput) hcan
      refine .inl ⟨hroom, rfl, _, ?_, rewrites_put_remove_put hput hfresh hcan⟩
      simp only [replace_none_eq, hwrite, hmove]
    · refine .inr ⟨fun hboth => hroom hboth.1, fault, t, ?_, .inl rfl⟩
      simp only [replace_none_eq, hwrite]
  · obtain ⟨fault, u, hreplace⟩ := exists_error_of_refused hrefused t path temporary content
    refine .inr ⟨fun hboth => hrefused hboth.2, fault, u, hreplace, ?_⟩
    rcases exists_of_replace_error hreplace with rfl | ⟨left, hput⟩
    · exact .inl rfl
    · rcases h.putFile_beside htemporary hfresh left with ⟨_, hcan, hwrite⟩ | ⟨_, _, hwrite⟩
      · rw [hput] at hwrite
        cases hwrite
        exact .inr ⟨hrefused, left, put_rewrites hcan left⟩
      · cases hput.symm.trans hwrite

/-! ### Without links -/

/-- A path to a file in a folder, by a last step that is its name. -/
structure LeadsToFile (t : FileTree) (path : Path) (folder : Location) (name : String) : Prop where
  steps : stepsOf path = .ok path.walk
  above : ∃ first rest, path.pieces = first :: (rest ++ [name.toList]) ∧
    t.walk .node 0 t.workingFolder (Path.stepsAlong (first :: rest)) = .ok folder
  isFile : ∃ content, t.at? (folder ++ [name]) = some (.file content)

theorem LeadsToFile.closed {path : Path} {folder : Location} {name : String}
    (h : t.LeadsToFile path folder name) : IsFileName name ∧ t.at? folder = some .folder := by
  obtain ⟨content, hfile⟩ := h.isFile
  refine t.closed folder name ?_
  show t.at? (folder ++ [name]) ≠ none
  rw [hfile]
  exact Option.some_ne_none _

theorem way_of_walk_zero {location place : Location} {steps : List Component}
    (h : t.walk .node 0 location steps = .ok place) : t.Way .node 0 location steps place := by
  obtain ⟨count, hcount, hway⟩ := walk_eq_ok_iff.1 h
  cases Nat.le_zero.1 hcount
  exact hway

theorem LeadsToFile.leadsToSpot {path : Path} {folder : Location} {name : String}
    (h : t.LeadsToFile path folder name) : t.LeadsToSpot path folder name := by
  obtain ⟨first, rest, hpieces, hwalk⟩ := h.above
  obtain ⟨content, hfile⟩ := h.isFile
  obtain ⟨hname, hfolder⟩ := h.closed
  refine ⟨h.steps, ⟨first, rest, 0, hpieces, Nat.zero_le _, way_of_walk_zero hwalk⟩, hname,
    hfolder, ?_⟩
  rw [hfile]
  exact fun heq => nomatch heq

/-! ### Files below a root -/

/-- The pieces that a root puts in front of the paths below it lead to the root. -/
theorem walk_stem (hlinks : t.LinkFree) {root : Path} {base names : Location}
    (hroot : t.resolve .node root = .ok base) (hthere : t.at? (base ++ names) ≠ none)
    (hne : names ≠ []) :
    ∃ front, root.IsStem front ∧ t.walk .node 0 t.workingFolder (Path.stepsAlong front)
      = .ok base := by
  obtain ⟨hsteps, hwalk⟩ := (resolve_eq_ok_iff hlinks).1 hroot
  have htext := text_ne_of_stepsOf hsteps
  obtain ⟨front, hstem⟩ := Path.exists_isStem htext
  obtain ⟨count, hsame⟩ := hstem.walk_root htext
  have hway := way_of_walk_zero hwalk
  rw [hsame, way_append_current_iff (at?_above hne hthere)] at hway
  exact ⟨front, hstem, walk_eq_ok_iff.2 ⟨0, Nat.le_refl _, hway⟩⟩

theorem resolve_below (hlinks : t.LinkFree) {root : Path} {base names : Location}
    (hroot : t.resolve .node root = .ok base) (hthere : t.at? (base ++ names) ≠ none)
    (hne : names ≠ []) (hsteps : stepsOf (root.below names) = .ok (root.below names).walk) :
    t.resolve .node (root.below names) = .ok (base ++ names) := by
  obtain ⟨front, hstem, hfront⟩ := walk_stem hlinks hroot hthere hne
  refine (resolve_eq_ok_iff hlinks).2 ⟨hsteps, ?_⟩
  rw [hstem.walk_below (isFileName_of_at? hthere) hne,
    walk_append hlinks .node _ _ (by simpa using hne), hfront]
  exact walk_names hlinks hthere

theorem leadsToFile_below (hlinks : t.LinkFree) {root : Path} {base folder : Location}
    {name : String} {content : Content} (hroot : t.resolve .node root = .ok base)
    (hfile : t.at? (base ++ (folder ++ [name])) = some (.file content))
    (hsteps : stepsOf (root.below (folder ++ [name])) = .ok (root.below (folder ++ [name])).walk) :
    t.LeadsToFile (root.below (folder ++ [name])) (base ++ folder) name := by
  have hthere : t.at? (base ++ (folder ++ [name])) ≠ none := by
    rw [hfile]
    exact Option.some_ne_none _
  have hsplit : base ++ (folder ++ [name]) = (base ++ folder) ++ [name] := by simp
  obtain ⟨front, hstem, hfront⟩ := walk_stem hlinks hroot hthere (by simp)
  obtain ⟨first, others, hcons⟩ := List.exists_cons_of_ne_nil hstem.ne_nil
  refine ⟨hsteps, ⟨first, others ++ folder.map String.toList, ?_, ?_⟩,
    content, by rw [← hsplit, hfile]⟩
  · rw [hstem.pieces_below (isFileName_of_at? hthere) (by simp), hcons]
    simp
  · rw [← List.cons_append, ← hcons, Path.stepsAlong_append hstem.ne_nil]
    cases folder with
    | nil => simpa using hfront
    | cons head tail =>
      have habove : t.at? (base ++ head :: tail) ≠ none := by
        rw [hsplit] at hthere
        rw [at?_above (List.cons_ne_nil name []) hthere]
        exact Option.some_ne_none _
      rw [Path.map_stepOf_names (isFileName_of_at? habove),
        walk_append hlinks .node _ _ (by simp), hfront]
      exact walk_names hlinks habove

end SidecarIndex.FileTree

import SidecarIndex.Proofs.FileTree.Spelling

/-! # What replacing a file touches

Whatever stands in a tree and wherever a path leads, replacing the file at it puts a temporary file
into one folder, and renames it there. So at most two spots of the folder change, and when the file
has been replaced only that under the last step of the path has. A way that goes through a link that
stood there is lost. -/

namespace SidecarIndex

namespace Path

theorem walk_eq_stepsAlong_append {p : Path} {front : List (List Char)} {last : List Char}
    (hp : p.pieces = front ++ [last]) (hlast : last ≠ []) :
    p.walk = stepsAlong front ++ [stepOf last] := by
  by_cases hfront : front = []
  · subst hfront
    have htext : p.text ≠ "" := by
      intro hempty
      rw [pieces_eq_iff.2 hempty] at hp
      exact hlast (List.cons.inj hp).1.symm
    rw [walk_eq_stepsAlong htext, hp]
    cases last with
    | nil => exact absurd rfl hlast
    | cons c cs => rfl
  · obtain ⟨first, rest, rfl⟩ := List.exists_cons_of_ne_nil hfront
    exact walk_of_concat hp

theorem named_mem_walk_join (base : Path) {p : Path} (hp : p.isAbsolute = false)
    (hlength : 3 ≤ p.lastPiece.length) :
    .named (String.ofList p.lastPiece) ∈ (base.join p).walk := by
  obtain ⟨front, _, hjoin⟩ := base.exists_pieces_join
  have hall := hjoin p hp
  rw [p.pieces_eq_concat, ← List.append_assoc] at hall
  have hne : p.lastPiece ≠ [] := by
    intro hnil
    rw [hnil] at hlength
    cases hlength
  rw [walk_eq_stepsAlong_append hall hne, stepOf, ofPiece?_of_length hlength, Option.getD_some]
  exact List.mem_append_right _ (List.mem_singleton.2 rfl)

/-- A path with a name as its last step has this name as its last piece. -/
theorem exists_pieces_of_walk {p : Path} {above : List Component} {name : String}
    (h : p.walk = above ++ [.named name]) :
    ∃ front, p.pieces = front ++ [name.toList] ∧ above = stepsAlong front ∧ IsStep name.toList := by
  have hp : p.text ≠ "" := by
    intro hempty
    have hwalk : p.walk = [] := by
      rw [walk, hempty]
      rfl
    rw [hwalk] at h
    exact List.cons_ne_nil _ _ (List.append_eq_nil_iff.1 h.symm).2
  have hconcat := p.pieces_eq_concat
  have hlast : p.lastPiece ≠ [] := by
    intro hnil
    rw [hnil] at hconcat
    have hfront : p.pieces.dropLast ≠ [] := by
      intro hempty
      rw [hempty] at hconcat
      exact hp (pieces_eq_iff.1 hconcat)
    obtain ⟨first, rest, hcons⟩ := List.exists_cons_of_ne_nil hfront
    rw [hcons, List.cons_append] at hconcat
    rw [walk_of_concat hconcat] at h
    cases (List.cons.inj (List.append_inj' h rfl).2).1
  rw [walk_eq_stepsAlong_append hconcat hlast] at h
  obtain ⟨habove, hname⟩ := List.append_inj' h rfl
  have hstep := (List.cons.inj hname).1
  refine ⟨p.pieces.dropLast, ?_, habove.symm, ?_⟩
  · rw [← eq_toList_of_stepOf hstep]
    exact hconcat
  · rw [← eq_toList_of_stepOf hstep]
    apply isStep_of_ne hlast
    rintro hdot
    rw [hdot] at hstep
    cases hstep

theorem parent_of_single {p : Path} {last : List Char} (hp : p.pieces = [last])
    (hlast : IsStep last) : p.parent = ⟨""⟩ := by
  have hup := aboveStep_concat [] hlast
  rw [List.nil_append] at hup
  rw [pieces] at hp
  unfold parent
  rw [hp]
  split
  · rename_i heq
    cases heq
    cases hlast
  · rename_i heq
    cases heq
    cases hlast
  · rename_i heq
    cases heq
    cases hlast
  · rw [hup]
    rfl

end Path

namespace FileTree

variable {t u v : FileTree} {path : Path} {temporary : String} {content : Content}

/-! ### The temporary file -/

theorem IsTemporary.ne_nil (h : IsTemporary temporary) : temporary.toList ≠ [] := by
  intro hnil
  have hstep := h.step
  rw [hnil] at hstep
  cases hstep

theorem IsTemporary.pieces_eq (h : IsTemporary temporary) :
    Path.pieces ⟨temporary⟩ = [temporary.toList] :=
  List.splitOn_eq_singleton h.noSlash

theorem IsTemporary.walk_eq (h : IsTemporary temporary) {p : Path} {front : List (List Char)}
    (hp : p.pieces = front ++ [temporary.toList]) :
    p.walk = Path.stepsAlong front ++ [.named temporary] := by
  rw [Path.walk_eq_stepsAlong_append hp h.ne_nil, Path.stepOf, h.step, Option.getD_some]

/-- A path to a temporary file ends in its name. -/
theorem exists_walk_join (htemporary : IsTemporary temporary) (base : Path) :
    ∃ above, (base.join ⟨temporary⟩).walk = above ++ [.named temporary] := by
  obtain ⟨front, _, hjoin⟩ := base.exists_pieces_join
  have hpieces := hjoin _ (Path.isAbsolute_eq_false htemporary.noSlash)
  rw [htemporary.pieces_eq] at hpieces
  exact ⟨Path.stepsAlong front, htemporary.walk_eq hpieces⟩

/-- What is written beside a path stands in one folder, under the name of the temporary file. -/
theorem exists_put_of_putFile (htemporary : IsTemporary temporary)
    (hfresh : ∀ folder, t.at? (folder ++ [temporary]) = none)
    (hwrite : t.putFile (path.parent.join ⟨temporary⟩) content = .ok u) :
    ∃ folder, ∃ hput : t.CanPut folder temporary,
      u = t.put folder temporary (.file content) hput := by
  obtain ⟨folder, name, hput, hresolve, rfl⟩ := putFile_eq_ok hwrite
  obtain ⟨above, habove⟩ := exists_walk_join htemporary path.parent
  obtain ⟨_, _, _, hway⟩ := resolve_eq_ok_iff_way.1 hresolve
  rw [habove, way_append_iff (List.cons_ne_nil _ _)] at hway
  obtain ⟨_, _, middle, _, _, hlast⟩ := hway
  generalize hplace : folder ++ [name] = place at hlast
  cases hlast with
  | missing =>
    obtain ⟨rfl, hname⟩ := List.append_inj' hplace rfl
    cases (List.cons.inj hname).1
    exact ⟨folder, hput, rfl⟩
  | step htakes => exact absurd htakes (not_takes_of_none (hfresh middle))

theorem spotOf_eq_ok {folder : Location} {name : String} (h : t.spotOf path = .ok (folder, name)) :
    ∃ above, stepsOf path = .ok path.walk ∧ path.walk = above ++ [.named name] ∧
      ∃ links ≤ linkLimit, t.Way .node links t.workingFolder above folder := by
  obtain ⟨steps, hsteps, h⟩ := bind_eq_ok_iff.1 h
  cases eq_walk_of_stepsOf hsteps
  split at h
  · rename_i above last hsplit
    obtain ⟨place, hplace, heq⟩ := bind_eq_ok_iff.1 h
    cases heq
    refine ⟨above, hsteps, ?_, walk_eq_ok_iff.1 hplace⟩
    unfold splitLast? at hsplit
    split at hsplit
    · rename_i hlast
      cases hsplit
      obtain ⟨front, hwalk⟩ := List.getLast?_eq_some_iff.1 hlast
      rw [hwalk, List.dropLast_concat]
    · cases hsplit
  · cases h

theorem moveFile_eq_ok {source target : Path} (h : t.moveFile source target = .ok u) :
    ∃ folder name newFolder newName node, t.spotOf source = .ok (folder, name) ∧
      t.spotOf target = .ok (newFolder, newName) ∧ t.at? (folder ++ [name]) = some node ∧
      ∃ hcan : (t.remove (folder ++ [name])).CanPut newFolder newName,
        u = (t.remove (folder ++ [name])).put newFolder newName node hcan := by
  obtain ⟨⟨folder, name⟩, hsource, h⟩ := bind_eq_ok_iff.1 h
  obtain ⟨⟨newFolder, newName⟩, htarget, h⟩ := bind_eq_ok_iff.1 h
  dsimp only at h
  split at h
  · cases h
  · cases h
  · rename_i node _ hnode
    refine ⟨folder, name, newFolder, newName, node, hsource, htarget, hnode, ?_⟩
    rw [put?] at h
    split at h
    · rename_i hcan
      cases h
      exact ⟨hcan, rfl⟩
    · split at h
      · cases h
      · split at h
        · cases h
        · cases h

/-- The temporary file and what it is to replace are spots in one folder, to which the steps in
front of the last one lead. -/
theorem exists_spot_of_putFile (htemporary : IsTemporary temporary)
    (hwrite : t.putFile (path.parent.join ⟨temporary⟩) content = .ok u) {folder : Location}
    {name : String} (htarget : u.spotOf path = .ok (folder, name)) :
    ∃ above, stepsOf path = .ok path.walk ∧ path.walk = above ++ [.named name] ∧
      (∃ links ≤ linkLimit, t.Way .node links t.workingFolder above folder) ∧
      u.spotOf (path.parent.join ⟨temporary⟩) = .ok (folder, temporary) := by
  obtain ⟨above, hsteps, hwalk, hway⟩ := spotOf_eq_ok htarget
  refine ⟨above, hsteps, hwalk, ?_⟩
  obtain ⟨front, hpieces, rfl, hlast⟩ := Path.exists_pieces_of_walk hwalk
  cases front with
  | nil =>
    -- The one step of the path starts from the working folder, and so does the temporary file.
    obtain ⟨_, _, hempty⟩ := hway
    cases hempty
    obtain ⟨_, _, hput, hresolve, rfl⟩ := putFile_eq_ok hwrite
    obtain ⟨hbeside, _⟩ := resolve_eq_ok_iff_way.1 hresolve
    have hjoin : path.parent.join ⟨temporary⟩ = ⟨temporary⟩ := by
      rw [Path.parent_of_single hpieces hlast, Path.join_empty]
    have hsingle : Path.pieces ⟨temporary⟩ = [] ++ [temporary.toList] := htemporary.pieces_eq
    rw [hjoin] at hbeside ⊢
    exact ⟨⟨0, Nat.zero_le _, .done _⟩,
      spotOf_of_way hbeside (htemporary.walk_eq hsingle) (Nat.zero_le _) (.done _)⟩
  | cons first rest =>
    obtain ⟨other, links, hlinks, hfolder, habove, hsource, hspot⟩ :=
      spots_of_putFile hpieces hlast htemporary hsteps hwrite
    have hstep : Path.stepOf name.toList = .named name := by
      rw [Path.walk_of_concat hpieces] at hwalk
      exact (List.cons.inj (List.append_cancel_left hwalk)).1
    rw [hstep] at hspot
    cases htarget.symm.trans hspot
    exact ⟨⟨links, hlinks, habove⟩, hsource⟩

/-- Where a temporary file can be written beside the last step of a path, the steps in front of it
lead to a folder. -/
theorem exists_folder_of_putFile (htemporary : IsTemporary temporary)
    (hwrite : t.putFile (path.parent.join ⟨temporary⟩) content = .ok u) {above : List Component}
    {name : String} (hwalk : path.walk = above ++ [.named name]) :
    ∃ folder, ∃ links ≤ linkLimit, t.Way .node links t.workingFolder above folder := by
  obtain ⟨front, hpieces, rfl, hlast⟩ := Path.exists_pieces_of_walk hwalk
  cases front with
  | nil => exact ⟨_, 0, Nat.zero_le _, .done _⟩
  | cons first rest =>
    obtain ⟨kept, count, habove, hbeside⟩ :=
      Path.walk_parent_join hpieces hlast htemporary.noSlash htemporary.step
    obtain ⟨_, _, _, hresolve, _⟩ := putFile_eq_ok hwrite
    obtain ⟨_, links, hlinks, hway⟩ := resolve_eq_ok_iff_way.1 hresolve
    rw [hbeside, way_append_iff (List.cons_ne_nil _ _)] at hway
    obtain ⟨before, behind, folder, rfl, hkept, hnamed⟩ := hway
    have hfolder : t.at? folder = some .folder := hnamed.folder_of_step (by simp)
    refine ⟨folder, before, by omega, ?_⟩
    rw [habove]
    exact (way_append_current_iff hfolder count).2 hkept

/-! ### What has changed -/

/-- Once a file has been replaced, the tree is the same but for the name under which it has been: it
is the last step of the path, in the folder to which the other steps lead. -/
theorem rewrites_of_replace (htemporary : IsTemporary temporary)
    (hfresh : ∀ folder, t.at? (folder ++ [temporary]) = none)
    {refused : Option Refusal} (h : t.replace refused path temporary content = (.ok (), v)) :
    ∃ above folder name, stepsOf path = .ok path.walk ∧ path.walk = above ++ [.named name] ∧
      (∃ links ≤ linkLimit, t.Way .node links t.workingFolder above folder) ∧
      t.CanPut folder name ∧ v.Rewrites t (folder ++ [name]) content := by
  rw [refused_of_replace h, replace_none_eq] at h
  split at h
  · cases h
  · rename_i u hwrite
    split at h
    · cases h
    · rename_i w hmove
      cases h
      obtain ⟨folder, _, target, name, node, hsource, htarget, hnode, hcan, rfl⟩ :=
        moveFile_eq_ok hmove
      obtain ⟨above, hsteps, hwalk, hway, hbeside⟩ :=
        exists_spot_of_putFile htemporary hwrite htarget
      cases hbeside.symm.trans hsource
      obtain ⟨other, hput, rfl⟩ := exists_put_of_putFile htemporary hfresh hwrite
      have hsame : folder ++ [temporary] = other ++ [temporary] := by
        by_contra hne
        rw [at?_put, if_neg hne, hfresh] at hnode
        cases hnode
      have hfolder : folder = other := (List.append_inj' hsame rfl).1
      subst hfolder
      rw [at?_put_self] at hnode
      cases hnode
      have hnoFolder : t.at? (folder ++ [name]) ≠ some .folder := by
        intro hfolder
        have hother : folder ++ [name] ≠ folder ++ [temporary] := by
          intro heq
          rw [heq, hfresh] at hfolder
          cases hfolder
        apply hcan.2.2
        rw [at?_remove_file (at?_put_self hput), if_neg hother, at?_put, if_neg hother, hfolder]
      exact ⟨above, folder, name, hsteps, hwalk, hway, ⟨hcan.1, hput.2.1, hnoFolder⟩,
        rewrites_put_remove_put hput (hfresh folder) hcan⟩

/-- When a file cannot be replaced, nothing that was in the tree is lost, and nothing is new in it
but the temporary file. -/
theorem left_of_replace_error (htemporary : IsTemporary temporary)
    (hfresh : ∀ folder, t.at? (folder ++ [temporary]) = none) {refused : Option Refusal}
    {fault : FileFault} (h : t.replace refused path temporary content = (.error fault, v)) :
    v = t ∨ ∃ folder left, v.Rewrites t (folder ++ [temporary]) left := by
  rcases exists_of_replace_error h with rfl | ⟨left, hput⟩
  · exact .inl rfl
  · obtain ⟨folder, hcan, rfl⟩ := exists_put_of_putFile htemporary hfresh hput
    exact .inr ⟨folder, left, put_rewrites hcan left⟩

/-! ### Ways through a replaced link -/

/-- The steps from a location go through a link that stands at a place. -/
inductive GoesThrough (t : FileTree) (place : Location) : Location → List Component → Prop
  | link {location : Location} {name : String} {target : Path} {rest : List Component} :
      location ++ [name] = place → t.at? place = some (.link target) →
      GoesThrough t place location (.named name :: rest)
  | step {location next : Location} {step : Component} {count : Nat} {more rest : List Component} :
      t.Takes location step count next more → GoesThrough t place next (more ++ rest) →
      GoesThrough t place location (step :: rest)

theorem LinkFree.not_goesThrough (h : t.LinkFree) {place location : Location}
    {steps : List Component} : ¬ t.GoesThrough place location steps := by
  intro hthrough
  induction hthrough with
  | link _ hlink => exact h _ _ hlink
  | step _ _ ih => exact ih

theorem Way.of_rewrites {links : Nat} {location place spot : Location} {steps : List Component}
    (h : t.Way .node links location steps place) (hrewrites : v.Rewrites t spot content)
    (hspot : t.at? spot ≠ some .folder) (hthrough : ¬ t.GoesThrough spot location steps) :
    v.Way .node links location steps place := by
  have hne : spot ≠ [] := by
    rintro rfl
    exact hspot t.at?_top
  have hat := hrewrites.at?_eq hne
  have hfolders : ∀ {other : Location}, t.at? other = some .folder →
      v.at? other = some .folder := by
    intro other hother
    rw [hat, if_neg, hother]
    rintro rfl
    exact hspot hother
  induction h with
  | done location => exact .done location
  | missing _ _ _ hending => cases hending
  | @step location next place step more rest links count htakes _ ih =>
    have hrest : v.Way .node links next (more ++ rest) place :=
      ih fun hlater => hthrough (.step htakes hlater)
    refine .step ?_ hrest
    cases htakes with
    | root => exact .root location
    | current hfolder => exact .current (hfolders hfolder)
    | parent hfolder => exact .parent (hfolders hfolder)
    | @named name node hfolder hname hnode hlinks =>
      by_cases hhere : location ++ [name] = spot
      · have hfile : v.at? (location ++ [name]) = some (.file content) := by
          rw [hat, if_pos hhere]
        exact .named (hfolders hfolder) hname hfile (by simp)
      · have hkept : v.at? (location ++ [name]) = some node := by
          rw [hat, if_neg hhere, hnode]
        exact .named (hfolders hfolder) hname hkept hlinks
    | @link name target hfolder hname hlink =>
      have hhere : location ++ [name] ≠ spot := by
        intro heq
        exact hthrough (.link heq (heq ▸ hlink))
      refine .link (hfolders hfolder) hname ?_
      rw [hat, if_neg hhere, hlink]

/-! ### A new file -/

section New

variable {folder place : Location} {name : String}

theorem Rewrites.at?_concat (h : u.Rewrites t (folder ++ [name]) content) (other : Location) :
    u.at? other = if other = folder ++ [name] then some (.file content) else t.at? other :=
  h.at?_eq (List.append_ne_nil_of_right_ne_nil folder (List.cons_ne_nil name [])) other

theorem Rewrites.at?_of_ne (h : u.Rewrites t (folder ++ [name]) content) {above : Location}
    {other : String} (hne : other ≠ name) :
    u.at? (above ++ [other]) = t.at? (above ++ [other]) := by
  rw [h.at?_concat, if_neg]
  intro heq
  exact hne (List.cons.inj (List.append_inj' heq rfl).2).1

theorem Rewrites.kept (h : u.Rewrites t (folder ++ [name]) content)
    (hnone : t.at? (folder ++ [name]) = none) : t.Kept u := by
  intro location node hnode
  have hne : location ≠ folder ++ [name] := by
    rintro rfl
    cases hnone.symm.trans hnode
  exact .inl ((h.at?_concat location).trans ((if_neg hne).trans hnode))

theorem Rewrites.at?_folder (h : u.Rewrites t (folder ++ [name]) content) {location : Location}
    (hfolder : u.at? location = some .folder) : t.at? location = some .folder := by
  rw [h.at?_concat] at hfolder
  split at hfolder
  · cases hfolder
  · exact hfolder

theorem Rewrites.linkFree (h : u.Rewrites t (folder ++ [name]) content) (hlinks : t.LinkFree) :
    u.LinkFree := by
  intro location target hlink
  rw [h.at?_concat] at hlink
  split at hlink
  · cases hlink
  · exact hlinks _ _ hlink

/-- A way that does not step to the new file's name has been there before. -/
theorem Rewrites.way (h : u.Rewrites t (folder ++ [name]) content) (hlinks : t.LinkFree)
    {links : Nat} {location : Location} {steps : List Component}
    (hway : u.Way .node links location steps place)
    (hname : .named name ∉ steps) : t.Way .node links location steps place := by
  induction hway with
  | done location => exact .done location
  | missing _ _ _ hending => cases hending
  | @step location next place step more rest links count htakes hrest ih =>
    have hbehind : t.Takes location step count next more := by
      cases htakes with
      | root => exact .root location
      | current hfolder => exact .current (h.at?_folder hfolder)
      | parent hfolder => exact .parent (h.at?_folder hfolder)
      | @named other node hfolder hother hnode hnoLink =>
        have hne : other ≠ name := fun heq => hname (heq ▸ List.mem_cons_self ..)
        exact .named (h.at?_folder hfolder) hother (h.at?_of_ne hne ▸ hnode) hnoLink
      | link _ _ hlink => exact absurd hlink (h.linkFree hlinks _ _)
    refine .step hbehind (ih ?_)
    cases htakes with
    | link _ _ hlink => exact absurd hlink (h.linkFree hlinks _ _)
    | _ => exact fun hmem => hname (List.mem_cons_of_mem _ hmem)

theorem Rewrites.leadsSomewhere (h : u.Rewrites t (folder ++ [name]) content) (hlinks : t.LinkFree)
    (hleads : u.leadsSomewhere path = true) (hname : .named name ∉ path.walk) :
    t.leadsSomewhere path = true := by
  obtain ⟨place, hplace⟩ := leadsSomewhere_iff.1 hleads
  obtain ⟨hsteps, links, hle, hway⟩ := resolve_eq_ok_iff_way.1 hplace
  refine leadsSomewhere_iff.2 ⟨place, resolve_eq_ok_iff_way.2 ⟨hsteps, links, hle, ?_⟩⟩
  rw [← h.workingFolder]
  exact h.way hlinks hway hname

theorem Rewrites.resolve (h : u.Rewrites t (folder ++ [name]) content)
    (hnone : t.at? (folder ++ [name]) = none) (hplace : t.resolve .node path = .ok place) :
    u.resolve .node path = .ok place := by
  obtain ⟨hsteps, links, hle, hway⟩ := resolve_eq_ok_iff_way.1 hplace
  refine resolve_eq_ok_iff_way.2 ⟨hsteps, links, hle, ?_⟩
  rw [h.workingFolder]
  exact hway.of_kept (h.kept hnone)

end New

/-! ### What is read -/

/-- The text that has been put under the last step of a path is read by the path, unless the steps
in front went through what it has replaced. -/
theorem readText_of_rewrites {above : List Component} {folder : Location} {name text : String}
    (hsteps : stepsOf path = .ok path.walk) (hwalk : path.walk = above ++ [.named name])
    (hway : ∃ links ≤ linkLimit, t.Way .node links t.workingFolder above folder)
    (hcan : t.CanPut folder name) (hrewrites : v.Rewrites t (folder ++ [name]) (.text text))
    (hthrough : ¬ t.GoesThrough (folder ++ [name]) t.workingFolder above) :
    v.readText path = .ok text := by
  obtain ⟨links, hlinks, hway⟩ := hway
  have hat := hrewrites.at?_eq
    (List.append_ne_nil_of_right_ne_nil folder (List.cons_ne_nil name []))
  have hfolder : v.at? folder = some .folder := by
    rw [hat, if_neg (ne_append_name folder name), hcan.2.1]
  have hfile : v.at? (folder ++ [name]) = some (.file (.text text)) := by
    rw [hat, if_pos rfl]
  have hresolve : v.resolve .node path = .ok (folder ++ [name]) := by
    refine resolve_eq_ok_iff_way.2 ⟨hsteps, links, hlinks, ?_⟩
    rw [hwalk, hrewrites.workingFolder, way_append_iff (List.cons_ne_nil _ _)]
    refine ⟨links, 0, folder, rfl, hway.of_rewrites hrewrites hcan.2.2 hthrough, ?_⟩
    exact .step (.named hfolder hcan.1 hfile (by simp)) (.done _)
  have hread : v.read path = .ok (.file (.text text)) := by
    rw [read, hresolve]
    refine bind_eq_ok_iff.2 ⟨_, rfl, ?_⟩
    rw [hfile]
  rw [readText, hread]
  rfl

end FileTree

end SidecarIndex

import SidecarIndex.Proofs.FileTree.Frame
import SidecarIndex.Proofs.Store.Scan
import SidecarIndex.Proofs.Store.Spelling

/-! # What writing a side-car touches

In every tree, with links or without, a write that succeeds changes what stands under the name of
the side-car and nothing else. A write that fails, whatever the system refuses, loses nothing and
leaves at most the temporary file. -/

namespace SidecarIndex.Store

variable {s : Store} {t u : FileTree} {token : String} {path : Path} {d : Document}
  {refused : Option FileTree.Refusal}

theorem at?_temporaryName (h : FreshToken t token) (target : Path) (folder : Location) :
    t.at? (folder ++ [temporaryName target token]) = none := by
  by_contra hthere
  exact h.unused folder _ hthere (suffix_temporaryName _ token)

section

-- Without this the equations are checked by evaluating what a replacement does to an unknown tree.
attribute [local irreducible] FileTree.replace

theorem write_eq (s : Store) (token : String) (refused : Option FileTree.Refusal) (t : FileTree)
    (path : Path) (d : Document) :
    s.write token refused t path d =
      ((t.replace refused (s.sidecarPath path) (temporaryName (s.sidecarPath path) token)
        (.text (d.text ++ "\n"))).1.mapError .file,
      (t.replace refused (s.sidecarPath path) (temporaryName (s.sidecarPath path) token)
        (.text (d.text ++ "\n"))).2) := rfl

theorem replace_of_write (h : s.write token refused t path d = (.ok (), u)) :
    t.replace refused (s.sidecarPath path) (temporaryName (s.sidecarPath path) token)
      (.text (d.text ++ "\n")) = (.ok (), u) := by
  rw [write_eq] at h
  obtain ⟨houtcome, htree⟩ := Prod.mk.inj h
  exact Prod.ext (mapError_eq_ok_iff.1 houtcome) htree

theorem replace_of_write_error {e : Error} (h : s.write token refused t path d = (.error e, u)) :
    ∃ fault, t.replace refused (s.sidecarPath path) (temporaryName (s.sidecarPath path) token)
      (.text (d.text ++ "\n")) = (.error fault, u) := by
  rw [write_eq] at h
  obtain ⟨houtcome, htree⟩ := Prod.mk.inj h
  cases hresult : (t.replace refused (s.sidecarPath path)
      (temporaryName (s.sidecarPath path) token) (.text (d.text ++ "\n"))).1 with
  | ok =>
    rw [hresult] at houtcome
    cases houtcome
  | error fault => exact ⟨fault, Prod.ext hresult htree⟩

theorem write_of_unwritten {fault : FileFault}
    (h : t.write refused (s.besidePath token path) (.text (d.text ++ "\n")) = (.error fault, u)) :
    s.write token refused t path d = (.error (.file fault), u) := by
  have hreplace : t.replace refused (s.sidecarPath path)
      (temporaryName (s.sidecarPath path) token) (.text (d.text ++ "\n")) = (.error fault, u) := by
    rw [besidePath] at h
    rw [FileTree.replace_eq, h]
  rw [write_eq, hreplace]
  rfl

end

/-- Where the temporary file cannot stand beside the side-car, nothing is written. -/
theorem write_of_no_place {fault : FileFault}
    (h : t.putFile (s.besidePath token path) (FileTree.written refused (.text (d.text ++ "\n")))
      = .error fault) :
    s.write token refused t path d = (.error (.file fault), t) := by
  refine write_of_unwritten ?_
  rw [FileTree.write, h]

/-- Where the system does not let the temporary file be made, nothing is written. -/
theorem write_of_not_created (reason : String) (s : Store) (token : String) (t : FileTree)
    (path : Path) (d : Document) :
    ∃ e, s.write token (some (.create reason)) t path d = (.error e, t) := by
  cases hput : t.putFile (s.besidePath token path)
      (FileTree.written (some (.create reason)) (.text (d.text ++ "\n"))) with
  | error fault => exact ⟨_, write_of_no_place hput⟩
  | ok v =>
    refine ⟨.file (.refused reason), write_of_unwritten ?_⟩
    rw [FileTree.write, hput]

/-- Without a folder that the steps in front of the last one lead to, nothing is written. -/
theorem write_of_no_folder (htoken : '/' ∉ token.toList) {above : List Component} {name : String}
    (hwalk : (s.sidecarPath path).walk = above ++ [.named name])
    (hnone : ∀ folder, t.walk .node FileTree.linkLimit t.workingFolder above ≠ .ok folder)
    (refused : Option FileTree.Refusal) (d : Document) :
    ∃ e, s.write token refused t path d = (.error e, t) := by
  cases hput : t.putFile (s.besidePath token path)
      (FileTree.written refused (.text (d.text ++ "\n"))) with
  | error fault => exact ⟨_, write_of_no_place hput⟩
  | ok v =>
    obtain ⟨folder, hway⟩ :=
      FileTree.exists_folder_of_putFile (isTemporary_temporaryName _ htoken) hput hwalk
    exact absurd (FileTree.walk_eq_ok_iff.2 hway) (hnone folder)

/-- A write that succeeds changes what stands under the last step of the side-car's path, in the
folder to which the other steps lead, and nothing else. The text is then read by the path, unless
its steps go through a link that has been replaced; without links it always is. A write that fails
changes nothing when the folder is missing, or when the temporary file cannot stand beside the
side-car or may not be made. Whatever else makes it fail, such as a disk that is full halfway or a
rename that is refused, nothing is lost, and nothing is new but this file. -/
theorem write_touches_one_name (s : Store) (htoken : FreshToken t token)
    (refused : Option FileTree.Refusal) (path : Path) (d : Document) :
    (∀ u, s.write token refused t path d = (.ok (), u) → refused = none ∧ ∃ above folder name,
      (s.sidecarPath path).walk = above ++ [.named name] ∧
      t.walk .node FileTree.linkLimit t.workingFolder above = .ok folder ∧
      u.workingFolder = t.workingFolder ∧
      (∀ location, u.at? location = if location = folder ++ [name] then
        some (.file (.text (d.text ++ "\n"))) else t.at? location) ∧
      (¬ t.GoesThrough (folder ++ [name]) t.workingFolder above →
        u.readText (s.sidecarPath path) = .ok (d.text ++ "\n"))) ∧
    (t.LinkFree → ∀ u, s.write token refused t path d = (.ok (), u) →
      u.readText (s.sidecarPath path) = .ok (d.text ++ "\n")) ∧
    (∀ above name, (s.sidecarPath path).walk = above ++ [.named name] →
      (∀ folder, t.walk .node FileTree.linkLimit t.workingFolder above ≠ .ok folder) →
        ∃ e, s.write token refused t path d = (.error e, t)) ∧
    (∀ fault, t.putFile (s.besidePath token path)
        (FileTree.written refused (.text (d.text ++ "\n"))) = .error fault →
      s.write token refused t path d = (.error (.file fault), t)) ∧
    (∀ reason, refused = some (.create reason) →
      ∃ e, s.write token refused t path d = (.error e, t)) ∧
    ∀ e u, s.write token refused t path d = (.error e, u) → u = t ∨ s.Leftover token path t u := by
  have htemporary := isTemporary_temporaryName (s.sidecarPath path) htoken.noSlash
  have hfresh := at?_temporaryName htoken (s.sidecarPath path)
  refine ⟨?_, ?_, ?_, ?_, ?_, ?_⟩
  · intro u hwrite
    have hreplace := replace_of_write hwrite
    obtain ⟨above, folder, name, hsteps, hwalk, hway, hcan, hrewrites⟩ :=
      FileTree.rewrites_of_replace htemporary hfresh hreplace
    refine ⟨FileTree.refused_of_replace hreplace, above, folder, name, hwalk,
      FileTree.walk_eq_ok_iff.2 hway, hrewrites.workingFolder, hrewrites.at?_concat, ?_⟩
    exact FileTree.readText_of_rewrites hsteps hwalk hway hcan hrewrites
  · intro hlinks u hwrite
    obtain ⟨above, folder, name, hsteps, hwalk, hway, hcan, hrewrites⟩ :=
      FileTree.rewrites_of_replace htemporary hfresh (replace_of_write hwrite)
    exact FileTree.readText_of_rewrites hsteps hwalk hway hcan hrewrites hlinks.not_goesThrough
  · intro above name hwalk hnone
    exact write_of_no_folder htoken.noSlash hwalk hnone refused d
  · exact fun fault => write_of_no_place
  · rintro reason rfl
    exact write_of_not_created reason s token t path d
  · intro e u hwrite
    obtain ⟨fault, hreplace⟩ := replace_of_write_error hwrite
    refine (FileTree.left_of_replace_error htemporary hfresh hreplace).imp_right ?_
    rintro ⟨folder, left, hrewrites⟩
    exact ⟨folder, left, hfresh folder, hrewrites⟩

/-- The side-car of the folder is replaced; that of something in a missing folder is not written.
When the disk is full after one byte, the temporary file is left with it. -/
theorem write_on_shelf : FreshToken shelf "f00d" ∧
    (∃ u, here.write "f00d" none shelf ⟨"d"⟩ .empty = (.ok (), u) ∧
      u.readText ⟨"./d.mdf"⟩ = .ok "\x7b\x7d\n") ∧
    (∃ e, here.write "f00d" none shelf ⟨"gone/x"⟩ .empty = (.error e, shelf)) ∧
    ∃ e u, here.write "f00d" (some (.content 1 "no space")) shelf ⟨"d"⟩ .empty = (.error e, u) ∧
      here.Leftover "f00d" ⟨"d"⟩ shelf u ∧
      u.at? [".d.mdf-f00d.tmp"] = some (.file (.text "\x7b")) := by
  have htoken : FreshToken shelf "f00d" := by decide +kernel
  have hlinks : shelf.LinkFree := by decide +kernel
  have houtcome : (here.write "f00d" none shelf ⟨"d"⟩ .empty).1 = .ok () := by decide +kernel
  have hpath : here.sidecarPath ⟨"d"⟩ = ⟨"./d.mdf"⟩ := by decide +kernel
  have htext : Document.empty.text ++ "\n" = "\x7b\x7d\n" := by decide +kernel
  obtain ⟨_, hfree, _⟩ := write_touches_one_name here htoken none ⟨"d"⟩ .empty
  refine ⟨htoken, ?_, ?_, ?_⟩
  · cases hwrite : here.write "f00d" none shelf ⟨"d"⟩ .empty with
    | mk outcome u =>
      rw [hwrite] at houtcome
      have hread := hfree hlinks u (hwrite.trans (congrArg (·, u) houtcome))
      rw [hpath, htext] at hread
      exact ⟨u, congrArg (·, u) houtcome, hread⟩
  · have hwalk : (here.sidecarPath ⟨"gone/x"⟩).walk = [.current, .named "gone"] ++
        [.named "x.mdf"] := by
      decide +kernel
    have hnone : shelf.walk .node FileTree.linkLimit shelf.workingFolder [.current, .named "gone"]
        = .error .missing := by decide +kernel
    apply (write_touches_one_name here htoken none ⟨"gone/x"⟩ .empty).2.2.1 _ _ hwalk
    intro folder hfolder
    rw [hnone] at hfolder
    cases hfolder
  · have hrefused : (here.write "f00d" (some (.content 1 "no space")) shelf ⟨"d"⟩ .empty).1
        = .error (.file (.refused "no space")) := by decide +kernel
    have hleft : (here.write "f00d" (some (.content 1 "no space")) shelf ⟨"d"⟩ .empty).2.at?
        [".d.mdf-f00d.tmp"] = some (.file (.text "\x7b")) := by decide +kernel
    cases hwrite : here.write "f00d" (some (.content 1 "no space")) shelf ⟨"d"⟩ .empty with
    | mk outcome u =>
      simp only [hwrite] at hrefused hleft
      have hfailed := hwrite.trans (congrArg (·, u) hrefused)
      have hnone : shelf.at? [".d.mdf-f00d.tmp"] = none := by decide +kernel
      have hfail := (write_touches_one_name here htoken (some (.content 1 "no space")) ⟨"d"⟩
        .empty).2.2.2.2.2
      rcases hfail _ u hfailed with hsame | hleftover
      · rw [hsame, hnone] at hleft
        cases hleft
      · exact ⟨_, u, congrArg (·, u) hrefused, hleftover, hleft⟩

/-! ### Links and folders in the place of a side-car -/

/-- A link in the place of a side-car, which leads to a folder. -/
def crossing : FileTree :=
  let tree : Except FileFault FileTree := do
    let t ← FileTree.empty.makeFile ⟨"a"⟩ (.text "")
    let t ← t.make ⟨"a.mdf"⟩ (.link ⟨"g"⟩)
    t.makeFolder ⟨"g"⟩
  tree.toOption.getD .empty

/-- A store whose root is spelled by way of this link. -/
def across : Store := ofSettings ⟨"a.mdf/.."⟩ {}

/-- A folder in the place of a side-car. -/
def blocked : FileTree :=
  let tree : Except FileFault FileTree := do
    let t ← FileTree.empty.makeFile ⟨"a"⟩ (.text "")
    t.makeFolder ⟨"a.mdf"⟩
  tree.toOption.getD .empty

/-- A path that goes through the link in the place of its own side-car leads nowhere once the link
has been replaced, though the write has succeeded. A folder in the place of a side-car is not
replaced, but then the temporary file is left beside it. -/
theorem write_through_own_link :
    FreshToken crossing "f00d" ∧ (across.write "f00d" none crossing ⟨"a"⟩ .empty).1 = .ok () ∧
      (across.write "f00d" none crossing ⟨"a"⟩ .empty).2.readText (across.sidecarPath ⟨"a"⟩)
        = .error .noFolder ∧
    FreshToken blocked "f00d" ∧ (here.write "f00d" none blocked ⟨"a"⟩ .empty).1
      = .error (.file .isFolder) ∧ blocked.at? [".a.mdf-f00d.tmp"] = none ∧
      (here.write "f00d" none blocked ⟨"a"⟩ .empty).2.at? [".a.mdf-f00d.tmp"]
        = some (.file (.text "\x7b\x7d\n")) := by
  refine ⟨?_, ?_, ?_, ?_, ?_, ?_, ?_⟩ <;> decide +kernel

end SidecarIndex.Store

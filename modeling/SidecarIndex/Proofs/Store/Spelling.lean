import SidecarIndex.Proofs.FileTree.Spelling
import SidecarIndex.Proofs.Store.Note

/-! # Side-cars of paths with the same components

A side-car is named by the text of its path. Two paths with the same components have the same
side-car exactly when the same text stands behind their last slashes, and a document is then written
alike under either of them. A slash or a dot at the end makes another side-car. -/

namespace SidecarIndex

/-! ### Text behind the last piece -/

/-- The step that a piece stands for, if any, as it is written. -/
def stepTexts (piece : List Char) : List (List Char) :=
  (Component.ofPiece? piece).toList.map fun step => step.text.toList

theorem stepTexts_eq (piece : List Char) :
    stepTexts piece = if piece = [] ∨ piece = ['.'] then [] else [piece] := by
  by_cases h : piece = [] ∨ piece = ['.']
  · rw [if_pos h, stepTexts, Component.ofPiece?, if_pos h]
    rfl
  · rw [not_or] at h
    have hread := Path.ofPiece?_of_isStep (Path.isStep_of_ne h.1 h.2)
    rw [if_neg (not_or.2 h), stepTexts, hread]
    exact congrArg (fun text => [text]) (Path.text_of_ofPiece? hread)

theorem stepTexts_append {piece : List Char} (h : ¬ (piece = [] ∨ piece = ['.']))
    (behind : List Char) : stepTexts (piece ++ '.' :: behind) = [piece ++ '.' :: behind] := by
  rw [not_or] at h
  rw [stepTexts_eq, if_neg]
  rw [not_or]
  refine ⟨by simp, fun hdot => ?_⟩
  obtain ⟨c, cs, rfl⟩ := List.exists_cons_of_ne_nil h.1
  have hlength := congrArg List.length hdot
  simp at hlength

/-- No step is the same as it is with a dot and more behind it. -/
theorem ne_of_stepTexts {piece : List Char} (h : ¬ (piece = [] ∨ piece = ['.']))
    (behind : List Char) (front more : List (List Char)) :
    front ++ stepTexts piece ++ more ≠ front ++ stepTexts (piece ++ '.' :: behind) := by
  intro heq
  rw [stepTexts_append h, stepTexts_eq, if_neg h, List.append_assoc] at heq
  have hhead := (List.cons.inj (List.append_cancel_left heq)).1
  exact List.cons_ne_nil _ _ (List.self_eq_append_right.1 hhead)

theorem stepTexts_dots (behind : List Char) :
    stepTexts ('.' :: behind) ≠ stepTexts ('.' :: '.' :: behind) := by
  rw [stepTexts_eq, stepTexts_eq, if_neg (by simp : ¬ ('.' :: '.' :: behind = [] ∨ _))]
  split
  · simp
  · simp

/-- Two pieces are told apart by their steps with and without a dot and more behind them. -/
theorem eq_of_stepTexts {front others : List (List Char)} {a b behind : List Char}
    (hbare : front ++ stepTexts a = others ++ stepTexts b)
    (hlong : front ++ stepTexts (a ++ '.' :: behind) = others ++ stepTexts (b ++ '.' :: behind)) :
    a = b := by
  have hnone : ∀ {piece}, piece = [] ∨ piece = ['.'] → stepTexts piece = [] := by
    intro piece h
    rw [stepTexts_eq, if_pos h]
  by_cases ha : a = [] ∨ a = ['.']
  · rw [hnone ha, List.append_nil] at hbare
    by_cases hb : b = [] ∨ b = ['.']
    · -- Neither is a step, and the two texts behind the dot differ in length.
      rw [hnone hb, List.append_nil] at hbare
      have htail := List.append_cancel_left (hbare ▸ hlong)
      rcases ha with rfl | rfl
      · rcases hb with rfl | rfl
        · rfl
        · exact absurd htail (stepTexts_dots behind)
      · rcases hb with rfl | rfl
        · exact absurd htail.symm (stepTexts_dots behind)
        · rfl
    · rw [hbare] at hlong
      exact absurd hlong (ne_of_stepTexts hb behind others _)
  · by_cases hb : b = [] ∨ b = ['.']
    · rw [hnone hb, List.append_nil] at hbare
      rw [← hbare] at hlong
      exact absurd hlong.symm (ne_of_stepTexts ha behind front _)
    · rw [stepTexts_eq, stepTexts_eq, if_neg ha, if_neg hb] at hbare
      exact (List.cons.inj (List.append_inj' hbare rfl).2).1

namespace Path

theorem slash_not_mem_lastPiece (p : Path) : '/' ∉ p.lastPiece :=
  p.slash_not_mem_pieces _ (List.getLast_mem p.pieces_ne_nil)

theorem components_dot {p : Path} (hp : p.pieces = [] ++ [['.']]) : p.components = [.current] := by
  rw [pieces] at hp
  simp only [components, hp]
  rfl

theorem inner_of_concat {p : Path} {front : List (List Char)} {last : List Char}
    (hp : p.pieces = front ++ [last]) :
    p.inner = front.filterMap Component.ofPiece? ++ (Component.ofPiece? last).toList := by
  rw [inner, hp, List.filterMap_append, toList_ofPiece?]

end Path

namespace Store

variable {s : Store} {p q : Path} {token : String}

/-- The pieces of the side-cars of a store: those of the root, those of the path in front of its
last slash, and the text behind that with the extension. -/
theorem exists_pieces_sidecarPath (s : Store) : ∃ front, (front = [] → s.root.text = "") ∧
    ∀ p : Path, p.isAbsolute = false → (s.sidecarPath p).pieces
      = front ++ p.pieces.dropLast ++ (p.lastPiece ++ s.extension.toList).splitOn '/' := by
  obtain ⟨front, hroot, hjoin⟩ := s.root.exists_pieces_join
  refine ⟨front, hroot, fun p hp => ?_⟩
  have hpieces := hjoin p hp
  rw [p.pieces_eq_concat, ← List.append_assoc] at hpieces
  exact Path.pieces_append hpieces s.extension

/-- What the extension adds to the text behind the last slash starts with a dot. -/
theorem exists_splitOn_extension (s : Store) : ∃ behind more, ∀ p : Path,
    (p.lastPiece ++ s.extension.toList).splitOn '/' = (p.lastPiece ++ '.' :: behind) :: more := by
  have hext := s.isDotted
  cases htext : s.extension.toList with
  | nil =>
    rw [htext] at hext
    cases hext
  | cons c rest =>
    rw [htext] at hext
    cases hext
    obtain ⟨behind, more, hsplit⟩ := List.exists_cons_of_ne_nil (List.splitOn_ne_nil '/' rest)
    refine ⟨behind, more, fun p => ?_⟩
    have hslash : '/' ∉ p.lastPiece ++ ['.'] := by
      simp [p.slash_not_mem_lastPiece]
    have hdot := Text.splitOn_front hslash hsplit
    simpa using hdot

/-- Where the same text stands behind the last slashes, the side-cars have the same components, and
the same text behind their last slashes. -/
theorem sidecarPath_same (hp : p.isAbsolute = false) (hq : q.isAbsolute = false)
    (hsame : p.same q = true) (hroot : s.root.text = "" → p.components ≠ [.current])
    (hlast : p.lastPiece = q.lastPiece) : (s.sidecarPath p).same (s.sidecarPath q) = true ∧
      (s.sidecarPath p).lastPiece = (s.sidecarPath q).lastPiece := by
  obtain ⟨front, hfront, hpieces⟩ := s.exists_pieces_sidecarPath
  have hpPieces := hpieces p hp
  have hqPieces := hpieces q hq
  have hpConcat := p.pieces_eq_concat
  have hqConcat := q.pieces_eq_concat
  rw [← hlast] at hqPieces hqConcat
  generalize htail : (p.lastPiece ++ s.extension.toList).splitOn '/' = tail at hpPieces hqPieces
  have hne : tail ≠ [] := htail ▸ List.splitOn_ne_nil '/' _
  apply And.intro
  · rw [Path.same_iff]
    by_cases hnil : front = []
    · have hnone := hroot (hfront hnil)
      have hpDot : p.pieces.dropLast = [] → p.lastPiece ≠ ['.'] := by
        intro hempty hdot
        rw [hempty, hdot] at hpConcat
        exact hnone (Path.components_dot hpConcat)
      have hqDot : q.pieces.dropLast = [] → p.lastPiece ≠ ['.'] := by
        intro hempty hdot
        rw [hempty, hdot] at hqConcat
        rw [Path.same_iff.1 hsame] at hnone
        exact hnone (Path.components_dot hqConcat)
      have habove := Path.above_eq_of_same hpConcat hqConcat hpDot hqDot hsame
      rw [hnil, List.nil_append] at hpPieces hqPieces
      by_cases hsingle : p.pieces.dropLast = []
      · rw [hsingle, Path.above, eq_comm, Path.above_eq_nil_iff] at habove
        rw [hsingle] at hpPieces
        rw [habove] at hqPieces
        rw [Path.eq_of_pieces (hpPieces.trans hqPieces.symm)]
      · have hother : q.pieces.dropLast ≠ [] := by
          rwa [Ne, ← Path.above_eq_nil_iff, ← habove, Path.above_eq_nil_iff]
        rw [Path.components_of_append hpPieces hsingle hne,
          Path.components_of_append hqPieces hother hne, habove]
    · have hinner := Path.inner_eq_of_same hsame
      rw [Path.inner_of_concat hpConcat, Path.inner_of_concat hqConcat] at hinner
      rw [Path.components_of_append hpPieces (by simp [hnil]) hne,
        Path.components_of_append hqPieces (by simp [hnil]) hne, Path.above_append hnil,
        Path.above_append hnil, List.append_cancel_right hinner]
  · have hend : ∀ {path : Path} {others : List (List Char)}, path.pieces = others ++ tail →
        path.lastPiece = tail.getLast hne := by
      intro path others h
      rw [← List.dropLast_concat_getLast hne, ← List.append_assoc] at h
      exact Path.lastPiece_of_concat h
    rw [hend hpPieces, hend hqPieces]

/-- Side-cars with the same components stand for paths with the same text behind their last
slashes. -/
theorem lastPiece_of_sidecarPath_same (hp : p.isAbsolute = false) (hq : q.isAbsolute = false)
    (hsame : p.same q = true) (h : (s.sidecarPath p).same (s.sidecarPath q) = true) :
    p.lastPiece = q.lastPiece := by
  obtain ⟨front, _, hpieces⟩ := s.exists_pieces_sidecarPath
  obtain ⟨behind, more, hsplit⟩ := s.exists_splitOn_extension
  have hinner : ∀ path : Path, path.isAbsolute = false → (s.sidecarPath path).inner =
      front.filterMap Component.ofPiece? ++ (path.pieces.dropLast.filterMap Component.ofPiece? ++
        (Component.ofPiece? (path.lastPiece ++ '.' :: behind)).toList) ++
          more.filterMap Component.ofPiece? := by
    intro path hpath
    have hcons : (path.lastPiece ++ '.' :: behind) :: more = [path.lastPiece ++ '.' :: behind]
        ++ more := rfl
    rw [Path.inner, hpieces path hpath, hsplit, hcons, ← Path.toList_ofPiece?]
    simp only [List.filterMap_append, List.append_assoc]
  have hbare := Path.inner_eq_of_same hsame
  have hlong := Path.inner_eq_of_same h
  rw [Path.inner_of_concat p.pieces_eq_concat, Path.inner_of_concat q.pieces_eq_concat] at hbare
  rw [hinner p hp, hinner q hq] at hlong
  have hbareTexts := congrArg (List.map fun step => step.text.toList) hbare
  have hlongTexts := congrArg (List.map fun step => step.text.toList)
    (List.append_cancel_left (List.append_cancel_right hlong))
  rw [List.map_append, List.map_append] at hbareTexts hlongTexts
  exact eq_of_stepTexts hbareTexts hlongTexts

/-! ### Writing -/

def besidePath (s : Store) (token : String) (path : Path) : Path :=
  (s.sidecarPath path).parent.join ⟨temporaryName (s.sidecarPath path) token⟩

/-- Neither the path of a side-car nor the one of its temporary file is too long to be followed. -/
structure WithinLimits (s : Store) (token : String) (path : Path) : Prop where
  target : FileTree.stepsOf (s.sidecarPath path) = .ok (s.sidecarPath path).walk
  beside : FileTree.stepsOf (s.besidePath token path) = .ok (s.besidePath token path).walk

theorem slash_not_mem_splitLast? {target : Path} {above : List Component} {name : String}
    (h : FileTree.splitLast? target.components = some (above, name)) : '/' ∉ name.toList := by
  unfold FileTree.splitLast? at h
  split at h
  · rename_i hlast
    cases h
    have hmem := List.mem_of_getLast? hlast
    have hinner : .named name ∈ target.inner := by
      rcases target.components_cases with heq | heq | heq
      · rwa [heq] at hmem
      · rw [heq] at hmem
        exact List.mem_of_ne_of_mem (by simp) hmem
      · rw [heq] at hmem
        exact List.mem_of_ne_of_mem (by simp) hmem
    exact (Path.isInner_of_mem_inner hinner).noSlash
  · cases h

theorem isTemporary_temporaryName (target : Path) (htoken : '/' ∉ token.toList) :
    FileTree.IsTemporary (temporaryName target token) := by
  refine isTemporary_name ?_ htoken
  cases h : FileTree.splitLast? target.components with
  | none => exact List.not_mem_nil
  | some split => exact slash_not_mem_splitLast? h

/-- Two relative paths with the same components have side-cars with the same components exactly when
the same text stands behind their last slashes. Then a document is written alike under either of
them, as long as the side-cars are named by a step. -/
theorem write_of_same (s : Store) {p q : Path} (hp : p.isAbsolute = false)
    (hq : q.isAbsolute = false) (hsame : p.same q = true)
    (hroot : s.root.text = "" → p.components ≠ [.current]) :
    ((s.sidecarPath p).same (s.sidecarPath q) = true ↔ p.lastPiece = q.lastPiece) ∧
    (p.lastPiece = q.lastPiece → Path.IsStep (s.sidecarPath p).lastPiece →
      ∀ token, '/' ∉ token.toList → s.WithinLimits token p → s.WithinLimits token q →
        ∀ refused t d, s.write token refused t p d = s.write token refused t q d) := by
  refine ⟨⟨?_, ?_⟩, ?_⟩
  · exact lastPiece_of_sidecarPath_same hp hq hsame
  · exact fun hlast => (sidecarPath_same hp hq hsame hroot hlast).1
  · intro hlast hstep token htoken hpLimits hqLimits refused t d
    obtain ⟨hsidecars, hpieces⟩ := sidecarPath_same hp hq hsame hroot hlast
    have htemporary :
        temporaryName (s.sidecarPath q) token = temporaryName (s.sidecarPath p) token := by
      rw [temporaryName, temporaryName, Path.same_iff.1 hsidecars]
    have hqBeside := hqLimits.beside
    rw [besidePath, htemporary] at hqBeside
    have hreplace := FileTree.replace_of_same hsidecars hstep hpieces
      (isTemporary_temporaryName _ htoken) hpLimits.target hqLimits.target hpLimits.beside
      hqBeside t
      refused (.text (d.text ++ "\n"))
    simp only [write, htemporary, hreplace]

/-- Slashes and dots inside a path do not matter to where its side-car is and how it is written. -/
theorem write_of_inner_dots :
    (here.sidecarPath ⟨"letters/a"⟩).same (here.sidecarPath ⟨"letters//./a"⟩) = true ∧
      ∀ refused t d, here.write "f00d" refused t ⟨"letters/a"⟩ d
        = here.write "f00d" refused t ⟨"letters//./a"⟩ d := by
  obtain ⟨hiff, hwrite⟩ := write_of_same here (p := ⟨"letters/a"⟩) (q := ⟨"letters//./a"⟩)
    (by decide) (by decide) (by decide +kernel) (by decide)
  have hlast : Path.lastPiece ⟨"letters/a"⟩ = Path.lastPiece ⟨"letters//./a"⟩ := by decide +kernel
  exact ⟨hiff.2 hlast, hwrite hlast (by decide +kernel) "f00d" (by decide) ⟨by decide +kernel,
    by decide +kernel⟩ ⟨by decide +kernel, by decide +kernel⟩⟩

/-- A slash at the end of a path names another side-car. -/
theorem sidecarPath_ne_of_slash : Path.same ⟨"letters"⟩ ⟨"letters/"⟩ = true ∧
    (here.sidecarPath ⟨"letters"⟩).same (here.sidecarPath ⟨"letters/"⟩) = false := by
  decide +kernel

end Store

end SidecarIndex

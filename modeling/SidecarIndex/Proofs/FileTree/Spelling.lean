import SidecarIndex.Proofs.FileTree.Replace
import SidecarIndex.Proofs.FileTree.Way
import SidecarIndex.Proofs.Path.Normalized

/-! # Spellings of a path

Steps that stay do not matter where others come after them. So two paths with the same components
lead to the same place in every tree, and a file is replaced under either of them alike, when they
end in the same step. -/

namespace SidecarIndex

/-! ### Steps that stay -/

/-- Steps without some that stay where others come after them. -/
inductive Component.Settles : List Component → List Component → Prop
  | refl (steps : List Component) : Settles steps steps
  | cons (step : Component) {steps settled : List Component} : Settles steps settled →
      Settles (step :: steps) (step :: settled)
  | stay {next : Component} {rest settled : List Component} : next ≠ .root →
      Settles (next :: rest) settled → Settles (.current :: next :: rest) settled

namespace Component

variable {steps settled : List Component}

theorem Settles.append (front : List Component) (h : Settles steps settled) :
    Settles (front ++ steps) (front ++ settled) := by
  induction front with
  | nil => exact h
  | cons step rest ih => exact .cons step ih

theorem Settles.isEmpty_eq (h : Settles steps settled) : steps.isEmpty = settled.isEmpty := by
  induction h with
  | refl => rfl
  | cons => rfl
  | stay _ _ ih => exact ih

theorem settles_replicate (count : Nat) {step : Component} (h : step ≠ .root) :
    Settles (List.replicate count .current ++ [step]) [step] := by
  induction count with
  | zero => exact .refl _
  | succ count ih =>
    rw [List.replicate_succ]
    cases count with
    | zero => exact .stay h ih
    | succ count =>
      rw [List.replicate_succ] at ih ⊢
      exact .stay (fun heq => nomatch heq) ih

end Component

namespace FileTree

variable {t u : FileTree} {ending : Ending}

open Component

theorem walkFrom_settles {onLink : Location → List Component → Except FileFault Location}
    (hlink : ∀ folder front steps settled, Settles steps settled →
      onLink folder (front ++ steps) = onLink folder (front ++ settled))
    {steps settled : List Component} (h : Settles steps settled) (location : Location) :
    t.walkFrom onLink ending location steps = t.walkFrom onLink ending location settled := by
  induction h generalizing location with
  | refl => rfl
  | cons step h ih =>
    cases step with
    | root => exact ih []
    | current => simp only [walkFrom, ih]
    | parent => simp only [walkFrom, ih]
    | named name =>
      simp only [walkFrom, ih, h.isEmpty_eq]
      cases hnode : t.at? (location ++ [name]) with
      | none => rfl
      | some node =>
        cases node with
        | file content => rfl
        | folder => rfl
        | link target => simp only [hlink location target.walk _ _ h]
  | @stay next rest settled hroot _ ih =>
    rw [← ih location, walkFrom]
    by_cases hfolder : t.isFolder location = true
    · rw [if_pos hfolder]
    · rw [if_neg hfolder]
      -- The step behind the one that stays has to start from a folder too.
      cases next with
      | root => exact absurd rfl hroot
      | current => rw [walkFrom, if_neg hfolder]
      | parent => rw [walkFrom, if_neg hfolder]
      | named name => rw [walkFrom, if_pos (by simp [hfolder])]

theorem walk_settles (t : FileTree) (ending : Ending) (links : Nat) (location : Location)
    {steps settled : List Component} (h : Settles steps settled) :
    t.walk ending links location steps = t.walk ending links location settled := by
  induction links generalizing location steps settled with
  | zero =>
    rw [walk]
    exact walkFrom_settles (fun _ _ _ _ _ => rfl) h location
  | succ links ih =>
    rw [walk]
    exact walkFrom_settles (fun folder front _ _ hrest => ih folder (hrest.append front)) h location

end FileTree

/-! ### Steps along pieces -/

namespace Path

open Component

theorem ne_dot_of_isStep {piece : List Char} (h : IsStep piece) : piece ≠ ['.'] := by
  rintro rfl
  cases h

/-- The components along pieces that have others behind them: a path starts at the root, or with a
dot. -/
def above : List (List Char) → List Component
  | [] => []
  | first :: rest =>
    (if first = [] then [.root] else if first = ['.'] then [.current] else []) ++
      (first :: rest).filterMap Component.ofPiece?

theorem above_append {front : List (List Char)} (hne : front ≠ []) (more : List (List Char)) :
    above (front ++ more) = above front ++ more.filterMap Component.ofPiece? := by
  obtain ⟨first, rest, rfl⟩ := List.exists_cons_of_ne_nil hne
  rw [List.cons_append, above, above, ← List.cons_append, List.filterMap_append, List.append_assoc]

theorem above_of_isStep {first : List Char} (h : IsStep first) (rest : List (List Char)) :
    above (first :: rest) = stepOf first :: rest.filterMap Component.ofPiece? := by
  rw [above, if_neg (ne_nil_of_isStep h), if_neg (ne_dot_of_isStep h), List.nil_append,
    List.filterMap_cons_some (ofPiece?_of_isStep h)]

theorem above_eq_nil_iff {front : List (List Char)} : above front = [] ↔ front = [] := by
  cases front with
  | nil => exact ⟨fun _ => rfl, fun _ => rfl⟩
  | cons first rest =>
    refine ⟨fun hnil => ?_, fun hnil => nomatch hnil⟩
    by_cases hroot : first = []
    · rw [above, if_pos hroot] at hnil
      cases hnil
    · by_cases hdot : first = ['.']
      · rw [above, if_neg hroot, if_pos hdot] at hnil
        cases hnil
      · rw [above_of_isStep (isStep_of_ne hroot hdot)] at hnil
        cases hnil

theorem components_of_append {p : Path} {front tail : List (List Char)}
    (hp : p.pieces = front ++ tail) (hfront : front ≠ []) (htail : tail ≠ []) :
    p.components = above front ++ tail.filterMap Component.ofPiece? := by
  rw [← above_append hfront]
  obtain ⟨first, rest, rfl⟩ := List.exists_cons_of_ne_nil hfront
  obtain ⟨second, others, hmore⟩ :=
    List.exists_cons_of_ne_nil (List.append_ne_nil_of_right_ne_nil rest htail)
  rw [List.cons_append, hmore] at hp ⊢
  rw [pieces] at hp
  simp only [components, hp, above]
  split
  · rename_i heq
    cases heq
    rfl
  · rename_i heq
    cases heq
    rfl
  · rename_i hroot hdot
    rw [if_neg, if_neg]
    · rfl
    · rintro rfl
      exact hdot _ rfl
    · rintro rfl
      exact hroot _ _ rfl

theorem settles_concat (pieces : List (List Char)) {step : Component} (hstep : step ≠ .root) :
    Settles (pieces.map stepOf ++ [step]) (pieces.filterMap Component.ofPiece? ++ [step]) := by
  induction pieces with
  | nil => exact .refl _
  | cons piece rest ih =>
    rw [List.map_cons, List.cons_append]
    cases hpiece : Component.ofPiece? piece with
    | some read =>
      rw [List.filterMap_cons_some hpiece, stepOf, hpiece, Option.getD_some]
      exact .cons read ih
    | none =>
      rw [List.filterMap_cons_none hpiece, stepOf, hpiece, Option.getD_none]
      cases rest with
      | nil => exact .stay hstep ih
      | cons second others => exact .stay (stepOf_ne_root second) ih

theorem settles_along (front : List (List Char)) {step : Component} (hstep : step ≠ .root) :
    Settles (stepsAlong front ++ [step]) (above front ++ [step]) := by
  cases front with
  | nil => exact .refl _
  | cons first rest =>
    have hrest := settles_concat rest hstep
    by_cases hroot : first = []
    · subst hroot
      exact .cons .root hrest
    · by_cases hdot : first = ['.']
      · subst hdot
        exact .cons .current hrest
      · have hsteps : stepsAlong (first :: rest) = stepOf first :: rest.map stepOf := by
          cases first with
          | nil => exact absurd rfl hroot
          | cons c cs => rfl
        rw [hsteps, above_of_isStep (isStep_of_ne hroot hdot)]
        exact .cons (stepOf first) hrest

theorem lastPiece_of_concat {p : Path} {front : List (List Char)} {last : List Char}
    (hp : p.pieces = front ++ [last]) : p.lastPiece = last := by
  have h := p.pieces_eq_concat
  rw [hp] at h
  exact (List.cons.inj (List.append_inj' h rfl).2).1.symm

theorem toList_ofPiece? (last : List Char) :
    [last].filterMap Component.ofPiece? = (Component.ofPiece? last).toList := by
  cases h : Component.ofPiece? last with
  | none => rw [List.filterMap_cons_none h]; rfl
  | some step => rw [List.filterMap_cons_some h]; rfl

/-- The components of a path other than a dot: those in front of its last slash, and that of what
stands behind it. -/
theorem components_of_concat {p : Path} {front : List (List Char)} {last : List Char}
    (hp : p.pieces = front ++ [last]) (hdot : front = [] → last ≠ ['.']) :
    p.components = above front ++ (Component.ofPiece? last).toList := by
  rw [← toList_ofPiece?]
  by_cases hfront : front = []
  · subst hfront
    rw [List.nil_append, pieces] at hp
    simp only [components, hp]
    split
    · rename_i heq
      cases heq
    · rename_i heq
      cases heq
      exact absurd rfl (hdot rfl)
    · rfl
  · exact components_of_append hp hfront (List.cons_ne_nil _ _)

/-- Two paths with the same components and the same text behind their last slashes have the same
components in front of these. -/
theorem above_eq_of_same {p q : Path} {pFront qFront : List (List Char)} {last : List Char}
    (hp : p.pieces = pFront ++ [last]) (hq : q.pieces = qFront ++ [last])
    (hpDot : pFront = [] → last ≠ ['.']) (hqDot : qFront = [] → last ≠ ['.'])
    (hsame : p.same q = true) : above pFront = above qFront := by
  have hcomponents := same_iff.1 hsame
  rw [components_of_concat hp hpDot, components_of_concat hq hqDot] at hcomponents
  exact List.append_cancel_right hcomponents

end Path

namespace FileTree

/-! ### Replacing a file -/

variable {t u : FileTree} {ending : Ending} {p q : Path} {first last : List Char}
  {rest : List (List Char)} {temporary : String}

/-- What a path beside the last step of another leads to, by the components in front of that
step. -/
theorem walk_beside (hp : p.pieces = first :: (rest ++ [last])) (hlast : Path.IsStep last)
    (htemporary : IsTemporary temporary) (t : FileTree) (ending : Ending) (links : Nat)
    (location : Location) : t.walk ending links location (p.parent.join ⟨temporary⟩).walk
      = t.walk ending links location
        (Path.above (first :: rest) ++ [.named temporary]) := by
  obtain ⟨kept, count, habove, hbeside⟩ :=
    Path.walk_parent_join hp hlast htemporary.noSlash htemporary.step
  have hstay : Component.named temporary ≠ .root := fun heq => nomatch heq
  rw [← walk_settles t ending links location (Path.settles_along (first :: rest) hstay), habove,
    hbeside, List.append_assoc]
  exact (walk_settles t ending links location
    ((Component.settles_replicate count hstay).append kept)).symm

/-- A way along pieces to a folder is known by their components. -/
theorem walk_above {links limit : Nat} {location folder : Location} {front : List (List Char)}
    (h : t.Way .node links location (Path.stepsAlong front) folder) (hlinks : links ≤ limit)
    (hfolder : t.at? folder = some .folder) :
    t.walk .node limit location (Path.above front ++ [.current]) = .ok folder := by
  have hcurrent : Component.current ≠ .root := fun heq => nomatch heq
  rw [← walk_settles t .node _ _ (Path.settles_along front hcurrent)]
  exact walk_eq_ok_iff.2 ⟨links, hlinks, (way_append_current_iff hfolder 1).2 h⟩

/-- A file is replaced alike under two paths that end in the same step and have the same components
in front of it. -/
theorem replace_of_above {pFirst qFirst last : List Char} {pRest qRest : List (List Char)}
    (hpPieces : p.pieces = pFirst :: (pRest ++ [last]))
    (hqPieces : q.pieces = qFirst :: (qRest ++ [last]))
    (habove : Path.above (pFirst :: pRest) = Path.above (qFirst :: qRest))
    (hlast : Path.IsStep last) (htemporary : IsTemporary temporary) (hp : stepsOf p = .ok p.walk)
    (hq : stepsOf q = .ok q.walk)
    (hpBeside : stepsOf (p.parent.join ⟨temporary⟩) = .ok (p.parent.join ⟨temporary⟩).walk)
    (hqBeside : stepsOf (q.parent.join ⟨temporary⟩) = .ok (q.parent.join ⟨temporary⟩).walk)
    (t : FileTree) (refused : Option Refusal) (content : Content) :
    t.replace refused p temporary content = t.replace refused q temporary content := by
  have hput : ∀ left, t.putFile (p.parent.join ⟨temporary⟩) left
      = t.putFile (q.parent.join ⟨temporary⟩) left := by
    have hresolve : t.resolve .spot (p.parent.join ⟨temporary⟩)
        = t.resolve .spot (q.parent.join ⟨temporary⟩) := by
      rw [resolve, resolve, hpBeside, hqBeside]
      refine (walk_beside hpPieces hlast htemporary t .spot linkLimit t.workingFolder).trans ?_
      rw [habove]
      exact (walk_beside hqPieces hlast htemporary t .spot linkLimit t.workingFolder).symm
    intro left
    rw [putFile, putFile, hresolve]
  rw [replace_eq, replace_eq]
  have hwrite : t.write refused (p.parent.join ⟨temporary⟩) content
      = t.write refused (q.parent.join ⟨temporary⟩) content := by
    rw [write, write, hput]
  rw [hwrite]
  rcases hwritten : t.write refused (q.parent.join ⟨temporary⟩) content with ⟨fault | _, u⟩
  · rfl
  · have hqPut := putFile_of_write hwritten
    obtain ⟨pFolder, _, hpLinks, hpFolder, hpWay, hpSource, hpTarget⟩ :=
      spots_of_putFile hpPieces hlast htemporary hp ((hput _).trans hqPut)
    obtain ⟨qFolder, _, hqLinks, hqFolder, hqWay, hqSource, hqTarget⟩ :=
      spots_of_putFile hqPieces hlast htemporary hq hqPut
    have hpAbove := walk_above hpWay hpLinks hpFolder
    rw [habove] at hpAbove
    cases hpAbove.symm.trans (walk_above hqWay hqLinks hqFolder)
    have hmove : u.moveFile (p.parent.join ⟨temporary⟩) p
        = u.moveFile (q.parent.join ⟨temporary⟩) q := by
      rw [moveFile, moveFile, hpSource, hqSource, hpTarget, hqTarget]
    simp only [rename, hmove]

/-- A file is replaced alike under two paths with the same components that end in the same step. -/
theorem replace_of_same (hsame : p.same q = true) (hlast : Path.IsStep p.lastPiece)
    (hpieces : p.lastPiece = q.lastPiece) (htemporary : IsTemporary temporary)
    (hp : stepsOf p = .ok p.walk) (hq : stepsOf q = .ok q.walk)
    (hpBeside : stepsOf (p.parent.join ⟨temporary⟩) = .ok (p.parent.join ⟨temporary⟩).walk)
    (hqBeside : stepsOf (q.parent.join ⟨temporary⟩) = .ok (q.parent.join ⟨temporary⟩).walk)
    (t : FileTree) (refused : Option Refusal) (content : Content) :
    t.replace refused p temporary content = t.replace refused q temporary content := by
  have hpConcat := p.pieces_eq_concat
  have hqConcat := q.pieces_eq_concat
  rw [← hpieces] at hqConcat
  have hdot := Path.ne_dot_of_isStep hlast
  have habove := Path.above_eq_of_same hpConcat hqConcat (fun _ => hdot) (fun _ => hdot) hsame
  cases hpFront : p.pieces.dropLast with
  | nil =>
    -- Nothing stands in front of the step, so that it is the whole path.
    rw [hpFront, Path.above, eq_comm, Path.above_eq_nil_iff] at habove
    rw [hpFront] at hpConcat
    rw [habove] at hqConcat
    rw [Path.eq_of_pieces (hpConcat.trans hqConcat.symm)]
  | cons pFirst pRest =>
    cases hqFront : q.pieces.dropLast with
    | nil =>
      rw [hqFront, Path.above, Path.above_eq_nil_iff, hpFront] at habove
      cases habove
    | cons qFirst qRest =>
      rw [hpFront, hqFront] at habove
      rw [hpFront, List.cons_append] at hpConcat
      rw [hqFront, List.cons_append] at hqConcat
      exact replace_of_above hpConcat hqConcat habove hlast htemporary hp hq hpBeside hqBeside t
        refused content

end FileTree

end SidecarIndex

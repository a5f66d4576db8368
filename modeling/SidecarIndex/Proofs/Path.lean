import Mathlib.Data.List.TakeWhile
import SidecarIndex.FileTree.Update
import SidecarIndex.Store.Scan
import SidecarIndex.Proofs.Text

/-! # Steps along paths

A path is a run of pieces between slashes, and its steps are read off the pieces. Joining two paths
puts their pieces one behind the other, and the parent of a path keeps its pieces up to the step
before the last, so the steps of both are known from the pieces. Paths are ordered by their
steps. -/

namespace SidecarIndex

namespace Path

def pieces (p : Path) : List (List Char) := p.text.toList.splitOn '/'

/-- A piece that is a step, unlike nothing and a dot. -/
def IsStep (piece : List Char) : Prop := (Component.ofPiece? piece).isNone = false

instance (piece : List Char) : Decidable (IsStep piece) := inferInstanceAs (Decidable (_ = _))

def stepOf (piece : List Char) : Component := (Component.ofPiece? piece).getD .current

/-- The steps along some pieces: nothing before the first slash starts at the root. -/
def stepsAlong : List (List Char) → List Component
  | [] :: pieces => .root :: pieces.map stepOf
  | pieces => pieces.map stepOf

theorem stepsAlong_append {front : List (List Char)} (hne : front ≠ []) (more : List (List Char)) :
    stepsAlong (front ++ more) = stepsAlong front ++ more.map stepOf := by
  cases front with
  | nil => exact absurd rfl hne
  | cons first rest =>
    cases first with
    | nil => simp [stepsAlong]
    | cons c cs => simp [stepsAlong]

theorem pieces_ne_nil (p : Path) : p.pieces ≠ [] := List.splitOn_ne_nil '/' _

/-- The text of a path behind its last slash. -/
def lastPiece (p : Path) : List Char := p.pieces.getLast p.pieces_ne_nil

theorem pieces_eq_concat (p : Path) : p.pieces = p.pieces.dropLast ++ [p.lastPiece] :=
  (List.dropLast_concat_getLast p.pieces_ne_nil).symm

theorem pieces_eq_iff {p : Path} : p.pieces = [[]] ↔ p.text = "" := by
  apply Iff.intro
  · intro h
    have htext : ['/'].intercalate (p.text.toList.splitOn '/') = p.text.toList :=
      List.intercalate_splitOn '/'
    rw [show p.text.toList.splitOn '/' = [[]] from h] at htext
    exact String.toList_eq_nil_iff.1 htext.symm
  · intro h
    rw [pieces, h]
    rfl

theorem isAbsolute_of_pieces {p : Path} {first : List Char} {rest : List (List Char)}
    (hp : p.pieces = first :: rest) (hne : first ≠ []) : p.isAbsolute = false := by
  rw [pieces] at hp
  rw [isAbsolute]
  cases htext : p.text.toList with
  | nil => rfl
  | cons c cs =>
    rw [htext, List.splitOn_cons_eq_if_modifyHead] at hp
    by_cases hc : c = '/'
    · rw [if_pos (by simp [hc])] at hp
      exact absurd (List.cons.inj hp).1.symm hne
    · simp [hc]

theorem slash_not_mem_pieces (p : Path) : ∀ piece ∈ p.pieces, '/' ∉ piece :=
  Text.not_mem_of_mem_splitOn

theorem walk_eq_stepsAlong {p : Path} (h : p.text ≠ "") : p.walk = stepsAlong p.pieces := by
  have hpieces : p.pieces ≠ [[]] := fun heq => h (pieces_eq_iff.1 heq)
  rw [pieces] at hpieces ⊢
  unfold walk
  split
  · rename_i heq
    exact absurd heq hpieces
  · rename_i rest _ heq
    rw [heq]
    rfl
  · rename_i _ hroot
    unfold stepsAlong
    split
    · rename_i rest heq
      exact (hroot rest heq).elim
    · rfl

theorem walk_ne_nil {p : Path} (h : p.text ≠ "") : p.walk ≠ [] := by
  rw [walk_eq_stepsAlong h]
  obtain ⟨first, rest, hpieces⟩ := List.exists_cons_of_ne_nil p.pieces_ne_nil
  rw [hpieces]
  cases first with
  | nil => exact List.cons_ne_nil _ _
  | cons c cs => exact List.cons_ne_nil _ _

theorem walk_of_concat {p : Path} {first last : List Char} {rest : List (List Char)}
    (hp : p.pieces = first :: (rest ++ [last])) :
    p.walk = stepsAlong (first :: rest) ++ [stepOf last] := by
  have htext : p.text ≠ "" := by
    intro hempty
    rw [pieces_eq_iff.2 hempty] at hp
    have hlength := congrArg List.length hp
    simp at hlength
  rw [walk_eq_stepsAlong htext, hp, ← List.cons_append, stepsAlong_append (List.cons_ne_nil _ _),
    List.map_singleton]

theorem stepOf_ne_root (piece : List Char) : stepOf piece ≠ .root := by
  rw [stepOf, Component.ofPiece?]
  split
  · exact fun heq => nomatch heq
  · split
    · exact fun heq => nomatch heq
    · exact fun heq => nomatch heq

/-- A path starts at the root only at its beginning. -/
theorem root_not_mem_tail_stepsAlong (front : List (List Char)) :
    .root ∉ (stepsAlong front).tail := by
  have hmap : ∀ pieces : List (List Char), .root ∉ pieces.map stepOf := by
    intro pieces hroot
    obtain ⟨piece, _, heq⟩ := List.mem_map.1 hroot
    exact stepOf_ne_root piece heq
  unfold stepsAlong
  split
  · exact hmap _
  · exact fun hroot => hmap _ (List.mem_of_mem_tail hroot)

theorem root_not_mem_tail_walk (p : Path) : .root ∉ p.walk.tail := by
  by_cases h : p.text = ""
  · rw [walk, h]
    exact List.not_mem_nil
  · rw [walk_eq_stepsAlong h]
    exact root_not_mem_tail_stepsAlong p.pieces

theorem text_of_ofPiece? {piece : List Char} {step : Component}
    (h : Component.ofPiece? piece = some step) : step.text.toList = piece := by
  unfold Component.ofPiece? at h
  split at h
  · cases h
  · split at h
    · rename_i hdots
      cases h
      rw [hdots]
      decide
    · cases h
      exact String.toList_ofList

theorem eq_toList_of_stepOf {piece : List Char} {name : String} (h : stepOf piece = .named name) :
    piece = name.toList := by
  rw [stepOf] at h
  cases hread : Component.ofPiece? piece with
  | none =>
    rw [hread] at h
    cases h
  | some step =>
    rw [hread, Option.getD_some] at h
    rw [← text_of_ofPiece? hread, h]
    rfl

/-! ### Names of files -/

theorem ofPiece?_of_length {piece : List Char} (h : 3 ≤ piece.length) :
    Component.ofPiece? piece = some (.named (String.ofList piece)) := by
  have hone : ¬ (piece = [] ∨ piece = ['.']) := by
    intro heq
    rcases heq with heq | heq
    all_goals
      rw [heq] at h
      simp at h
  have htwo : piece ≠ ['.', '.'] := by
    intro heq
    rw [heq] at h
    simp at h
  rw [Component.ofPiece?, if_neg hone, if_neg htwo]

theorem ofPiece?_name {name : String} (h : IsFileName name) :
    Component.ofPiece? name.toList = some (.named name) := by
  obtain ⟨hempty, hdot, hdots, _⟩ := h
  have hnil : name.toList ≠ [] := fun heq => hempty (String.toList_eq_nil_iff.1 heq)
  have hone : name.toList ≠ ['.'] := by
    intro heq
    exact hdot (by rw [← String.ofList_toList (s := name), heq])
  have htwo : name.toList ≠ ['.', '.'] := by
    intro heq
    exact hdots (by rw [← String.ofList_toList (s := name), heq])
  rw [Component.ofPiece?, if_neg (by simp [hnil, hone]), if_neg htwo, String.ofList_toList]

theorem isStep_name {name : String} (h : IsFileName name) : IsStep name.toList := by
  rw [IsStep, ofPiece?_name h]
  rfl

theorem stepOf_name {name : String} (h : IsFileName name) : stepOf name.toList = .named name := by
  rw [stepOf, ofPiece?_name h, Option.getD_some]

theorem map_stepOf_names {names : List String} (h : ∀ name ∈ names, IsFileName name) :
    (names.map String.toList).map stepOf = names.map .named := by
  rw [List.map_map]
  exact List.map_congr_left fun name hname => stepOf_name (h name hname)

theorem slash_not_mem_name {name : String} (h : IsFileName name) : '/' ∉ name.toList := h.2.2.2.1

theorem pieces_intercalate {names : List String} (h : ∀ name ∈ names, IsFileName name)
    (hne : names ≠ []) : pieces ⟨"/".intercalate names⟩ = names.map String.toList := by
  have htext : ("/".intercalate names).toList = ['/'].intercalate (names.map String.toList) := by
    simp [String.toList_intercalate]
  rw [pieces, htext]
  refine List.splitOn_intercalate '/' ?_ (by simpa using hne)
  intro piece hpiece
  obtain ⟨name, hname, rfl⟩ := List.mem_map.1 hpiece
  exact slash_not_mem_name (h name hname)

/-! ### Joining -/

/-- The pieces of a joined path: those of the first part, without an empty one at its end, and those
of the second. -/
theorem pieces_join {base : Path} (hbase : base.text ≠ "") :
    ∃ front, front ≠ [] ∧
      (base.endsInSlash = false ∧ base.pieces = front ∨ base.pieces = front ++ [[]]) ∧
      ∀ p : Path, p.isAbsolute = false → (base.join p).pieces = front ++ p.pieces := by
  have hjoin : ∀ p : Path, p.isAbsolute = false → base.join p =
      if base.endsInSlash then ⟨base.text ++ p.text⟩ else ⟨base.text ++ "/" ++ p.text⟩ := by
    intro p hp
    rw [join, if_neg (by simp [hp, hbase])]
  by_cases hslash : base.endsInSlash = true
  · have hlast : base.text.toList.getLast? = some '/' := by
      simpa [endsInSlash] using hslash
    obtain ⟨before, hbefore⟩ := List.getLast?_eq_some_iff.1 hlast
    refine ⟨before.splitOn '/', List.splitOn_ne_nil '/' _, .inr ?_, fun p hp => ?_⟩
    · rw [pieces, hbefore, List.splitOn_append_cons_self]
      rfl
    · rw [hjoin p hp, if_pos hslash, pieces, String.toList_append, hbefore, List.append_assoc,
        List.singleton_append, List.splitOn_append_cons_self, pieces]
  · refine ⟨base.pieces, base.pieces_ne_nil, .inl ⟨by simpa using hslash, rfl⟩, fun p hp => ?_⟩
    have htext : (base.text ++ "/" ++ p.text).toList
        = base.text.toList ++ '/' :: p.text.toList := by
      simp
    rw [hjoin p hp, if_neg hslash, pieces, htext, List.splitOn_append_cons_self, pieces, pieces]

/-- The pieces of the paths that are joined to a root: those of the root come first. -/
theorem exists_pieces_join (root : Path) : ∃ front, (front = [] → root.text = "") ∧
    ∀ p : Path, p.isAbsolute = false → (root.join p).pieces = front ++ p.pieces := by
  by_cases hroot : root.text = ""
  · refine ⟨[], fun _ => hroot, fun p _ => ?_⟩
    rw [join, if_pos (.inr hroot), List.nil_append]
  · obtain ⟨front, hne, _, hjoin⟩ := pieces_join hroot
    exact ⟨front, fun hnil => absurd hnil hne, hjoin⟩

theorem isAbsolute_append {p : Path} (hp : p.text ≠ "") (behind : String) :
    isAbsolute ⟨p.text ++ behind⟩ = p.isAbsolute := by
  rw [isAbsolute, isAbsolute, String.toList_append]
  cases htext : p.text.toList with
  | nil => exact absurd (String.toList_eq_nil_iff.1 htext) hp
  | cons c cs => rfl

/-- Text behind a path that is not empty stays behind it when the path is joined to another. -/
theorem join_append (base : Path) {p : Path} (hp : p.text ≠ "") (behind : String) :
    (base.join p).text ++ behind = (base.join ⟨p.text ++ behind⟩).text := by
  unfold join
  rw [isAbsolute_append hp]
  split
  · rfl
  · split
    · rw [String.append_assoc]
    · rw [String.append_assoc]

theorem intercalate_concat {front : List (List Char)} (hne : front ≠ []) (last : List Char) :
    ['/'].intercalate (front ++ [last]) = ['/'].intercalate front ++ '/' :: last := by
  induction front with
  | nil => exact absurd rfl hne
  | cons first rest ih =>
    cases rest with
    | nil => simp
    | cons second rest =>
      rw [List.cons_append, List.intercalate_cons_of_ne_nil (by simp), ih (List.cons_ne_nil _ _),
        List.intercalate_cons_cons]
      simp

theorem text_of_pieces (p : Path) : p.text.toList = ['/'].intercalate p.pieces :=
  (List.intercalate_splitOn '/').symm

theorem eq_of_pieces {p q : Path} (h : p.pieces = q.pieces) : p = q := by
  have htext : p.text = q.text := by
    rw [← String.toList_inj, text_of_pieces, text_of_pieces, h]
  cases p
  exact congrArg mk htext

/-- Text behind a path belongs to its last piece, or stands in pieces behind it. -/
theorem pieces_append {p : Path} {front : List (List Char)} {last : List Char}
    (hp : p.pieces = front ++ [last]) (behind : String) :
    pieces ⟨p.text ++ behind⟩ = front ++ (last ++ behind.toList).splitOn '/' := by
  have htext := p.text_of_pieces
  have hslash := p.slash_not_mem_pieces
  rw [hp] at htext hslash
  rw [pieces, String.toList_append, htext]
  by_cases hne : front = []
  · rw [hne, List.nil_append, List.nil_append, List.intercalate_singleton]
  · rw [intercalate_concat hne, List.append_assoc, List.cons_append, List.splitOn_append_cons_self,
      List.splitOn_intercalate '/'
      (fun piece hpiece => hslash piece (List.mem_append_left _ hpiece)) hne]

/-- What stands in the text of a path, and has no slash in it, stands in a piece. -/
theorem exists_piece_of_infix {p : Path} {part : List Char} (hpart : '/' ∉ part)
    (h : part <:+: p.text.toList) : ∃ piece ∈ p.pieces, part <:+: piece := by
  obtain ⟨before, behind, htext⟩ := h
  obtain ⟨front, last, _, hfront⟩ := Text.exists_splitOn_back hpart before
  obtain ⟨first, more, hbehind⟩ := List.exists_cons_of_ne_nil (List.splitOn_ne_nil '/' behind)
  have hlast : '/' ∉ last ++ part :=
    Text.not_mem_of_mem_splitOn (last ++ part)
      (hfront ▸ List.mem_append_right _ (List.mem_singleton.2 rfl))
  have hsplit : pieces ⟨String.ofList (before ++ part)⟩ = front ++ [last ++ part] := by
    rw [pieces, String.toList_ofList, hfront]
  have hpieces := pieces_append hsplit (String.ofList behind)
  rw [String.toList_ofList, Text.splitOn_front hlast hbehind] at hpieces
  have hp : p = ⟨String.ofList (before ++ part) ++ String.ofList behind⟩ := by
    rw [← String.ofList_append, htext, String.ofList_toList]
  refine ⟨last ++ part ++ first, ?_, last, first, rfl⟩
  rw [hp, hpieces]
  exact List.mem_append_right _ (List.mem_cons_self ..)

/-- The pieces of a path are beginnings of those of a longer text, each of another one. -/
theorem exists_piece_of_append {p : Path} (behind : String) {piece : List Char}
    (h : piece ∈ p.pieces) : ∃ longer ∈ pieces ⟨p.text ++ behind⟩, piece <+: longer := by
  have hpieces := p.pieces_eq_concat
  obtain ⟨first, more, hbehind⟩ :=
    List.exists_cons_of_ne_nil (List.splitOn_ne_nil '/' behind.toList)
  have hlast : '/' ∉ p.lastPiece := p.slash_not_mem_pieces _ (List.getLast_mem _)
  rw [pieces_append hpieces, Text.splitOn_front hlast hbehind]
  rw [hpieces] at h
  rcases List.mem_append.1 h with hfront | hlast
  · exact ⟨piece, List.mem_append_left _ hfront, List.prefix_refl _⟩
  · rw [List.mem_singleton.1 hlast]
    exact ⟨_, List.mem_append_right _ (List.mem_cons_self ..), List.prefix_append _ _⟩

theorem isAbsolute_intercalate {names : List String} (h : ∀ name ∈ names, IsFileName name)
    (hne : names ≠ []) : isAbsolute ⟨"/".intercalate names⟩ = false := by
  obtain ⟨name, others, rfl⟩ := List.exists_cons_of_ne_nil hne
  have hpieces := pieces_intercalate h hne
  rw [List.map_cons] at hpieces
  exact isAbsolute_of_pieces hpieces fun hnil =>
    (h name (List.mem_cons_self ..)).1 (String.toList_eq_nil_iff.1 hnil)

/-- The pieces in front of those of each relative path that is joined to a root. -/
structure IsStem (root : Path) (front : List (List Char)) : Prop where
  ne_nil : front ≠ []
  pieces_root : root.pieces = front ∨ root.pieces = front ++ [[]]
  pieces_join : ∀ p : Path, p.isAbsolute = false → (root.join p).pieces = front ++ p.pieces

theorem exists_isStem {root : Path} (h : root.text ≠ "") : ∃ front, root.IsStem front := by
  obtain ⟨front, hne, hfront, hjoin⟩ := pieces_join h
  refine ⟨front, hne, ?_, hjoin⟩
  rcases hfront with ⟨_, hsame⟩ | hslash
  · exact .inl hsame
  · exact .inr hslash

section IsStem

variable {root p : Path} {front : List (List Char)}

/-- The steps of a root are those of its stem, and perhaps one that stays. -/
theorem IsStem.walk_root (h : root.IsStem front) (hroot : root.text ≠ "") :
    ∃ count, root.walk = stepsAlong front ++ List.replicate count .current := by
  rw [walk_eq_stepsAlong hroot]
  rcases h.pieces_root with hpieces | hpieces
  · exact ⟨0, by rw [hpieces, List.replicate_zero, List.append_nil]⟩
  · exact ⟨1, by rw [hpieces, stepsAlong_append h.ne_nil]; rfl⟩

theorem IsStem.walk_join (h : root.IsStem front) (hp : p.isAbsolute = false) :
    (root.join p).walk = stepsAlong front ++ p.pieces.map stepOf := by
  have hpieces := h.pieces_join p hp
  rw [← stepsAlong_append h.ne_nil, ← hpieces]
  apply walk_eq_stepsAlong
  intro hempty
  rw [pieces_eq_iff.2 hempty] at hpieces
  have hlength := congrArg List.length hpieces
  have hfront := List.length_pos_iff.2 h.ne_nil
  have hmore := List.length_pos_iff.2 p.pieces_ne_nil
  simp only [List.length_append, List.length_singleton] at hlength
  omega

theorem IsStem.pieces_below (h : root.IsStem front) {names : List String}
    (hnames : ∀ name ∈ names, IsFileName name) (hne : names ≠ []) :
    (root.below names).pieces = front ++ names.map String.toList := by
  rw [below, h.pieces_join _ (isAbsolute_intercalate hnames hne), pieces_intercalate hnames hne]

theorem IsStem.walk_below (h : root.IsStem front) {names : List String}
    (hnames : ∀ name ∈ names, IsFileName name) (hne : names ≠ []) :
    (root.below names).walk = stepsAlong front ++ names.map .named := by
  rw [below, h.walk_join (isAbsolute_intercalate hnames hne), pieces_intercalate hnames hne,
    map_stepOf_names hnames]

end IsStem

/-! ### Parents -/

theorem upToStep_concat (front : List (List Char)) {last : List Char} (h : IsStep last) :
    upToStep (front ++ [last]) = front ++ [last] := by
  have hlast : (Component.ofPiece? last).isNone = false := h
  rw [upToStep, List.reverse_append, List.reverse_singleton, List.singleton_append,
    List.dropWhile_cons_of_neg (by rw [hlast]; decide), List.reverse_cons, List.reverse_reverse]

/-- Only pieces that stay are left out behind the last step. -/
theorem exists_upToStep_append (front : List (List Char)) :
    ∃ tail, front = upToStep front ++ tail ∧ ∀ piece ∈ tail, stepOf piece = .current := by
  refine ⟨(front.reverse.takeWhile fun piece => (Component.ofPiece? piece).isNone).reverse, ?_, ?_⟩
  · rw [upToStep, ← List.reverse_append, List.takeWhile_append_dropWhile, List.reverse_reverse]
  · intro piece hpiece
    have hnone := List.mem_takeWhile_imp (List.mem_reverse.1 hpiece)
    rw [stepOf, Option.isNone_iff_eq_none.1 hnone]
    rfl

theorem upToStep_eq_nil_or_concat (front : List (List Char)) :
    upToStep front = [] ∨ ∃ before last, upToStep front = before ++ [last] ∧ IsStep last := by
  rw [upToStep]
  cases h : front.reverse.dropWhile fun piece => (Component.ofPiece? piece).isNone with
  | nil => exact .inl rfl
  | cons last rest =>
    refine .inr ⟨rest.reverse, last, List.reverse_cons, ?_⟩
    have hhead :=
      List.head?_dropWhile_not (fun piece => (Component.ofPiece? piece).isNone) front.reverse
    rw [h] at hhead
    exact hhead

theorem upToStep_cons {first : List Char} (h : IsStep first) (rest : List (List Char)) :
    upToStep (first :: rest) = first :: upToStep rest := by
  have hfirst : (Component.ofPiece? first).isNone = false := h
  rw [upToStep, upToStep, List.reverse_cons, List.dropWhile_append]
  split
  · rename_i hempty
    rw [List.isEmpty_iff.1 hempty, List.dropWhile_cons_of_neg (by rw [hfirst]; decide)]
    rfl
  · rw [List.reverse_append]
    rfl

theorem aboveStep_concat (front : List (List Char)) {last : List Char} (h : IsStep last) :
    aboveStep (front ++ [last]) = upToStep front := by
  rw [aboveStep, upToStep_concat front h, List.dropLast_concat]

theorem isStep_of_ne {piece : List Char} (hnil : piece ≠ []) (hdot : piece ≠ ['.']) :
    IsStep piece := by
  rw [IsStep, Component.ofPiece?, if_neg (by simp [hnil, hdot])]
  split
  · rfl
  · rfl

/-- The text of the parent of a path: its pieces up to the step before the last, and at least the
slash at the root. -/
theorem parent_text {p : Path} {first last : List Char} {rest : List (List Char)}
    (hp : p.pieces = first :: (rest ++ [last])) (hlast : IsStep last) :
    p.parent.text.toList = if first = [] ∧ upToStep rest = [] then ['/']
      else ['/'].intercalate (first :: upToStep rest) := by
  obtain ⟨second, others, hmore⟩ : ∃ second others, rest ++ [last] = second :: others :=
    List.exists_cons_of_ne_nil (by simp)
  have habove := aboveStep_concat rest hlast
  have hup := upToStep_concat rest hlast
  rw [pieces, hmore] at hp
  rw [hmore] at habove hup
  by_cases hroot : first = []
  · subst hroot
    simp only [parent, hp, habove, true_and]
    cases upToStep rest with
    | nil => rfl
    | cons piece more => simp [List.intercalate_cons_cons]
  · rw [if_neg (by simp [hroot])]
    by_cases hdot : first = ['.']
    · subst hdot
      simp only [parent, hp, habove, hup, List.cons_ne_nil, if_false, String.toList_ofList]
    · have hself := aboveStep_concat (first :: rest) hlast
      rw [List.cons_append, hmore, upToStep_cons (isStep_of_ne hroot hdot)] at hself
      unfold parent
      rw [hp]
      split
      · rename_i heq
        cases heq
      · rename_i heq
        cases heq
        exact absurd rfl hroot
      · rename_i heq
        cases heq
        exact absurd rfl hdot
      · rw [hself, String.toList_ofList]

theorem ne_nil_of_isStep {piece : List Char} (h : IsStep piece) : piece ≠ [] := by
  intro hnil
  rw [hnil] at h
  cases h

theorem pieces_of_text {p : Path} {parts : List (List Char)} (hne : parts ≠ [])
    (hslash : ∀ piece ∈ parts, '/' ∉ piece) (htext : p.text.toList = ['/'].intercalate parts) :
    p.pieces = parts := by
  rw [pieces, htext, List.splitOn_intercalate '/' hslash hne]

theorem mem_of_mem_upToStep {front : List (List Char)} {piece : List Char}
    (h : piece ∈ upToStep front) : piece ∈ front := by
  obtain ⟨tail, hfront, _⟩ := exists_upToStep_append front
  rw [hfront]
  exact List.mem_append_left _ h

theorem isAbsolute_eq_false {name : String} (h : '/' ∉ name.toList) :
    isAbsolute ⟨name⟩ = false := by
  rw [isAbsolute]
  exact beq_false_of_ne fun hhead => h (List.mem_of_head? hhead)

theorem pieces_join_root {p : Path} (hp : p.text.toList = ['/']) {name : String}
    (hname : '/' ∉ name.toList) : (p.join ⟨name⟩).pieces = [[], name.toList] := by
  have hsingle : pieces ⟨name⟩ = [name.toList] := List.splitOn_eq_singleton hname
  have hpieces : p.pieces = [[], []] := by
    rw [pieces, hp]
    rfl
  have hne : p.text ≠ "" := by
    intro hempty
    rw [hempty] at hp
    cases hp
  obtain ⟨front, _, hfront, hjoin⟩ := pieces_join hne
  rw [hjoin _ (isAbsolute_eq_false hname), hsingle]
  rcases hfront with ⟨hslash, _⟩ | hfront
  · rw [endsInSlash, hp] at hslash
    cases hslash
  · rw [hpieces] at hfront
    have hsplit : ([[]] : List (List Char)) ++ [[]] = front ++ [[]] := hfront
    rw [← List.append_inj_left' hsplit rfl]
    rfl

theorem pieces_join_of_last {p : Path} {parts : List (List Char)} (hp : p.pieces = parts)
    (hlast : ∀ front, parts ≠ front ++ [[]]) {name : String} (hname : '/' ∉ name.toList) :
    (p.join ⟨name⟩).pieces = parts ++ [name.toList] := by
  have hsingle : pieces ⟨name⟩ = [name.toList] := List.splitOn_eq_singleton hname
  have hne : p.text ≠ "" := by
    intro hempty
    rw [pieces_eq_iff.2 hempty] at hp
    exact hlast [] hp.symm
  obtain ⟨front, _, hfront, hjoin⟩ := pieces_join hne
  rw [hjoin _ (isAbsolute_eq_false hname), hsingle]
  rcases hfront with ⟨_, hfront⟩ | hfront
  · rw [← hfront, hp]
  · rw [hp] at hfront
    exact absurd hfront (hlast front)

/-- Beside the last step of a path: the pieces before it that matter, and a name. -/
theorem pieces_parent_join {p : Path} {first last : List Char} {rest : List (List Char)}
    (hp : p.pieces = first :: (rest ++ [last])) (hlast : IsStep last) {name : String}
    (hname : '/' ∉ name.toList) :
    (p.parent.join ⟨name⟩).pieces = first :: upToStep rest ++ [name.toList] := by
  have htext := parent_text hp hlast
  by_cases htop : first = [] ∧ upToStep rest = []
  · rw [if_pos htop] at htext
    rw [pieces_join_root htext hname, htop.1, htop.2]
    rfl
  · rw [if_neg htop] at htext
    have hslash : ∀ piece ∈ first :: upToStep rest, '/' ∉ piece := by
      intro piece hpiece
      apply slash_not_mem_pieces p piece
      rw [hp]
      rcases List.mem_cons.1 hpiece with rfl | hpiece
      · exact List.mem_cons_self ..
      · exact List.mem_cons_of_mem _ (List.mem_append_left _ (mem_of_mem_upToStep hpiece))
    have hpieces : p.parent.pieces = first :: upToStep rest :=
      pieces_of_text (List.cons_ne_nil _ _) hslash htext
    refine pieces_join_of_last hpieces (fun front hfront => ?_) hname
    -- The last of these pieces is a step, and so not empty.
    rcases upToStep_eq_nil_or_concat rest with hnil | ⟨before, step, hconcat, hstep⟩
    · rw [hnil] at hfront
      have hsplit : [] ++ [first] = front ++ [[]] := hfront
      have hfirst := List.append_inj_right' hsplit rfl
      exact htop ⟨(List.cons.inj hfirst).1, hnil⟩
    · rw [hconcat, ← List.cons_append] at hfront
      have hlastPiece := (List.append_inj' hfront rfl).2
      exact ne_nil_of_isStep hstep (List.cons.inj hlastPiece).1

/-- The steps to a name beside the last step of a path: those before it, but for some that stay, and
the name. -/
theorem walk_parent_join {p : Path} {first last : List Char} {rest : List (List Char)}
    (hp : p.pieces = first :: (rest ++ [last])) (hlast : IsStep last) {name : String}
    (hname : '/' ∉ name.toList) (hstep : Component.ofPiece? name.toList = some (.named name)) :
    ∃ kept count, stepsAlong (first :: rest) = kept ++ List.replicate count .current ∧
      (p.parent.join ⟨name⟩).walk = kept ++ [.named name] := by
  have hpieces := pieces_parent_join hp hlast hname
  obtain ⟨tail, hrest, htail⟩ := exists_upToStep_append rest
  have hcurrent : tail.map stepOf = List.replicate tail.length .current := by
    rw [List.eq_replicate_iff, List.length_map]
    refine ⟨rfl, fun step hmem => ?_⟩
    obtain ⟨piece, hpiece, rfl⟩ := List.mem_map.1 hmem
    exact htail piece hpiece
  have htext : (p.parent.join ⟨name⟩).text ≠ "" := by
    intro hempty
    rw [pieces_eq_iff.2 hempty] at hpieces
    have hlength := congrArg List.length hpieces
    simp at hlength
  refine ⟨stepsAlong (first :: upToStep rest), tail.length, ?_, ?_⟩
  · rw [← hcurrent, ← stepsAlong_append (List.cons_ne_nil _ _), List.cons_append, ← hrest]
  · rw [walk_eq_stepsAlong htext, hpieces, stepsAlong_append (List.cons_ne_nil _ _),
      List.map_singleton, stepOf, hstep, Option.getD_some]

theorem splitLast?_concat (front : List Component) (name : String) :
    FileTree.splitLast? (front ++ [.named name]) = some (front, name) := by
  rw [FileTree.splitLast?, List.getLast?_concat]
  simp only [List.dropLast_concat]

theorem splitLast?_components {p : Path} {front : List (List Char)} {last : List Char}
    {name : String} (hp : p.pieces = front ++ [last])
    (hlast : Component.ofPiece? last = some (.named name)) :
    (FileTree.splitLast? p.components).map Prod.snd = some name := by
  have hinner : p.pieces.filterMap Component.ofPiece?
      = front.filterMap Component.ofPiece? ++ [.named name] := by
    rw [hp, List.filterMap_append, List.filterMap_cons_some hlast, List.filterMap_nil]
  have hcomponents : ∃ steps, p.components = steps ++ [.named name] := by
    rw [pieces] at hinner
    unfold components
    simp only [hinner]
    split
    · exact ⟨.root :: front.filterMap Component.ofPiece?, rfl⟩
    · exact ⟨.current :: front.filterMap Component.ofPiece?, rfl⟩
    · exact ⟨_, rfl⟩
  obtain ⟨steps, hsteps⟩ := hcomponents
  rw [hsteps, splitLast?_concat]
  rfl

end Path

/-! ### The order of paths -/

namespace Component

def nameText : Component → String
  | named name => name
  | _ => ""

/-- Steps are in the order of their kinds, and names among themselves in the order of texts. -/
theorem compare_eq_compareLex :
    Component.compare = compareLex (compareOn Component.rank) (compareOn nameText) := by
  funext a b
  cases a
  all_goals
    cases b
    all_goals rfl

instance : Std.TransCmp Component.compare := by
  rw [compare_eq_compareLex]
  infer_instance

theorem compareList_eq_compareLex (a b : List Component) :
    compareList a b = List.compareLex Component.compare a b := by
  induction a generalizing b with
  | nil =>
    cases b with
    | nil => rfl
    | cons step rest => rfl
  | cons step rest ih =>
    cases b with
    | nil => rfl
    | cons other others => rw [compareList, ih, List.compareLex_cons_cons]

theorem eq_of_compare_eq {a b : Component} (h : a.compare b = .eq) : a = b := by
  cases a
  all_goals cases b
  all_goals first
    | rfl
    | exact congrArg named (Std.LawfulEqOrd.eq_of_compare h)
    | cases h

theorem eq_of_compareList_eq {a b : List Component} (h : compareList a b = .eq) : a = b := by
  induction a generalizing b with
  | nil =>
    cases b with
    | nil => rfl
    | cons step rest => cases h
  | cons step rest ih =>
    cases b with
    | nil => cases h
    | cons other others =>
      rw [compareList, Ordering.then_eq_eq] at h
      rw [eq_of_compare_eq h.1, ih h.2]

end Component

theorem Path.same_comm (p q : Path) : p.same q = q.same p := BEq.comm

theorem Path.same_of_compare_eq {p q : Path} (h : p.compare q = .eq) : p.same q = true :=
  Path.same_iff.2 (Component.eq_of_compareList_eq h)

instance : Std.TransCmp Path.compare where
  eq_swap := by
    intro p q
    simp only [Path.compare, Component.compareList_eq_compareLex]
    exact Std.OrientedCmp.eq_swap
  isLE_trans := by
    intro p q r hpq hqr
    simp only [Path.compare, Component.compareList_eq_compareLex] at hpq hqr ⊢
    exact Std.TransCmp.isLE_trans hpq hqr

end SidecarIndex

import Mathlib.Data.List.Infix
import SidecarIndex.Proofs.FileTree.Frame
import SidecarIndex.Proofs.Store.Save

/-! # A temporary file that is left

Where the system refuses to write a side-car, its temporary file may be left in the tree. Its name
holds a token that nothing else in the tree has in its name. So it is the side-car of nothing, it
has no side-car, and the places of the tree hold what they held. -/

namespace SidecarIndex

/-- A token for temporary files that stands in no name in a tree. -/
structure UnusedToken (t : FileTree) (token : String) : Prop where
  noSlash : '/' ∉ token.toList
  noDot : '.' ∉ token.toList
  unused : ∀ location name, t.at? (location ++ [name]) ≠ none → ¬ token.toList <:+: name.toList

theorem unusedToken_iff {t : FileTree} {token : String} : UnusedToken t token ↔
    '/' ∉ token.toList ∧ '.' ∉ token.toList ∧ ∀ entry ∈ t.nodes.entries, ∀ name ∈ entry.1.getLast?,
      ¬ token.toList <:+: name.toList := by
  rw [← FileTree.forall_names_iff]
  exact ⟨fun h => ⟨h.noSlash, h.noDot, h.unused⟩, fun h => ⟨h.1, h.2.1, h.2.2⟩⟩

instance (t : FileTree) (token : String) : Decidable (UnusedToken t token) :=
  decidable_of_iff _ unusedToken_iff.symm

section Token

variable {t u : FileTree} {token : String}

theorem UnusedToken.freshToken (h : UnusedToken t token) : FreshToken t token := by
  refine ⟨h.noSlash, fun location name hthere hending => h.unused location name hthere ?_⟩
  have hinfix : token.toList <:+: ("-" ++ token ++ ".tmp").toList := by
    rw [String.toList_append, String.toList_append]
    exact List.infix_append _ _ _
  exact hinfix.trans hending.isInfix

theorem UnusedToken.of_alike (h : UnusedToken t token) (halike : t.Alike u) :
    UnusedToken u token := by
  refine ⟨h.noSlash, h.noDot, fun location name hthere => h.unused location name fun hnone =>
    hthere ?_⟩
  exact halike.at?_none.1 hnone

end Token

namespace Store

/-- Where a text with a token in it ends in an extension, the extension begins behind the token. -/
theorem exists_of_append_extension {described extension before token behind : List Char}
    (hdot : extension.head? = some '.') (htoken : '.' ∉ token) (hextension : ¬ token <:+: extension)
    (h : described ++ extension = before ++ token ++ behind) :
    ∃ between, described = before ++ token ++ between ∧ behind = between ++ extension := by
  rcases List.append_eq_append_iff.1 h with ⟨rest, hrest, hext⟩ | ⟨rest, hrest, hbehind⟩
  · rcases List.append_eq_append_iff.1 hrest with ⟨more, _, hmore⟩ | ⟨more, _, hmore⟩
    · cases rest with
      | nil =>
        rw [List.append_nil] at hrest
        rw [List.nil_append] at hext
        exact ⟨[], by rw [hrest, List.append_nil], by rw [hext, List.nil_append]⟩
      | cons first others =>
        -- The extension would begin in the token, which has no dot.
        rw [hext, List.cons_append, List.head?_cons] at hdot
        cases hdot
        exact absurd (hmore ▸ List.mem_append_right _ (List.mem_cons_self ..)) htoken
    · exact absurd ⟨more, behind, by rw [hext, hmore]⟩ hextension
  · exact ⟨rest, hrest, hbehind⟩

variable {s : Store} {t u : FileTree} {base : Location} {places : List Place}
  {documents : List Document} {token : String} {names : List String} {path : Path}

/-! ### Names with a token -/

/-- A text that stands in the extension stands in a name of every side-car. -/
theorem Describes.not_infix_extension (h : s.Describes t base names path)
    (htoken : UnusedToken t token) : ¬ token.toList <:+: s.extension.toList := by
  intro hinfix
  have hfile : Path.pieces ⟨"/".intercalate names⟩ = names.map String.toList :=
    Path.pieces_intercalate (FileTree.isFileName_of_at? h.there) h.ne_nil
  have htext : token.toList <:+: ("/".intercalate names).toList := by
    rw [h.text, String.toList_append]
    exact hinfix.trans (List.suffix_append _ _).isInfix
  obtain ⟨piece, hpiece, hpart⟩ :=
    Path.exists_piece_of_infix (p := ⟨"/".intercalate names⟩) htoken.noSlash htext
  rw [hfile] at hpiece
  obtain ⟨name, hname, rfl⟩ := List.mem_map.1 hpiece
  obtain ⟨above, hthere⟩ := FileTree.exists_at?_of_mem h.there hname
  exact htoken.unused above name hthere hpart

theorem Describes.isAbsolute (h : s.Describes t base names path) : path.isAbsolute = false := by
  rw [← Path.isAbsolute_append h.ne_empty s.extension, ← h.text]
  exact Path.isAbsolute_intercalate (FileTree.isFileName_of_at? h.there) h.ne_nil

/-- The token stands in no step of a path that is described by a file whose names have no token. -/
theorem not_mem_walk_of_describes (hroot : t.resolve .node s.root = .ok base)
    (htoken : UnusedToken t token) (h : s.Describes u base names path)
    (hthere : t.at? (base ++ names) ≠ none) {name : String}
    (hname : token.toList <:+: name.toList) : .named name ∉ (s.root.join path).walk := by
  obtain ⟨hsteps, links, _, hway⟩ := FileTree.resolve_eq_ok_iff_way.1 hroot
  have hrootText := FileTree.text_ne_of_stepsOf hsteps
  obtain ⟨front, hstem⟩ := Path.exists_isStem hrootText
  rw [hstem.walk_join h.isAbsolute]
  intro hmem
  rcases List.mem_append.1 hmem with hfront | hpiece
  · obtain ⟨count, hwalk⟩ := hstem.walk_root hrootText
    obtain ⟨folder, hfolder⟩ := hway.exists_of_mem (hwalk ▸ List.mem_append_left _ hfront)
    exact htoken.unused folder name hfolder hname
  · obtain ⟨piece, hpiece, hstep⟩ := List.mem_map.1 hpiece
    obtain ⟨longer, hlonger, hprefix⟩ := Path.exists_piece_of_append s.extension hpiece
    rw [← h.text, Path.pieces_intercalate (FileTree.isFileName_of_at? hthere) h.ne_nil] at hlonger
    obtain ⟨other, hother, rfl⟩ := List.mem_map.1 hlonger
    obtain ⟨above, habove⟩ := FileTree.exists_at?_of_mem hthere hother
    rw [Path.eq_toList_of_stepOf hstep] at hprefix
    exact htoken.unused above other habove (hname.trans hprefix.isInfix)

/-! ### What a temporary file describes -/

section Temporary

variable {folder : Location} {name : String} {content : Content}

theorem exists_intercalate_concat (front : List (List Char)) (last : List Char) :
    ∃ before, ['/'].intercalate (front ++ [last]) = before ++ last := by
  by_cases hfront : front = []
  · rw [hfront, List.nil_append, List.intercalate_singleton]
    exact ⟨[], rfl⟩
  · rw [Path.intercalate_concat hfront]
    exact ⟨['/'].intercalate front ++ ['/'], by rw [List.append_assoc, List.singleton_append]⟩

theorem temporary_toList (name token : String) : ("." ++ name ++ "-" ++ token ++ ".tmp").toList
    = '.' :: name.toList ++ ['-'] ++ token.toList ++ ".tmp".toList := by
  simp

/-- What a temporary file would describe ends in a part of its name that goes beyond the token. -/
theorem exists_lastPiece_of_temporary (htoken : UnusedToken t token)
    (hextension : ¬ token.toList <:+: s.extension.toList) {front : List (List Char)}
    (hfile : Path.pieces ⟨path.text ++ s.extension⟩
      = front ++ [("." ++ name ++ "-" ++ token ++ ".tmp").toList]) :
    ∃ between, path.lastPiece = '.' :: name.toList ++ ['-'] ++ token.toList ++ between ∧
      ".tmp".toList = between ++ s.extension.toList := by
  have htext := Path.text_of_pieces ⟨path.text ++ s.extension⟩
  obtain ⟨before, hbefore⟩ :=
    exists_intercalate_concat front ("." ++ name ++ "-" ++ token ++ ".tmp").toList
  rw [hfile, hbefore, temporary_toList, String.toList_append, ← List.append_assoc,
    ← List.append_assoc] at htext
  obtain ⟨between, _, hending⟩ :=
    exists_of_append_extension s.isDotted htoken.noDot hextension htext
  have hslash : '/' ∉ path.lastPiece ++ s.extension.toList := by
    intro hmem
    rcases List.mem_append.1 hmem with hlast | hext
    · exact path.slash_not_mem_pieces _ (List.getLast_mem _) hlast
    · have hmem : '/' ∈ ".tmp".toList := hending ▸ List.mem_append_right between hext
      revert hmem
      decide
  rw [Path.pieces_append path.pieces_eq_concat, List.splitOn_eq_singleton hslash] at hfile
  have hlast := (List.cons.inj (List.append_inj' hfile rfl).2).1
  rw [temporary_toList, hending, ← List.append_assoc] at hlast
  exact ⟨between, List.append_cancel_right hlast, hending⟩

/-- A temporary file is the side-car of nothing: what it would describe has the token in its name as
well. -/
theorem not_describes_temporary (htoken : UnusedToken t token)
    (hextension : ¬ token.toList <:+: s.extension.toList) (hname : IsFileName name)
    (hu : u.Rewrites t (folder ++ ["." ++ name ++ "-" ++ token ++ ".tmp"]) content)
    {above : List String} :
    ¬ s.Describes u base (above ++ ["." ++ name ++ "-" ++ token ++ ".tmp"]) path := by
  intro h
  have hfile := Path.pieces_intercalate (FileTree.isFileName_of_at? h.there) h.ne_nil
  rw [h.text, List.map_append, List.map_singleton] at hfile
  obtain ⟨between, hlast, hending⟩ := exists_lastPiece_of_temporary htoken hextension hfile
  have hlength : 3 ≤ path.lastPiece.length := by
    have hpositive := List.length_pos_iff.2 fun hnil => hname.1 (String.toList_eq_nil_iff.1 hnil)
    simp only [hlast, List.length_append, List.length_cons]
    omega
  have hne : String.ofList path.lastPiece ≠ "." ++ name ++ "-" ++ token ++ ".tmp" := by
    intro heq
    have hsame := congrArg String.toList heq
    rw [String.toList_ofList, hlast, temporary_toList] at hsame
    have hdot := s.isDotted
    rw [List.self_eq_append_right.1 ((List.append_cancel_left hsame).trans hending)] at hdot
    cases hdot
  obtain ⟨place, hplace⟩ := FileTree.leadsSomewhere_iff.1 h.leads
  obtain ⟨_, _, _, hway⟩ := FileTree.resolve_eq_ok_iff_way.1 hplace
  obtain ⟨location, hthere⟩ := hway.exists_of_mem (s.root.named_mem_walk_join h.isAbsolute hlength)
  rw [hu.at?_of_ne hne] at hthere
  refine htoken.unused _ _ hthere ?_
  rw [String.toList_ofList, hlast]
  exact List.infix_append _ _ _

/-- The same files describe the same paths when a temporary file is in the tree as when it is
not. -/
theorem describes_iff_of_temporary (hlinks : t.LinkFree) (hroot : t.resolve .node s.root = .ok base)
    (htoken : UnusedToken t token) (hextension : ¬ token.toList <:+: s.extension.toList)
    (hname : IsFileName name)
    (hnone : t.at? (folder ++ ["." ++ name ++ "-" ++ token ++ ".tmp"]) = none)
    (hu : u.Rewrites t (folder ++ ["." ++ name ++ "-" ++ token ++ ".tmp"]) content) :
    s.Describes u base names path ↔ s.Describes t base names path := by
  have hinfix : token.toList <:+: ("." ++ name ++ "-" ++ token ++ ".tmp").toList := by
    rw [String.toList_append, String.toList_append]
    exact List.infix_append _ _ _
  apply Iff.intro
  · intro h
    obtain ⟨file, hfile⟩ := h.isFile
    rw [hu.at?_concat] at hfile
    split at hfile
    · rename_i hplace
      obtain ⟨above, last, hnames⟩ := (List.eq_nil_or_concat names).resolve_left h.ne_nil
      rw [List.concat_eq_append] at hnames
      subst hnames
      rw [← List.append_assoc] at hplace
      obtain ⟨_, hlast⟩ := List.append_inj' hplace rfl
      cases (List.cons.inj hlast).1
      exact absurd h (not_describes_temporary htoken hextension hname hu)
    · have hthere : t.at? (base ++ names) ≠ none := hfile ▸ Option.some_ne_none _
      refine ⟨⟨file, hfile⟩, h.text, h.ne_empty, h.noSlash, hu.leadsSomewhere hlinks h.leads ?_⟩
      exact not_mem_walk_of_describes hroot htoken h hthere hinfix
  · intro h
    obtain ⟨file, hfile⟩ := h.isFile
    have hne : base ++ names ≠ folder ++ ["." ++ name ++ "-" ++ token ++ ".tmp"] := by
      intro heq
      rw [heq, hnone] at hfile
      cases hfile
    obtain ⟨place, hplace⟩ := FileTree.leadsSomewhere_iff.1 h.leads
    refine ⟨⟨file, ?_⟩, h.text, h.ne_empty, h.noSlash,
      FileTree.leadsSomewhere_iff.2 ⟨place, hu.resolve hnone hplace⟩⟩
    rw [hu.at?_concat, if_neg hne, hfile]

end Temporary

/-- A tree in which the temporary file of a side-car is left holds the same documents at the same
places. -/
theorem Holds.of_leftover (h : s.Holds t base places documents) (htoken : UnusedToken t token)
    {place : Place} (hplace : place ∈ places) (hleft : s.Leftover token place.path t u) :
    s.Holds u base places documents := by
  obtain ⟨above, name, _, hleads, htemporary⟩ := h.leadsToFile hplace
  obtain ⟨folder, content, hnone, hu⟩ := hleft
  rw [htemporary] at hnone hu
  have hname : IsFileName name := hleads.closed.1
  have hextension := (h.mem_iff.1 hplace).not_infix_extension htoken
  refine ⟨hu.linkFree h.linkFree, ⟨hu.resolve hnone h.walks.root, fun below hne hfolder => ?_⟩,
    fun order => ?_, h.distinct, h.documents.imp fun other d hholds => ?_⟩
  · obtain ⟨place, hplace⟩ :=
      FileTree.leadsSomewhere_iff.1 (h.walks.opens below hne (hu.at?_folder hfolder))
    exact FileTree.leadsSomewhere_iff.2 ⟨place, hu.resolve hnone hplace⟩
  · have hpaths : (s.places .byName t base).Pairwise fun a b => a.path.same b.path = false := by
      rw [h.placesOf]
      exact h.distinct
    rw [places_eq_of_describes hpaths (fun names path => describes_iff_of_temporary h.linkFree
      h.walks.root htoken hextension hname hnone hu) order, h.placesOf]
  · obtain ⟨text, hreads, htext⟩ := hholds
    have hat := FileTree.textAt?_eq_some_iff.1 hreads.text
    refine ⟨text, ⟨hreads.steps, FileTree.textAt?_eq_some_iff.2 ?_⟩, htext⟩
    rw [hu.at?_concat, if_neg, hat]
    intro heq
    rw [heq, hnone] at hat
    cases hat

end Store

end SidecarIndex

import SidecarIndex.Proofs.Store.Leftover

/-! # A file with a side-car

The smallest tree that has something to load: one file and its side-car, whatever the name of the
file is and whatever the side-car holds. -/

namespace SidecarIndex

/-! ### Names -/

theorem isFileName_sidecar {name : String} (h : IsFileName name) (hsize : name.utf8ByteSize ≤ 251) :
    IsFileName (name ++ ".mdf") := by
  obtain ⟨_, _, _, hslash, hzero, _⟩ := h
  have hne : ∀ other : String, other.length ≤ 3 → name ++ ".mdf" ≠ other := by
    intro other hlength heq
    rw [← heq, String.length_append] at hlength
    have hending : ".mdf".length = 4 := by decide
    omega
  refine ⟨hne _ (by decide), hne _ (by decide), hne _ (by decide), ?_, ?_, ?_⟩
  · rw [String.toList_append, List.mem_append]
    exact fun hmem => hmem.elim hslash (by decide)
  · rw [String.toList_append, List.mem_append]
    exact fun hmem => hmem.elim hzero (by decide)
  · rw [String.utf8ByteSize_append]
    have hending : ".mdf".utf8ByteSize = 4 := by decide
    omega

theorem ne_sidecar (name : String) : name ≠ name ++ ".mdf" := by
  intro heq
  have hlength := congrArg String.length heq
  rw [String.length_append] at hlength
  have hending : ".mdf".length = 4 := by decide
  omega

theorem eq_of_mem_replicate {n : Nat} {c : Char}
    (h : c ∈ (String.ofList (List.replicate n 'a')).toList) : c = 'a' := by
  rw [String.toList_ofList] at h
  exact List.eq_of_mem_replicate h

theorem utf8ByteSize_replicate (n : Nat) :
    (String.ofList (List.replicate n 'a')).utf8ByteSize = n := by
  induction n with
  | zero => rfl
  | succ n ih =>
    have hone : ('a').utf8Size = 1 := by decide
    rw [List.replicate_succ, String.ofList_cons, String.utf8ByteSize_append, ih,
      String.utf8ByteSize_singleton, hone, Nat.add_comm]

theorem isFileName_replicate {n : Nat} (hlow : 3 ≤ n) (hhigh : n ≤ 255) :
    IsFileName (String.ofList (List.replicate n 'a')) := by
  have hne : ∀ other : String, other.length ≤ 2 → String.ofList (List.replicate n 'a') ≠ other := by
    intro other hlength heq
    rw [← heq, String.length_ofList, List.length_replicate] at hlength
    omega
  refine ⟨hne _ (by decide), hne _ (by decide), hne _ (by decide), ?_, ?_, ?_⟩
  · exact fun hmem => absurd (eq_of_mem_replicate hmem) (by decide)
  · exact fun hmem => absurd (eq_of_mem_replicate hmem) (by decide)
  · rw [utf8ByteSize_replicate]
    exact hhigh

/-! ### Trees -/

namespace FileTree

/-- A tree of an empty file and its side-car, and nothing else. -/
structure IsNote (t : FileTree) (name text : String) : Prop where
  workingFolder : t.workingFolder = []
  at?_eq : ∀ location, location ≠ [] → t.at? location =
    if location = [name ++ ".mdf"] then some (.file (.text text))
    else if location = [name] then some (.file (.text "")) else none

theorem canPut_empty {name : String} (h : IsFileName name) : empty.CanPut [] name :=
  ⟨h, empty.at?_top, fun heq => nomatch heq⟩

theorem canPut_beside {folder : Location} {name other : String} {t : FileTree} {content : Content}
    (h : t.CanPut folder name) (hother : t.CanPut folder other) :
    (t.put folder name (.file content) h).CanPut folder other := by
  refine ⟨hother.1, ?_, ?_⟩
  · rw [at?_put, if_neg (by simp)]
    exact hother.2.1
  · rw [at?_put]
    split
    · exact fun heq => nomatch heq
    · exact hother.2.2

def ofNote (name text : String) (h : IsFileName name) (hsidecar : IsFileName (name ++ ".mdf")) :
    FileTree :=
  (empty.put [] name (.file (.text "")) (canPut_empty h)).put [] (name ++ ".mdf")
    (.file (.text text))
    (canPut_beside (canPut_empty h) (canPut_empty hsidecar))

theorem isNote_ofNote {name : String} (h : IsFileName name) (hsidecar : IsFileName (name ++ ".mdf"))
    (text : String) : (ofNote name text h hsidecar).IsNote name text := by
  refine ⟨rfl, fun location hne => ?_⟩
  have hempty : empty.at? location = none := by
    rw [at?, nodeAt?, if_neg hne]
    rfl
  rw [ofNote, at?_put, at?_put, hempty]
  rfl

variable {t : FileTree} {name text : String}

theorem IsNote.isFile (h : t.IsNote name text) {location : Location} (hne : location ≠ [])
    {node : Node} (hnode : t.at? location = some node) : ∃ content, node = .file content := by
  rw [h.at?_eq location hne] at hnode
  split at hnode
  · exact ⟨_, (Option.some.inj hnode).symm⟩
  · split at hnode
    · exact ⟨_, (Option.some.inj hnode).symm⟩
    · cases hnode

theorem IsNote.linkFree (h : t.IsNote name text) : t.LinkFree := by
  intro location target hlink
  have hne : location ≠ [] := by
    intro hnil
    rw [hnil, at?_top] at hlink
    cases hlink
  obtain ⟨content, heq⟩ := h.isFile hne hlink
  cases heq

theorem IsNote.at?_sidecar (h : t.IsNote name text) :
    t.at? [name ++ ".mdf"] = some (.file (.text text)) := by
  rw [h.at?_eq _ (List.cons_ne_nil _ _), if_pos rfl]

theorem IsNote.at?_described (h : t.IsNote name text) : t.at? [name] = some (.file (.text "")) := by
  rw [h.at?_eq _ (List.cons_ne_nil _ _), if_neg (by simpa using ne_sidecar name), if_pos rfl]

theorem isFileName_of_at?_singleton {node : Node} (h : t.at? [name] = some node) :
    IsFileName name := by
  have hthere : t.at? ([] ++ [name]) ≠ none := by
    rw [List.nil_append, h]
    exact Option.some_ne_none _
  exact isFileName_of_at? hthere name (List.mem_singleton.2 rfl)

theorem IsNote.eq_or_eq (h : t.IsNote name text) {location : Location} (hne : location ≠ [])
    {node : Node} (hnode : t.at? location = some node) :
    location = [name ++ ".mdf"] ∨ location = [name] := by
  rw [h.at?_eq _ hne] at hnode
  split at hnode
  · rename_i heq
    exact .inl heq
  · split at hnode
    · rename_i heq
      exact .inr heq
    · cases hnode

theorem IsNote.namesOfFiles_perm (h : t.IsNote name text) :
    (t.namesOfFiles []).Perm [[name], [name ++ ".mdf"]] := by
  refine (List.perm_ext_iff_of_nodup (t.nodup_namesOfFiles [])
    (by simpa using ne_sidecar name)).2 ?_
  intro names
  rw [mem_namesOfFiles_iff]
  apply Iff.intro
  · intro hmem
    obtain ⟨hne, content, hfile⟩ := hmem
    rcases h.eq_or_eq hne hfile with heq | heq
    · exact List.mem_cons_of_mem _ (List.mem_singleton.2 heq)
    · rw [show names = [name] from heq]
      exact List.mem_cons_self ..
  · intro hmem
    rcases List.mem_cons.1 hmem with rfl | hmem
    · exact ⟨List.cons_ne_nil _ _, _, h.at?_described⟩
    · rw [List.mem_singleton.1 hmem]
      exact ⟨List.cons_ne_nil _ _, _, h.at?_sidecar⟩

end FileTree

section Tokens

variable {t : FileTree} {name text token : String}

theorem FileTree.IsNote.name_eq (h : t.IsNote name text) {location : Location} {last : String}
    (hthere : t.at? (location ++ [last]) ≠ none) : last = name ++ ".mdf" ∨ last = name := by
  obtain ⟨node, hnode⟩ := Option.ne_none_iff_exists'.1 hthere
  have hlast : [last].getLast? = (location ++ [last]).getLast? := List.getLast?_concat.symm
  rcases h.eq_or_eq (by simp) hnode with heq | heq
  · rw [heq] at hlast
    exact .inl (Option.some.inj hlast)
  · rw [heq] at hlast
    exact .inr (Option.some.inj hlast)

theorem FileTree.IsNote.freshToken (h : t.IsNote name text) (hname : '-' ∉ name.toList)
    (htoken : '/' ∉ token.toList) : FreshToken t token := by
  refine ⟨htoken, fun location last hthere hsuffix => ?_⟩
  have hdash : '-' ∈ last.toList := by
    apply hsuffix.subset
    rw [String.toList_append, String.toList_append]
    simp
  rcases h.name_eq hthere with rfl | rfl
  · rw [String.toList_append, List.mem_append] at hdash
    exact hdash.elim hname (by decide)
  · exact hname hdash

theorem FileTree.IsNote.unusedToken (h : t.IsNote name text) (hname : '-' ∉ name.toList)
    (hslash : '/' ∉ token.toList) (hdot : '.' ∉ token.toList) (hdash : '-' ∈ token.toList) :
    UnusedToken t token := by
  refine ⟨hslash, hdot, fun location last hthere hinfix => ?_⟩
  have hdash := hinfix.subset hdash
  rcases h.name_eq hthere with rfl | rfl
  · rw [String.toList_append, List.mem_append] at hdash
    exact hdash.elim hname (by decide)
  · exact hname hdash

end Tokens

/-! ### Loading -/

namespace Store

variable {t : FileTree} {name text : String}

theorem join_dot {name : String} (h : IsFileName name) :
    (Path.mk ".").join ⟨name⟩ = ⟨"./" ++ name⟩ := by
  have hrelative : ¬ ((Path.mk name).isAbsolute = true ∨ (Path.mk ".").text = "") := by
    intro habs
    rcases habs with habs | hempty
    · rw [Path.isAbsolute, beq_iff_eq] at habs
      exact Path.slash_not_mem_name h (List.mem_of_head? habs)
    · exact absurd hempty (by decide)
  rw [Path.join, if_neg hrelative, if_neg (by decide)]
  rfl

theorem stepsOf_below_dot {name : String} (h : IsFileName name) :
    FileTree.stepsOf ((Path.mk ".").below [name]) = .ok ((Path.mk ".").below [name]).walk := by
  rw [Path.below, String.intercalate_singleton, join_dot h]
  obtain ⟨_, _, _, _, hzero, hsize⟩ := h
  rw [FileTree.stepsOf, if_neg, if_neg, if_neg]
  · rw [String.utf8ByteSize_append, FileTree.pathLimit]
    have hdot : "./".utf8ByteSize = 2 := by decide
    omega
  · rw [String.toList_append, List.mem_append]
    intro hmem
    rcases hmem with hmem | hmem
    · exact absurd hmem (by decide)
    · exact hzero hmem
  · intro hempty
    have hlength := congrArg String.length hempty
    have hdot : "./".length = 2 := by decide
    rw [String.length_append, String.length_empty] at hlength
    omega

theorem resolve_dot (hlinks : t.LinkFree) (hfolder : t.workingFolder = []) :
    t.resolve .node ⟨"."⟩ = .ok [] := by
  have hsteps : FileTree.stepsOf ⟨"."⟩ = .ok (Path.mk ".").walk := by decide +kernel
  have hwalk : (Path.mk ".").walk = [.current] := by decide +kernel
  refine (FileTree.resolve_eq_ok_iff hlinks).2 ⟨hsteps, ?_⟩
  rw [hwalk, hfolder]
  rfl

theorem leadsSomewhere_dot (hlinks : t.LinkFree) (hfolder : t.workingFolder = []) {node : Node}
    (hnode : t.at? [name] = some node) : t.leadsSomewhere ((Path.mk ".").join ⟨name⟩) = true := by
  have hthere : t.at? ([] ++ [name]) ≠ none := by
    rw [List.nil_append, hnode]
    exact Option.some_ne_none _
  have hresolve := FileTree.resolve_below hlinks (resolve_dot hlinks hfolder) hthere (by simp)
    (stepsOf_below_dot (FileTree.isFileName_of_at?_singleton hnode))
  rw [Path.below, String.intercalate_singleton] at hresolve
  rw [FileTree.leadsSomewhere, hresolve]
  rfl

/-- The side-car shows the place of the file, and the file itself shows none. -/
theorem place?_of_isNote {s : Store} (hs : s.root = ⟨"."⟩) (hext : s.extension = ".mdf")
    (h : t.IsNote name text) (hname : ¬ ".mdf".toList <:+ name.toList) :
    s.place? t [name] = none ∧
      s.place? t [name ++ ".mdf"] = some ⟨[name ++ ".mdf"], ⟨name⟩⟩ := by
  have hat := h.at?_described
  have hisName := FileTree.isFileName_of_at?_singleton hat
  refine ⟨?_, ?_⟩
  · rw [place?, sidecar?, described?_of_suffix String.intercalate_singleton (hext ▸ hname)]
    rfl
  · have hlast : name.toList.getLast? ≠ some '/' := fun heq =>
      Path.slash_not_mem_name hisName (List.mem_of_getLast? heq)
    have hfile : "/".intercalate [name ++ ".mdf"] = name ++ s.extension := by
      rw [String.intercalate_singleton, hext]
    have hleads := leadsSomewhere_dot h.linkFree h.workingFolder hat
    rw [place?, sidecar?, described?_append hfile hisName.1 hlast, hs]
    simp [hleads]

theorem walks_of_isNote {s : Store} (hs : s.root = ⟨"."⟩) (h : t.IsNote name text) :
    s.Walks t [] := by
  refine ⟨?_, fun below hne hfolder => ?_⟩
  · rw [hs]
    exact resolve_dot h.linkFree h.workingFolder
  · obtain ⟨content, heq⟩ := h.isFile hne hfolder
    cases heq

theorem places_of_isNote {s : Store} (hs : s.root = ⟨"."⟩) (hext : s.extension = ".mdf")
    (h : t.IsNote name text) (hname : ¬ ".mdf".toList <:+ name.toList) (order : WalkOrder) :
    s.places order t [] = [⟨[name ++ ".mdf"], ⟨name⟩⟩] := by
  obtain ⟨hdescribed, hplace⟩ := place?_of_isNote hs hext h hname
  have hperm := ((order.names_perm _).trans h.namesOfFiles_perm).filterMap (s.place? t)
  rw [List.filterMap_cons_none hdescribed, List.filterMap_cons_some hplace, List.filterMap_nil,
    List.perm_singleton] at hperm
  rw [places, hperm, List.mergeSort_singleton]

def here : Store := ofSettings ⟨"."⟩ {}

theorem extension_here : here.extension = ".mdf" := by decide +kernel

theorem holds_of_isNote (h : t.IsNote name text) (hname : ¬ ".mdf".toList <:+ name.toList)
    {d : Document} (hread : Document.ofText text = .ok d) :
    here.Holds t [] [⟨[name ++ ".mdf"], ⟨name⟩⟩] [d] := by
  have hisName := FileTree.isFileName_of_at?_singleton h.at?_sidecar
  refine ⟨h.linkFree, walks_of_isNote rfl h, places_of_isNote rfl extension_here h hname,
    List.pairwise_singleton _ _, .cons ⟨text, ⟨stepsOf_below_dot hisName, ?_⟩, hread⟩ .nil⟩
  exact FileTree.textAt?_eq_some_iff.2 h.at?_sidecar

theorem hasRoom_of_long_name {d : Document}
    (h : here.Holds t [] [⟨[name ++ ".mdf"], ⟨name⟩⟩] [d]) {token : String}
    (hlong : 245 < name.utf8ByteSize + token.utf8ByteSize) : here.hasRoom token ⟨name⟩ = false := by
  obtain ⟨folder, last, hnames, _, htemporary⟩ := h.leadsToFile (List.mem_singleton.2 rfl)
  have hsplit : [] ++ [name ++ ".mdf"] = folder ++ [last] := hnames
  obtain ⟨_, hlast⟩ := List.append_inj' hsplit rfl
  cases hlast
  have hextension : ".mdf".utf8ByteSize = 4 := by decide
  have htooLong : 249 < (name ++ ".mdf").utf8ByteSize + token.utf8ByteSize := by
    rw [String.utf8ByteSize_append]
    omega
  exact hasRoom_eq_false (htemporary token) htooLong

end Store

end SidecarIndex

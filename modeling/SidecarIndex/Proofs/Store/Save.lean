import SidecarIndex.Proofs.Document.RoundTrip
import SidecarIndex.Proofs.Store.Load
import SidecarIndex.Store.Save

/-! # Saving into a tree without links

Writing the side-car of a place leaves a tree in which this one side-car holds the document and
every other one holds what it held, or it fails and leaves at most the temporary file. The side-cars
of a view are written one after the other, up to the first that cannot be written. -/

namespace SidecarIndex

/-- A token for temporary files that no file of the tree has been made with. -/
structure FreshToken (t : FileTree) (token : String) : Prop where
  noSlash : '/' ∉ token.toList
  unused : ∀ location name, t.at? (location ++ [name]) ≠ none →
    ¬ ("-" ++ token ++ ".tmp").toList <:+ name.toList

theorem freshToken_iff {t : FileTree} {token : String} : FreshToken t token ↔
    '/' ∉ token.toList ∧ ∀ entry ∈ t.nodes.entries, ∀ name ∈ entry.1.getLast?,
      ¬ ("-" ++ token ++ ".tmp").toList <:+ name.toList := by
  rw [← FileTree.forall_names_iff]
  exact ⟨fun h => ⟨h.noSlash, h.unused⟩, fun h => ⟨h.1, h.2⟩⟩

instance (t : FileTree) (token : String) : Decidable (FreshToken t token) :=
  decidable_of_iff _ freshToken_iff.symm

theorem FreshToken.of_alike {t u : FileTree} {token : String} (h : FreshToken t token)
    (halike : t.Alike u) : FreshToken u token := by
  refine ⟨h.noSlash, fun location name hthere => h.unused location name fun hnone => hthere ?_⟩
  exact halike.at?_none.1 hnone

namespace Store

variable {s : Store} {t u : FileTree} {base : Location} {places : List Place}

/-! ### One side-car -/

theorem temporaryName_eq {target : Path} {front : List (List Char)} {name : String} (token : String)
    (hpieces : target.pieces = front ++ [name.toList]) (hname : IsFileName name) :
    temporaryName target token = "." ++ name ++ "-" ++ token ++ ".tmp" := by
  have hlast := Path.splitLast?_components hpieces (Path.ofPiece?_name hname)
  simp only [temporaryName, hlast, Option.getD_some]

theorem isTemporary_name {name token : String} (hname : '/' ∉ name.toList)
    (htoken : '/' ∉ token.toList) :
    FileTree.IsTemporary ("." ++ name ++ "-" ++ token ++ ".tmp") := by
  have htext : ("." ++ name ++ "-" ++ token ++ ".tmp").toList
      = '.' :: (name.toList ++ '-' :: (token.toList ++ ".tmp".toList)) := by
    simp
  constructor
  · rw [htext]
    simp [hname, htoken]
  · have hstep : Component.ofPiece? ("." ++ name ++ "-" ++ token ++ ".tmp").toList
        = some (.named (String.ofList ("." ++ name ++ "-" ++ token ++ ".tmp").toList)) := by
      rw [htext, Path.ofPiece?_of_length (by simp; omega)]
    rw [hstep, String.ofList_toList]

theorem suffix_temporaryName (name token : String) :
    ("-" ++ token ++ ".tmp").toList <:+ ("." ++ name ++ "-" ++ token ++ ".tmp").toList := by
  refine ⟨('.' :: name.toList), ?_⟩
  simp

/-- The side-car that describes a path is a file that its path leads to, and its temporary file has
the token in its name. -/
theorem Describes.leadsToFile (hlinks : t.LinkFree) (hroot : t.resolve .node s.root = .ok base)
    {names : List String} {path : Path} (h : s.Describes t base names path)
    (hsteps : FileTree.stepsOf (s.root.below names) = .ok (s.root.below names).walk) :
    ∃ folder name, names = folder ++ [name] ∧
      t.LeadsToFile (s.sidecarPath path) (base ++ folder) name ∧
      ∀ token, temporaryName (s.sidecarPath path) token = "." ++ name ++ "-" ++ token
        ++ ".tmp" := by
  obtain ⟨content, hfile⟩ := h.isFile
  obtain ⟨folder, name, rfl⟩ : ∃ folder name, names = folder ++ [name] :=
    ⟨_, _, (List.dropLast_concat_getLast h.ne_nil).symm⟩
  rw [h.sidecarPath]
  have hleads := FileTree.leadsToFile_below hlinks hroot hfile hsteps
  obtain ⟨first, rest, hpieces, _⟩ := hleads.above
  refine ⟨folder, name, rfl, hleads, fun token => ?_⟩
  rw [← List.cons_append] at hpieces
  exact temporaryName_eq token hpieces hleads.closed.1

def hasRoom (s : Store) (token : String) (path : Path) : Bool :=
  decide (FileTree.HasRoom (s.sidecarPath path) (temporaryName (s.sidecarPath path) token))

/-- There is no room for a temporary file whose name would take more than 255 bytes. -/
theorem hasRoom_eq_false {path : Path} {name token : String}
    (htemporary : temporaryName (s.sidecarPath path) token = "." ++ name ++ "-" ++ token ++ ".tmp")
    (hlong : 249 < name.utf8ByteSize + token.utf8ByteSize) : s.hasRoom token path = false := by
  rw [hasRoom, htemporary, decide_eq_false_iff_not]
  intro hroom
  obtain ⟨_, _, _, _, _, hsize⟩ := hroom.isFileName
  simp only [String.utf8ByteSize_append] at hsize
  have hdot : ".".utf8ByteSize = 1 := by decide
  have hdash : "-".utf8ByteSize = 1 := by decide
  have hending : ".tmp".utf8ByteSize = 4 := by decide
  omega

/-- A tree is another one with the temporary file for the side-car of a path left in it. -/
def Leftover (s : Store) (token : String) (path : Path) (t u : FileTree) : Prop :=
  ∃ folder content, t.at? (folder ++ [temporaryName (s.sidecarPath path) token]) = none ∧
    u.Rewrites t (folder ++ [temporaryName (s.sidecarPath path) token]) content

/-- What is under the last step of the path of a side-car is replaced by a document, and nothing
else changes, when there is room for a temporary file beside it and nothing is refused. Else at most
this file is left, and nothing at all has changed when nothing is refused. -/
theorem write_of_leadsToSpot {path : Path} {folder : Location} {name : String}
    (h : t.LeadsToSpot (s.sidecarPath path) folder name) {token : String}
    (htoken : FreshToken t token) (refused : Option FileTree.Refusal) (d : Document) :
    (s.hasRoom token path = true ∧ refused = none ∧
      ∃ u, s.write token refused t path d = (.ok (), u) ∧
      u.Rewrites t (folder ++ [name]) (.text (d.text ++ "\n"))) ∨
    (¬ (s.hasRoom token path = true ∧ refused = none) ∧
      ∃ e u, s.write token refused t path d = (.error e, u) ∧
        (u = t ∨ refused ≠ none ∧ s.Leftover token path t u)) := by
  obtain ⟨first, rest, _, hpieces, _⟩ := h.above
  have hname := h.canPut.1
  rw [← List.cons_append] at hpieces
  have htemporary := temporaryName_eq token hpieces hname
  have hfresh : t.at? (folder ++ ["." ++ name ++ "-" ++ token ++ ".tmp"]) = none := by
    by_contra hthere
    exact htoken.unused _ _ hthere (suffix_temporaryName name token)
  have hcases :=
    h.replace_cases (isTemporary_name (Path.slash_not_mem_name hname) htoken.noSlash) hfresh
    refused (.text (d.text ++ "\n"))
  simp only [write, hasRoom, Leftover, htemporary, decide_eq_true_iff]
  rcases hcases with ⟨hroom, hrefused, u, hreplace, hrewrites⟩ | ⟨hroom, fault, u, hreplace, hleft⟩
  · rw [hreplace]
    exact .inl ⟨hroom, hrefused, u, rfl, hrewrites⟩
  · rw [hreplace]
    refine .inr ⟨hroom, _, u, rfl, hleft.imp_right fun ⟨hrefused, left, hrewrites⟩ => ?_⟩
    exact ⟨hrefused, folder, left, hfresh, hrewrites⟩

/-- A tree without links, with the places of a store in it, whose paths are different, and the
documents that these hold. -/
structure Holds (s : Store) (t : FileTree) (base : Location) (places : List Place)
    (documents : List Document) : Prop where
  linkFree : t.LinkFree
  walks : s.Walks t base
  placesOf : ∀ order, s.places order t base = places
  distinct : places.Pairwise fun a b => a.path.same b.path = false
  documents : List.Forall₂ (s.HoldsAt t base) places documents

section Holds

variable {documents : List Document} {place : Place}

theorem Holds.mem_iff (h : s.Holds t base places documents) :
    place ∈ places ↔ s.Describes t base place.names place.path := by
  rw [← h.placesOf .byName, mem_places_iff]

theorem Holds.nodup (h : s.Holds t base places documents) : (places.map Place.names).Nodup := by
  rw [← h.placesOf .byName]
  exact nodup_places s .byName t base

theorem Holds.steps (h : s.Holds t base places documents) (hplace : place ∈ places) :
    FileTree.stepsOf (s.root.below place.names) = .ok (s.root.below place.names).walk := by
  obtain ⟨_, _, text, hreads, _⟩ := exists_of_forall₂_of_mem h.documents.flip hplace
  exact hreads.steps

theorem Holds.leadsToFile (h : s.Holds t base places documents) (hplace : place ∈ places) :
    ∃ folder name, place.names = folder ++ [name] ∧
      t.LeadsToFile (s.sidecarPath place.path) (base ++ folder) name ∧
      ∀ token, temporaryName (s.sidecarPath place.path) token = "." ++ name ++ "-" ++ token
        ++ ".tmp" :=
  (h.mem_iff.1 hplace).leadsToFile h.linkFree h.walks.root (h.steps hplace)

theorem Holds.isStorable (h : s.Holds t base places documents) :
    ∀ d ∈ documents, d.IsStorable ∧ d.IsRead := by
  intro d hd
  obtain ⟨_, _, text, _, htext⟩ := exists_of_forall₂_of_mem h.documents hd
  exact Document.isStorable_of_ofText htext

theorem Holds.of_rewrites (h : s.Holds t base places documents) {slot : Nat}
    (hslot : places[slot]? = some place) {d : Document}
    (hread : Document.ofText (d.text ++ "\n") = .ok d)
    (hrewrites : u.Rewrites t (base ++ place.names) (.text (d.text ++ "\n"))) :
    t.Alike u ∧ s.Holds u base places (documents.set slot d) := by
  have hplace := List.mem_of_getElem? hslot
  obtain ⟨content, hfile⟩ := (h.mem_iff.1 hplace).isFile
  have hlocation : base ++ place.names ≠ [] := FileTree.ne_nil_of_file hfile
  have halike := hrewrites.alike hfile
  refine ⟨halike, halike.linkFree h.linkFree, h.walks.of_alike h.linkFree halike, fun order => ?_,
    h.distinct, ?_⟩
  · rw [← places_alike h.linkFree halike, h.placesOf]
  · refine forall₂_set h.documents hslot ?_ ?_
    · refine ⟨d.text ++ "\n", ⟨h.steps hplace, FileTree.textAt?_eq_some_iff.2 ?_⟩, hread⟩
      rw [hrewrites.at?_eq hlocation, if_pos rfl]
    · intro other place' d' hother hplace' hholds
      obtain ⟨text, hreads, htext⟩ := hholds
      have hnames : base ++ place'.names ≠ base ++ place.names := by
        intro heq
        have hlength : slot < (places.map Place.names).length := by
          rw [List.length_map]
          exact (List.getElem?_eq_some_iff.1 hslot).1
        refine hother ((List.getElem?_inj hlength h.nodup).1 ?_).symm
        rw [List.getElem?_map, List.getElem?_map, hslot, hplace']
        exact congrArg some (List.append_cancel_left heq).symm
      refine ⟨text, ⟨hreads.steps, FileTree.textAt?_eq_some_iff.2 ?_⟩, htext⟩
      rw [hrewrites.at?_eq hlocation, if_neg hnames]
      exact FileTree.textAt?_eq_some_iff.1 hreads.text

theorem Holds.write_cases (h : s.Holds t base places documents) {slot : Nat}
    (hslot : places[slot]? = some place) {token : String} (htoken : FreshToken t token)
    (refused : Option FileTree.Refusal) {d : Document}
    (hread : Document.ofText (d.text ++ "\n") = .ok d) :
    (s.hasRoom token place.path = true ∧ refused = none ∧
      ∃ u, s.write token refused t place.path d = (.ok (), u) ∧
        t.Alike u ∧ s.Holds u base places (documents.set slot d) ∧
        u.Rewrites t (base ++ place.names) (.text (d.text ++ "\n"))) ∨
    (¬ (s.hasRoom token place.path = true ∧ refused = none) ∧
      ∃ e u, s.write token refused t place.path d = (.error e, u) ∧
        (u = t ∨ refused ≠ none ∧ s.Leftover token place.path t u)) := by
  obtain ⟨folder, name, hnames, hleads, _⟩ := h.leadsToFile (List.mem_of_getElem? hslot)
  rcases write_of_leadsToSpot hleads.leadsToSpot htoken refused d with
    ⟨hroom, hrefused, u, hwrite, hrewrites⟩ | hfails
  · rw [List.append_assoc, ← hnames] at hrewrites
    obtain ⟨halike, hholds⟩ := h.of_rewrites hslot hread hrewrites
    exact .inl ⟨hroom, hrefused, u, hwrite, halike, hholds, hrewrites⟩
  · exact .inr hfails

end Holds

/-! ### The side-cars of a view -/

variable {token : String} {refused : Path → Option FileTree.Refusal} {path : Path} {d : Document}

theorem writeAll_of_ok (h : s.write token (refused path) t path d = (.ok (), u))
    (rest : List (Path × Document)) :
    s.writeAll token refused t ((path, d) :: rest) = s.writeAll token refused u rest := by
  rw [writeAll_cons, h]

theorem writeAll_of_error {e : Error} (h : s.write token (refused path) t path d = (.error e, u))
    (rest : List (Path × Document)) :
    s.writeAll token refused t ((path, d) :: rest) = (.error e, u) := by
  rw [writeAll_cons, h]

/-- Whether the side-car of a path can be written: there is room for the temporary file, and the
system refuses nothing. -/
def canWrite (s : Store) (token : String) (refused : Path → Option FileTree.Refusal) (path : Path) :
    Bool :=
  s.hasRoom token path && (refused path).isNone

theorem canWrite_iff : s.canWrite token refused path = true ↔
    s.hasRoom token path = true ∧ refused path = none := by
  rw [canWrite, Bool.and_eq_true, Option.isNone_iff_eq_none]

/-- The entries of a view that a save writes: those before the first that cannot be written. -/
def written (s : Store) (token : String) (refused : Path → Option FileTree.Refusal) (view : View) :
    View :=
  view.takeWhile fun entry => s.canWrite token refused entry.path

end Store

/-- Some documents once the side-cars of a view have been written: its slots have the catalog's
documents. -/
def Catalog.keep (c : Catalog) (documents : List Document) (view : View) : List Document :=
  view.foldl (fun documents entry => documents.set entry.slot (c.document entry.slot)) documents

theorem Catalog.mem_keep {c : Catalog} {documents : List Document} {view : View} {d : Document}
    (h : d ∈ c.keep documents view) : d ∈ documents ∨
    ∃ entry ∈ view, d = c.document entry.slot := by
  induction view generalizing documents with
  | nil => exact .inl h
  | cons entry rest ih =>
    rcases ih h with hset | ⟨other, hother, heq⟩
    · rcases List.mem_or_eq_of_mem_set hset with hold | heq
      · exact .inl hold
      · exact .inr ⟨entry, List.mem_cons_self .., heq⟩
    · exact .inr ⟨other, List.mem_cons_of_mem _ hother, heq⟩

namespace Store

variable {s : Store} {t : FileTree} {base : Location} {places : List Place}

/-- Every entry of a view has the path of the place that its slot stands for. -/
def Shows (places : List Place) (view : View) : Prop :=
  ∀ entry ∈ view, ∃ place, places[entry.slot]? = some place ∧ place.path = entry.path

/-- Saving a view puts the documents of the entries that are written into their places, and succeeds
when these are all. Else the temporary file of an entry of the view may be left. -/
theorem Holds.save {documents : List Document} (h : s.Holds t base places documents)
    {token : String} (htoken : FreshToken t token) (refused : Path → Option FileTree.Refusal)
    {c : Catalog} {view : View} (hview : Shows places view) (hread : ∀ entry ∈ view,
      Document.ofText ((c.document entry.slot).text ++ "\n") = .ok (c.document entry.slot)) :
    ((s.save token refused t c view).1 = .ok () ↔ s.written token refused view = view) ∧
    ∃ u, t.Alike u ∧ s.Holds u base places (c.keep documents (s.written token refused view)) ∧
      ((s.save token refused t c view).2 = u ∨
        ∃ entry ∈ view, s.Leftover token entry.path u (s.save token refused t c view).2) := by
  unfold Store.save Catalog.contents Store.written
  induction view generalizing t documents with
  | nil => exact ⟨⟨fun _ => rfl, fun _ => rfl⟩, t, .refl t, h, .inl rfl⟩
  | cons entry rest ih =>
    obtain ⟨place, hslot, hpath⟩ := hview entry (List.mem_cons_self ..)
    rw [List.map_cons, ← hpath]
    rcases h.write_cases hslot htoken (refused place.path)
      (hread entry (List.mem_cons_self ..)) with
      ⟨hroom, hnone, u, hwrite, halike, hholds, _⟩ | ⟨hcannot, e, u, hwrite, hleft⟩
    · obtain ⟨houtcome, v, hrest, hdocuments, hleft⟩ := ih hholds (htoken.of_alike halike)
        (fun other hother => hview other (List.mem_cons_of_mem _ hother))
        (fun other hother => hread other (List.mem_cons_of_mem _ hother))
      rw [writeAll_of_ok hwrite, List.takeWhile_cons, ← hpath,
        if_pos (canWrite_iff.2 ⟨hroom, hnone⟩)]
      refine ⟨houtcome.trans (List.cons_inj_right _).symm, v, halike.trans hrest, hdocuments,
        hleft.imp_right ?_⟩
      rintro ⟨other, hother, hfile⟩
      exact ⟨other, List.mem_cons_of_mem _ hother, hfile⟩
    · rw [writeAll_of_error hwrite, List.takeWhile_cons, ← hpath,
        if_neg fun hcan => hcannot (canWrite_iff.1 hcan)]
      refine ⟨⟨fun herror => (nomatch herror), fun hnil => (nomatch hnil)⟩, t, .refl t, h, ?_⟩
      rcases hleft with rfl | ⟨_, hfile⟩
      · exact .inl rfl
      · exact .inr ⟨entry, List.mem_cons_self .., hpath ▸ hfile⟩

end Store

end SidecarIndex

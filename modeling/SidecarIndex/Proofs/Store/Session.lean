import SidecarIndex.Proofs.Index.Session
import SidecarIndex.Proofs.Store.Note

/-! # Sessions over a tree

A session over a tree sets attributes and saves views, in any order. Each save writes the side-cars
of its view up to the first that cannot be written. Whatever is called, the tree can be loaded
again, and what is loaded is, document by document, what was written last. -/

namespace SidecarIndex

namespace Store

variable {s : Store} {t : FileTree} {base : Location} {places : List Place}

/-! ### Loading again -/

def viewOf (places : List Place) : View :=
  Catalog.entriesFrom 0 (places.map fun place => (place.path, Document.empty))

theorem shows_viewOf (places : List Place) : Shows places (viewOf places) := by
  intro entry hentry
  obtain ⟨i, hslot, hpath⟩ := Catalog.getElem?_of_mem_entriesFrom hentry
  rw [List.map_map, List.getElem?_map] at hpath
  obtain ⟨place, hplace, hpath⟩ := Option.map_eq_some_iff.1 hpath
  refine ⟨place, ?_, hpath⟩
  rw [hslot, Nat.zero_add]
  exact hplace

theorem entriesFrom_eq_viewOf {entries : List (Path × Document)}
    (h : List.Forall₂ (fun place entry => entry.1 = place.path ∧ s.HoldsAt t base place entry.2)
      places entries) : Catalog.entriesFrom 0 entries = viewOf places := by
  apply Catalog.entriesFrom_congr
  rw [List.map_map]
  induction h with
  | nil => rfl
  | cons hentry _ ih =>
    rw [List.map_cons, List.map_cons, ih, hentry.1]
    rfl

theorem forall₂_zip_iff {documents : List Document} :
    List.Forall₂ (s.HoldsAt t base) places documents ↔
      ∃ entries, entries.map Prod.snd = documents ∧
        List.Forall₂ (fun place entry => entry.1 = place.path ∧ s.HoldsAt t base place entry.2)
          places entries := by
  apply Iff.intro
  · intro h
    induction h with
    | nil => exact ⟨[], rfl, .nil⟩
    | @cons place d _ _ hplace _ ih =>
      obtain ⟨entries, rfl, hrest⟩ := ih
      exact ⟨(place.path, d) :: entries, rfl, .cons ⟨rfl, hplace⟩ hrest⟩
  · intro h
    obtain ⟨entries, rfl, hentries⟩ := h
    rw [List.forall₂_map_right_iff]
    exact hentries.imp fun _ _ hentry => hentry.2

theorem map_path_viewOf (places : List Place) :
    (viewOf places).map Entry.path = places.map Place.path := by
  rw [viewOf, Catalog.map_path_entriesFrom, List.map_map]
  rfl

theorem forall_viewOf_iff {places : List Place} {P : Path → Prop} :
    (∀ entry ∈ viewOf places, P entry.path) ↔ ∀ place ∈ places, P place.path := by
  rw [← List.forall_mem_map (P := P), map_path_viewOf, List.forall_mem_map]

theorem pairwise_viewOf_iff {places : List Place} :
    ((viewOf places).Pairwise fun a b => a.path.same b.path = false) ↔
      places.Pairwise fun a b => a.path.same b.path = false := by
  rw [← List.pairwise_map (f := Entry.path) (R := fun p q => p.same q = false), map_path_viewOf,
    List.pairwise_map]

theorem exists_sources_of_load {order : WalkOrder} {c : Catalog} {view : View}
    (h : s.load order t = .ok (c, view)) : ∃ sources, s.scan order t = .ok sources ∧
      Catalog.ofSources sources = .ok (c, view) ∧ view.map Entry.path = sources.map Prod.fst := by
  obtain ⟨sources, hscan, hsources⟩ := load_eq_ok_iff_ofSources.1 h
  obtain ⟨entries, hentries, hbuild⟩ := bind_eq_ok_iff.1 hsources
  obtain ⟨_, _, rfl⟩ := Catalog.build_eq_ok_iff.1 hbuild
  refine ⟨sources, hscan, hsources, ?_⟩
  rw [Catalog.map_path_entriesFrom, ← List.forall₂_eq_eq_eq, List.forall₂_map_left_iff,
    List.forall₂_map_right_iff]
  exact (Catalog.readSources_eq_ok_iff.1 hentries).flip.imp fun _ _ hentry => hentry.1.symm

/-- What a tree without links is loaded into: the documents that its places hold. -/
theorem exists_places_of_load (hlinks : t.LinkFree) {order : WalkOrder} {c : Catalog} {view : View}
    (h : s.load order t = .ok (c, view)) : ∃ base, s.Walks t base ∧
      view = viewOf (s.places order t base) ∧
      List.Forall₂ (s.HoldsAt t base) (s.places order t base) c.documents ∧ c.Sound ∧
      ∀ entry ∈ view, entry.slot < c.documents.length := by
  obtain ⟨base, hwalks⟩ := walks_of_load hlinks h
  obtain ⟨entries, hentries, hbuild⟩ := (load_eq_ok_iff hlinks hwalks).1 h
  obtain ⟨_, hdocuments, hview⟩ := Catalog.build_eq_ok_iff.1 hbuild
  have hstorable : ∀ entry ∈ entries, entry.2.IsStorable := by
    intro entry hentry
    obtain ⟨_, _, _, text, _, htext⟩ := exists_of_forall₂_of_mem hentries hentry
    exact (Document.isStorable_of_ofText htext).1
  refine ⟨base, hwalks, ?_, forall₂_zip_iff.2 ⟨entries, hdocuments.symm, hentries⟩,
    Catalog.sound_of_build hstorable hbuild, Catalog.slot_lt_of_build hbuild⟩
  rw [hview, entriesFrom_eq_viewOf hentries]

/-- When the paths that are loaded are different, their places do not depend on the order of
folders. -/
theorem holds_of_load (hlinks : t.LinkFree) {order : WalkOrder} {c : Catalog} {view : View}
    (h : s.load order t = .ok (c, view))
    (hpaths : view.Pairwise fun a b => a.path.same b.path = false) :
    ∃ base places, s.Holds t base places c.documents ∧ view = viewOf places ∧ c.Sound ∧
      ∀ entry ∈ view, entry.slot < c.documents.length := by
  obtain ⟨base, hwalks, rfl, hdocuments, hsound, hslots⟩ := exists_places_of_load hlinks h
  have hdistinct := pairwise_viewOf_iff.1 hpaths
  have horder := places_eq_of_describes hdistinct fun _ _ => Iff.rfl
  exact ⟨base, _, ⟨hlinks, hwalks, horder, hdistinct, hdocuments⟩, rfl, hsound, hslots⟩

/-- A tree whose places hold documents with a common registry can be loaded, in whatever order its
folders are listed. -/
theorem Holds.load {documents : List Document} (h : s.Holds t base places documents) {r : Registry}
    (hrecorded : ∀ d ∈ documents, r.RecordsAll d) (order : WalkOrder) :
    ∃ c, s.load order t = .ok (c, viewOf places) ∧ c.documents = documents := by
  obtain ⟨entries, hdocuments, hentries⟩ := forall₂_zip_iff.1 h.documents
  have hall : ∀ entry ∈ entries, r.RecordsAll entry.2 := by
    intro entry hentry
    apply hrecorded _
    rw [← hdocuments]
    exact List.mem_map_of_mem hentry
  obtain ⟨registry, hregistry⟩ := Registry.ofEntries_eq_ok_of_recordsAll hall
  refine ⟨⟨documents, registry⟩, ?_, rfl⟩
  refine (load_eq_ok_iff h.linkFree h.walks).2 ⟨entries, h.placesOf order ▸ hentries, ?_⟩
  exact Catalog.build_eq_ok_iff.2 ⟨hregistry, hdocuments.symm,
    (entriesFrom_eq_viewOf hentries).symm⟩

end Store

/-! ### Calls -/

/-- A session over a tree: besides the tree, what each side-car in it was last written from. -/
structure StoreSession where
  session : Session
  tree : FileTree
  saved : List Document

/-- A call on the index, or the saving of one of its views, where the system may refuse something
for some of its paths. -/
inductive StoreCall where
  | index (call : Call)
  | save (view : Nat) (token : String) (refused : Path → Option FileTree.Refusal)

/-- Calls that may be made over a tree: they set values that some text denotes, and save with tokens
for temporary files that are not in use. -/
def StoreCall.Allowed (t : FileTree) : StoreCall → Prop
  | .index call => call.IsRead
  | .save _ token _ => UnusedToken t token

namespace StoreSession

def start (t : FileTree) (c : Catalog) (view : View) : StoreSession := ⟨⟨c, [view]⟩, t, c.documents⟩

/-- What a call leaves: a save writes some of the entries of its view. -/
def step (store : Store) (s : StoreSession) : StoreCall → StoreSession
  | .index call => { s with session := s.session.step call }
  | .save i token refused =>
    match s.session.views[i]? with
    | some view => { s with
        tree := (store.save token refused s.tree s.session.catalog view).2
        saved := s.session.catalog.keep s.saved (store.written token refused view) }
    | none => s

def run (store : Store) (s : StoreSession) (calls : List StoreCall) : StoreSession :=
  calls.foldl (step store) s

/-- Each call of a run may be made over the tree that the calls before it have left. -/
def Allows (store : Store) : StoreSession → List StoreCall → Prop
  | _, [] => True
  | s, call :: rest => call.Allowed s.tree ∧ Allows store (s.step store call) rest

variable {store : Store} {order : WalkOrder} {t : FileTree} {base : Location} {places : List Place}

/-- The session is sound, its views show places of the tree, and these hold the documents that were
saved last, which fit the registry of the session. -/
structure Sound (store : Store) (base : Location) (places : List Place) (s : StoreSession) :
    Prop where
  session : s.session.Sound
  isRead : ∀ d ∈ s.session.catalog.documents, d.IsRead
  shows : ∀ view ∈ s.session.views, Store.Shows places view
  holds : store.Holds s.tree base places s.saved
  recorded : ∀ d ∈ s.saved, s.session.registry.RecordsAll d

theorem sound_start (hlinks : t.LinkFree) {c : Catalog} {view : View}
    (h : store.load order t = .ok (c, view))
    (hpaths : view.Pairwise fun a b => a.path.same b.path = false) :
    ∃ base places, view = Store.viewOf places ∧ (start t c view).Sound store base places := by
  obtain ⟨base, places, hholds, hview, hsound, hslots⟩ := Store.holds_of_load hlinks h hpaths
  refine ⟨base, places, hview, ⟨hsound, ?_⟩, fun d hd => (hholds.isStorable d hd).2, ?_, hholds,
    hsound.recorded⟩
  · intro other hother
    rw [List.mem_singleton.1 hother]
    exact hslots
  · intro other hother
    rw [List.mem_singleton.1 hother, hview]
    exact Store.shows_viewOf places

/-- What a call on the index leaves: documents of values that some text denotes, and views of the
same places. -/
theorem sound_index {s : StoreSession} (hs : s.Sound store base places) {call : Call}
    (hcall : call.IsRead) : (s.step store (.index call)).Sound store base places := by
  obtain ⟨hsound, hext⟩ := Session.sound_step hs.session call
  refine ⟨hsound, Session.isRead_step hs.isRead hcall, ?_, hs.holds,
    fun d hd => (hs.recorded d hd).of_extends hext⟩
  show ∀ view ∈ (s.session.step call).views, Store.Shows places view
  rcases Session.step_cases s.session call with ⟨view, hview, _, found, hfound, heq⟩ |
    ⟨_, _, _, _, _, _, _, _, _, heq⟩ | heq
  · rw [heq]
    intro other hother
    rcases List.mem_append.1 hother with hother | hother
    · exact hs.shows other hother
    · rw [List.mem_singleton.1 hother]
      exact fun entry hentry =>
        hs.shows view hview entry (Catalog.subset_of_filter hfound entry hentry)
  · rw [heq]
    exact hs.shows
  · rw [heq]
    exact hs.shows

/-- What a save leaves, and that it succeeds when it writes all entries of its view. -/
theorem sound_save {s : StoreSession} (hs : s.Sound store base places) {i : Nat} {view : View}
    (hview : s.session.views[i]? = some view) {token : String} (htoken : UnusedToken s.tree token)
    (refused : Path → Option FileTree.Refusal) :
    (s.step store (.save i token refused)).Sound store base places ∧
      ((store.save token refused s.tree s.session.catalog view).1 = .ok () ↔
        store.written token refused view = view) := by
  have hmem := List.mem_of_getElem? hview
  have hshows := hs.shows view hmem
  have hdocument :
      ∀ entry ∈ view, s.session.catalog.document entry.slot ∈ s.session.catalog.documents :=
    fun entry hentry => Catalog.document_mem (hs.session.slots view hmem entry hentry)
  have hread : ∀ entry ∈ view, Document.ofText
      ((s.session.catalog.document entry.slot).text ++ "\n")
      = .ok (s.session.catalog.document entry.slot) := by
    intro entry hentry
    have hd := hdocument entry hentry
    exact Document.ofText_text_append (hs.session.catalog.storable _ hd) (hs.isRead _ hd)
      fun _ => Document.isSpace_lineEnd
  obtain ⟨houtcome, u, halike, hholds, htree⟩ :=
    hs.holds.save htoken.freshToken refused hshows hread
  refine ⟨?_, houtcome⟩
  simp only [step, hview]
  refine ⟨hs.session, hs.isRead, hs.shows, ?_, ?_⟩
  · rcases htree with hsame | ⟨entry, hentry, hleft⟩
    · rw [hsame]
      exact hholds
    · obtain ⟨place, hslot, hpath⟩ := hshows entry hentry
      rw [← hpath] at hleft
      exact hholds.of_leftover (htoken.of_alike halike) (List.mem_of_getElem? hslot) hleft
  · intro d hd
    rcases Catalog.mem_keep hd with hold | ⟨entry, hentry, rfl⟩
    · exact hs.recorded d hold
    · exact hs.session.catalog.recorded _ (hdocument entry ((List.takeWhile_sublist _).mem hentry))

theorem sound_step {s : StoreSession} (hs : s.Sound store base places) {call : StoreCall}
    (hcall : call.Allowed s.tree) : (s.step store call).Sound store base places := by
  cases call with
  | index call => exact sound_index hs hcall
  | save i token refused =>
    cases hview : s.session.views[i]? with
    | some view => exact (sound_save hs hview hcall refused).1
    | none =>
      have hstay : s.step store (.save i token refused) = s := by
        simp only [step, hview]
      rw [hstay]
      exact hs

theorem sound_run {s : StoreSession} (hs : s.Sound store base places) {calls : List StoreCall}
    (hcalls : s.Allows store calls) : (s.run store calls).Sound store base places := by
  induction calls generalizing s with
  | nil => exact hs
  | cons call rest ih => exact ih (sound_step hs hcalls.1) hcalls.2

/-- After any calls the tree can be loaded again, in whatever order its folders are listed: into the
same view, and in each slot the document that its side-car was last written from, or first loaded
from. A save writes the entries of its view before the first that cannot be written, as there is no
room for its temporary file or the system refuses something, and succeeds when it writes all of
them. The paths that were loaded have to be different, or their order would depend on that of the
folders. -/
theorem load_of_run (hlinks : t.LinkFree) {c : Catalog} {view : View}
    (hload : store.load order t = .ok (c, view))
    (hpaths : view.Pairwise fun a b => a.path.same b.path = false) (calls : List StoreCall)
    (hcalls : (start t c view).Allows store calls) :
    (∀ other, ∃ loaded, store.load other ((start t c view).run store calls).tree
      = .ok (loaded, view) ∧ loaded.documents = ((start t c view).run store calls).saved) ∧
    ∀ shown ∈ ((start t c view).run store calls).session.views, ∀ token refused,
      UnusedToken ((start t c view).run store calls).tree token →
      ((store.save token refused ((start t c view).run store calls).tree
        ((start t c view).run store calls).session.catalog shown).1 = .ok () ↔
        ∀ entry ∈ shown, store.hasRoom token entry.path = true ∧ refused entry.path = none) := by
  obtain ⟨base, places, rfl, hstart⟩ := sound_start hlinks hload hpaths
  have hrun := sound_run hstart hcalls
  refine ⟨hrun.holds.load hrun.recorded, ?_⟩
  intro shown hshown token refused htoken
  obtain ⟨i, hi⟩ := List.getElem?_of_mem hshown
  rw [(sound_save hrun hi htoken refused).2, Store.written, List.takeWhile_eq_self_iff]
  simp only [Store.canWrite_iff]

/-- A filtered view is saved after one edit and before another one, which is saved to no effect as
the system does not rename the temporary file: the first edit is loaded again. -/
theorem load_of_filtered_save : ∃ t c view,
    t = FileTree.ofNote "a" "\x7b\"k\": [\"x\"]\x7d" (by decide +kernel) (by decide +kernel) ∧
    t.LinkFree ∧ Store.here.load .byName t = .ok (c, view) ∧
    (view.Pairwise fun a b => a.path.same b.path = false) ∧
    (start t c view).Allows Store.here [.index (.set 0 ⟨"a"⟩ "k" [.text "y"]),
      .index (.filter 0 "k=y"), .save 1 "f00d" fun _ => none, .index (.set 0 ⟨"a"⟩ "k" [.text "z"]),
      .save 0 "cafe" fun _ => some (.rename "not permitted")] ∧
    ∀ other, ∃ loaded, Store.here.load other ((start t c view).run Store.here
        [.index (.set 0 ⟨"a"⟩ "k" [.text "y"]), .index (.filter 0 "k=y"),
          .save 1 "f00d" fun _ => none, .index (.set 0 ⟨"a"⟩ "k" [.text "z"]),
          .save 0 "cafe" fun _ => some (.rename "not permitted")]).tree = .ok (loaded, view) ∧
      loaded.documents = [.ofList [("k", [.text "y"])]] := by
  have hload : Store.here.load .byName
      (FileTree.ofNote "a" "\x7b\"k\": [\"x\"]\x7d" (by decide +kernel) (by decide +kernel))
      = .ok (⟨[.ofList [("k", [.text "x"])]], ⟨.ofList [("k", some .text)]⟩⟩, [⟨⟨"a"⟩, 0⟩]) := by
    decide +kernel
  have hlinks : (FileTree.ofNote "a" "\x7b\"k\": [\"x\"]\x7d" (by decide +kernel)
      (by decide +kernel)).LinkFree := by decide +kernel
  have hallows : (start (FileTree.ofNote "a" "\x7b\"k\": [\"x\"]\x7d" (by decide +kernel)
      (by decide +kernel)) ⟨[.ofList [("k", [.text "x"])]], ⟨.ofList [("k", some .text)]⟩⟩
      [⟨⟨"a"⟩, 0⟩]).Allows Store.here [.index (.set 0 ⟨"a"⟩ "k" [.text "y"]),
        .index (.filter 0 "k=y"), .save 1 "f00d" fun _ =>
        none, .index (.set 0 ⟨"a"⟩ "k" [.text "z"]),
        .save 0 "cafe" fun _ => some (.rename "not permitted")] := by
    refine ⟨by simp [StoreCall.Allowed, Call.IsRead, Value.IsRead], trivial, ?_,
      by simp [StoreCall.Allowed, Call.IsRead, Value.IsRead], ?_, trivial⟩
    · show UnusedToken _ "f00d"
      decide +kernel
    · show UnusedToken _ "cafe"
      decide +kernel
  have hpaths : ([⟨⟨"a"⟩, 0⟩] : View).Pairwise fun a b => a.path.same b.path = false :=
    List.pairwise_singleton _ _
  refine ⟨_, _, _, rfl, hlinks, hload, hpaths, hallows, fun other => ?_⟩
  obtain ⟨loaded, hreload, hdocuments⟩ := (load_of_run hlinks hload hpaths _ hallows).1 other
  exact ⟨loaded, hreload, hdocuments.trans (by decide +kernel)⟩

/-! ### Names without room -/

theorem load_and_set_of_isNote {t : FileTree} {name : String}
    (h : t.IsNote name "\x7b\"k\": [\"x\"]\x7d") (hending : ¬ ".mdf".toList <:+ name.toList) :
    ∃ c changed, Store.here.load .byName t = .ok (c, [⟨⟨name⟩, 0⟩]) ∧
      Store.here.Holds t [] [⟨[name ++ ".mdf"], ⟨name⟩⟩] c.documents ∧
      c.documents = [.ofList [("k", [.text "x"])]] ∧
      c.setAttribute [⟨⟨name⟩, 0⟩] ⟨name⟩ "k" [.text "y"] = .ok changed ∧
      changed.documents = [.ofList [("k", [.text "y"])]] := by
  have hread : Document.ofText "\x7b\"k\": [\"x\"]\x7d" = .ok (.ofList [("k", [.text "x"])]) := by
    decide +kernel
  have hentries : (Document.ofList [("k", [.text "x"])]).entries = [("k", [.text "x"])] := by
    decide +kernel
  have hchanged : (Document.ofList [("k", [.text "x"])]).set "k" [.text "y"]
      = .ofList [("k", [.text "y"])] := by
    decide +kernel
  have hholds := Store.holds_of_isNote h hending hread
  have hview : Store.viewOf [⟨[name ++ ".mdf"], ⟨name⟩⟩] = [⟨⟨name⟩, 0⟩] := rfl
  have hrecorded : ∀ d ∈ [Document.ofList [("k", [.text "x"])]],
      (Registry.mk (.ofList [("k", some .text)])).RecordsAll d := by
    intro d hd entry hentry
    rw [List.mem_singleton.1 hd, hentries] at hentry
    rw [List.mem_singleton.1 hentry]
    exact ⟨by decide +kernel, by decide +kernel⟩
  obtain ⟨c, hload, hdocuments⟩ := hholds.load hrecorded .byName
  rw [hview] at hload
  -- The attribute can be set, as the registry has its variant.
  obtain ⟨_, _, _, _, hsound, _⟩ := Store.exists_places_of_load h.linkFree hload
  have hvariant : c.registry.variant? "k" = some .text := by
    have hrecords := hsound.recorded (.ofList [("k", [.text "x"])]) (by simp [hdocuments])
      ("k", [.text "x"]) (by simp [hentries])
    exact hrecords.variant (.text "x") (List.mem_cons_self ..)
  refine ⟨c, _, hload, hdocuments ▸ hholds, hdocuments,
    Catalog.setAttribute_eq_ok_iff.2 ⟨⟨⟨name⟩, 0⟩, ?_, ?_, ?_, rfl⟩, ?_⟩
  · simp [View.entry?, Path.same]
  · exact ⟨by decide, ⟨.text, by simp [AllOf, Value.variant]⟩, by decide⟩
  · intro registered hregistered variant hv
    rw [hvariant] at hregistered
    cases hregistered
    cases hv
    rfl
  · simp [Catalog.setAt, hdocuments, hchanged]

/-- Where the name of the side-car leaves no room for a temporary file, what is set and saved is not
what is loaded again. -/
theorem reload_of_long_name {t : FileTree} {name : String}
    (h : t.IsNote name "\x7b\"k\": [\"x\"]\x7d") (hending : ¬ ".mdf".toList <:+ name.toList)
    {token : String} (htoken : UnusedToken t token)
    (hlong : 245 < name.utf8ByteSize + token.utf8ByteSize) :
    ∃ c loaded, Store.here.load .byName t = .ok (c, [⟨⟨name⟩, 0⟩]) ∧
      (start t c [⟨⟨name⟩, 0⟩]).Allows Store.here
        [.index (.set 0 ⟨name⟩ "k" [.text "y"]), .save 0 token fun _ => none] ∧
      Store.here.load .byName ((start t c [⟨⟨name⟩, 0⟩]).run Store.here
        [.index (.set 0 ⟨name⟩ "k" [.text "y"]), .save 0 token fun _ => none]).tree
        = .ok (loaded, [⟨⟨name⟩, 0⟩]) ∧
      loaded.documents = [.ofList [("k", [.text "x"])]] ∧
      ((start t c [⟨⟨name⟩, 0⟩]).run Store.here
        [.index (.set 0 ⟨name⟩ "k" [.text "y"])]).session.catalog.documents
        = [.ofList [("k", [.text "y"])]] := by
  obtain ⟨c, changed, hload, hholds, hdocuments, hset, hchanged⟩ := load_and_set_of_isNote h hending
  have hroom : Store.here.hasRoom token ⟨name⟩ = false := by
    rw [hdocuments] at hholds
    exact Store.hasRoom_of_long_name hholds hlong
  have hallows : (start t c [⟨⟨name⟩, 0⟩]).Allows Store.here
      [.index (.set 0 ⟨name⟩ "k" [.text "y"]), .save 0 token fun _ => none] :=
    ⟨by simp [StoreCall.Allowed, Call.IsRead, Value.IsRead], htoken, trivial⟩
  have hstep : (start t c [⟨⟨name⟩, 0⟩]).step Store.here (.index (.set 0 ⟨name⟩ "k" [.text "y"]))
      = ⟨⟨changed, [[⟨⟨name⟩, 0⟩]]⟩, t, c.documents⟩ := by
    simp [step, start, Session.step, hset]
  have hsaved : ((start t c [⟨⟨name⟩, 0⟩]).run Store.here
      [.index (.set 0 ⟨name⟩ "k" [.text "y"]), .save 0 token fun _ => none]).saved
      = c.documents := by
    simp only [run, List.foldl_cons, List.foldl_nil, hstep]
    simp [step, Store.written, Store.canWrite, hroom, Catalog.keep]
  obtain ⟨base, places, hshown, hstart⟩ :=
    sound_start h.linkFree hload (List.pairwise_singleton _ _)
  have hrun := sound_run hstart hallows
  obtain ⟨loaded, hreload, hreloaded⟩ := hrun.holds.load hrun.recorded .byName
  rw [← hshown] at hreload
  refine ⟨c, loaded, hload, hallows, hreload, ?_, ?_⟩
  · rw [hreloaded, hsaved, hdocuments]
  · simp only [run, List.foldl_cons, List.foldl_nil, hstep, hchanged]

/-- So the last save of a view does not always hold: it fails for a side-car with a name of 216
bytes, also when the system refuses nothing. -/
theorem reload_of_long_name_ne : ∃ (t : FileTree) (c loaded : Catalog) (view : View),
    t.IsNote (String.ofList (List.replicate 212 'a')) "\x7b\"k\": [\"x\"]\x7d" ∧ t.LinkFree ∧
    Store.here.load .byName t = .ok (c, view) ∧
    (view.Pairwise fun a b => a.path.same b.path = false) ∧
    (start t c view).Allows Store.here
      [.index (.set 0 ⟨String.ofList (List.replicate 212 'a')⟩ "k" [.text "y"]),
        .save 0 "0b09dd26-4d5a-4f3c-9f8c-0d6f2c1a7e55" fun _ => none] ∧
    Store.here.load .byName ((start t c view).run Store.here
      [.index (.set 0 ⟨String.ofList (List.replicate 212 'a')⟩ "k" [.text "y"]),
        .save 0 "0b09dd26-4d5a-4f3c-9f8c-0d6f2c1a7e55" fun _ => none]).tree = .ok (loaded, view) ∧
    loaded.documents ≠ ((start t c view).run Store.here
      [.index (.set 0 ⟨String.ofList (List.replicate 212 'a')⟩ "k"
        [.text "y"])]).session.catalog.documents
    := by
  have hname := isFileName_replicate (n := 212) (by omega) (by omega)
  have hsize := utf8ByteSize_replicate 212
  have hdash : '-' ∉ (String.ofList (List.replicate 212 'a')).toList :=
    fun hmem => absurd (eq_of_mem_replicate hmem) (by decide)
  have hending : ¬ ".mdf".toList <:+ (String.ofList (List.replicate 212 'a')).toList :=
    fun hsuffix => absurd (eq_of_mem_replicate (hsuffix.subset (List.mem_cons_self ..))) (by decide)
  generalize String.ofList (List.replicate 212 'a') = name at hname hsize hdash hending ⊢
  have hnote := FileTree.isNote_ofNote hname (isFileName_sidecar hname (by omega))
    "\x7b\"k\": [\"x\"]\x7d"
  have htoken : "0b09dd26-4d5a-4f3c-9f8c-0d6f2c1a7e55".utf8ByteSize = 36 := by decide +kernel
  have hunused : UnusedToken _ "0b09dd26-4d5a-4f3c-9f8c-0d6f2c1a7e55" :=
    hnote.unusedToken hdash (by decide +kernel) (by decide +kernel) (by decide +kernel)
  obtain ⟨c, loaded, hload, hallows, hreload, hold, hnew⟩ :=
    reload_of_long_name hnote hending hunused (by omega)
  refine ⟨_, c, loaded, _, hnote, hnote.linkFree, hload, List.pairwise_singleton _ _, hallows,
    hreload, ?_⟩
  rw [hold, hnew]
  decide +kernel

end StoreSession

end SidecarIndex

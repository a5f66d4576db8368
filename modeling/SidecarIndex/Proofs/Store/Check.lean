import Mathlib.Data.List.TakeDrop
import SidecarIndex.Command.Run
import SidecarIndex.Proofs.Path
import SidecarIndex.Proofs.Registry.Conflict
import SidecarIndex.Proofs.Store.Note

/-! # Checking and loading agree

Both go over the same side-cars in the same order. Loading stops at the first problem that checking
gathers, so one of them has nothing to report exactly when the other succeeds. -/

namespace SidecarIndex.Store

variable {s : Store} {order : WalkOrder} {t : FileTree} {sources : List (Path × String)}

/-! ### Problems -/

/-- The problem of a side-car that is no document. -/
def refusal? (s : Store) (source : Path × String) : Option Error :=
  match Document.ofText source.2 with
  | .ok _ => none
  | .error e => some (.invalidDocument (s.sidecarPath source.1) (.document e))

def loaded? (source : Path × String) : Option (Path × Document) :=
  match Document.ofText source.2 with
  | .ok d => some (source.1, d)
  | .error _ => none

def conflicts (entries : List (Path × Document)) : List Error :=
  match Registry.ofEntries entries with
  | .ok _ => []
  | .error e => [e]

def problems (s : Store) (sources : List (Path × String)) : List Error :=
  sources.filterMap s.refusal? ++ conflicts (sources.filterMap loaded?)

theorem isStorable_of_loaded {entry : Path × Document} (h : entry ∈ sources.filterMap loaded?) :
    entry.2.IsStorable := by
  obtain ⟨source, _, hloaded⟩ := List.mem_filterMap.1 h
  unfold loaded? at hloaded
  split at hloaded
  · rename_i d hd
    cases hloaded
    exact (Document.isStorable_of_ofText hd).1
  · cases hloaded

/-- There is at most one conflict, and it is a real one. -/
theorem conflicts_cases (sources : List (Path × String)) :
    (conflicts (sources.filterMap loaded?) = [] ∧ ¬ Registry.Disagree (sources.filterMap loaded?)) ∨
      ∃ e, conflicts (sources.filterMap loaded?) = [e] ∧
        Registry.Reports (sources.filterMap loaded?) e := by
  have hmeets := Registry.ofEntries_meets (sources.filterMap loaded?)
  have hstorable : ∀ entry ∈ sources.filterMap loaded?, entry.2.IsStorable := fun _ =>
    isStorable_of_loaded
  have hdisagree := Registry.ofEntries_eq_error_iff hstorable
  rw [conflicts]
  cases hentries : Registry.ofEntries (sources.filterMap loaded?) with
  | ok r =>
    rw [hentries] at hdisagree
    refine .inl ⟨rfl, fun h => ?_⟩
    obtain ⟨e, he⟩ := hdisagree.2 h
    cases he
  | error e =>
    rw [hentries] at hmeets
    exact .inr ⟨e, rfl, hmeets⟩

/-! ### Both ways over the side-cars -/

theorem partition_readDocument (s : Store) (sources : List (Path × String)) :
    partition (sources.map s.readDocument)
      = (sources.filterMap loaded?, sources.filterMap s.refusal?) := by
  induction sources with
  | nil => rfl
  | cons source rest ih =>
    rw [List.map_cons, List.filterMap_cons, List.filterMap_cons, readDocument, loaded?, refusal?]
    cases Document.ofText source.2 with
    | ok d => rw [partition, ih]
    | error e => rw [partition, ih]

theorem mapM_readDocument (s : Store) (sources : List (Path × String)) :
    sources.mapM s.readDocument = match sources.filterMap s.refusal? with
      | [] => .ok (sources.filterMap loaded?)
      | e :: _ => .error e := by
  induction sources with
  | nil => rfl
  | cons source rest ih =>
    -- A refused side-car ends the traversal, whatever the rest holds.
    rw [List.mapM_cons, ih, List.filterMap_cons, List.filterMap_cons, readDocument, loaded?,
      refusal?]
    cases Document.ofText source.2 with
    | error e => rfl
    | ok d =>
      cases rest.filterMap s.refusal? with
      | nil => rfl
      | cons e others => rfl

theorem check_of_scan (h : s.scan order t = .ok sources) :
    s.check order t = .ok (s.problems sources) := by
  rw [check, h, problems, conflicts]
  simp only [bind, Except.bind, partition_readDocument]
  cases Registry.ofEntries (sources.filterMap loaded?) with
  | ok r => rw [List.append_nil]; rfl
  | error e => rfl

theorem load_of_scan (h : s.scan order t = .ok sources) :
    (s.problems sources = [] ∧ ∃ found, s.load order t = .ok found) ∨
      ∃ problem rest, s.problems sources = problem :: rest ∧ s.load order t = .error problem := by
  have hread := mapM_readDocument s sources
  rw [load, h, problems, conflicts]
  simp only [bind, Except.bind, Catalog.build]
  cases hrefused : sources.filterMap s.refusal? with
  | cons e rest =>
    rw [hrefused] at hread
    rw [hread]
    exact .inr ⟨e, _, rfl, rfl⟩
  | nil =>
    rw [hrefused] at hread
    simp only [hread]
    cases Registry.ofEntries (sources.filterMap loaded?) with
    | ok r => exact .inl ⟨rfl, _, rfl⟩
    | error e => exact .inr ⟨e, [], rfl, rfl⟩

theorem check_of_scan_error {e : Error} (h : s.scan order t = .error e) :
    s.check order t = .error e ∧ s.load order t = .error e := by
  rw [check, load, h]
  exact ⟨rfl, rfl⟩

/-! ### Commands -/

theorem code_ofProblems_iff {outcome : Except Error (List Error)} :
    (Report.ofProblems outcome).code = 0 ↔ outcome = .ok [] := by
  cases outcome with
  | error e => simp [Report.ofProblems, Report.ofError]
  | ok problems =>
    cases problems with
    | nil => simp [Report.ofProblems]
    | cons e rest => simp [Report.ofProblems]

theorem code_ofText_iff {outcome : Except Error String} :
    (Report.ofText outcome).code = 0 ↔ ∃ text, outcome = .ok text := by
  cases outcome with
  | error e => simp [Report.ofText, Report.ofError]
  | ok text => simp [Report.ofText]

/-- Without a query everything that has been loaded is listed. -/
theorem listPaths_nil_iff : (∃ text, s.listPaths order t [] = .ok text) ↔
    ∃ found, s.load order t = .ok found := by
  rw [listPaths]
  cases s.load order t with
  | error e => simp [bind, Except.bind]
  | ok found =>
    have hquery : Query.ofText "" = .ok [] := rfl
    simp [bind, Except.bind, Catalog.filter, hquery, pure, Except.pure]

theorem check_eq_nil_iff : s.check order t = .ok [] ↔ ∃ found, s.load order t = .ok found := by
  cases h : s.scan order t with
  | error e =>
    obtain ⟨hcheck, hload⟩ := check_of_scan_error h
    simp [hcheck, hload]
  | ok sources =>
    rw [check_of_scan h]
    rcases load_of_scan h with ⟨hproblems, hload⟩ | ⟨problem, rest, hproblems, hload⟩
    · simp [hproblems, hload]
    · simp [hproblems, hload]

theorem code_check_iff_code_list (environment : Environment) (user : SettingsFile) (system : System)
    (t : FileTree) (root : Path) (verbose : Bool) :
    (Command.run environment user system t ⟨root, verbose, .check⟩).1.code = 0 ↔
      (Command.run environment user system t ⟨root, verbose, .list []⟩).1.code = 0 := by
  simp only [Command.run]
  cases Settings.load environment user t root with
  | error e => rfl
  | ok settings =>
    simp only [Task.run]
    rw [code_ofProblems_iff, code_ofText_iff, check_eq_nil_iff, listPaths_nil_iff]

/-- Checking fails where scanning fails, as loading does. Otherwise it gives the problems of the
side-cars that are no documents, in the order of the paths, and one conflict more where those that
are documents disagree; loading fails with the first of them, and succeeds where there is none, with
what the scanned texts make up. -/
theorem check_agrees_with_load (s : Store) (order : WalkOrder) (t : FileTree) :
    (∀ e, s.check order t = .error e ↔ s.scan order t = .error e) ∧
    (∀ e, s.scan order t = .error e → s.load order t = .error e) ∧
    (∀ sources, s.scan order t = .ok sources →
      sources.Pairwise (fun a b => a.1.compare b.1 ≠ .gt) ∧
      ∃ conflicts, s.check order t = .ok (sources.filterMap s.refusal? ++ conflicts) ∧
        (conflicts = [] ∧ ¬ Registry.Disagree (sources.filterMap loaded?) ∨
          ∃ e, conflicts = [e] ∧ Registry.Reports (sources.filterMap loaded?) e)) ∧
    (s.check order t = .ok [] ↔ ∃ found, s.load order t = .ok found) ∧
    (∀ problem rest, s.check order t = .ok (problem :: rest) → s.load order t = .error problem) ∧
    (∀ found, s.load order t = .ok found ↔
      ∃ sources, s.scan order t = .ok sources ∧ Catalog.ofSources sources = .ok found) ∧
    ∀ environment user system root verbose,
      (Command.run environment user system t ⟨root, verbose, .check⟩).1.code = 0 ↔
        (Command.run environment user system t ⟨root, verbose, .list []⟩).1.code = 0 := by
  refine ⟨?_, ?_, ?_, check_eq_nil_iff, ?_, fun _ => load_eq_ok_iff_ofSources, ?_⟩
  · intro e
    cases h : s.scan order t with
    | error fault =>
      rw [(check_of_scan_error h).1, Except.error.injEq, Except.error.injEq]
    | ok sources =>
      rw [check_of_scan h]
      exact ⟨fun h => (nomatch h), fun h => (nomatch h)⟩
  · exact fun e h => (check_of_scan_error h).2
  · intro sources h
    refine ⟨pairwise_of_scan h, _, check_of_scan h, ?_⟩
    exact conflicts_cases sources
  · intro problem rest hcheck
    cases h : s.scan order t with
    | error e =>
      rw [(check_of_scan_error h).1] at hcheck
      cases hcheck
    | ok sources =>
      rw [check_of_scan h, Except.ok.injEq] at hcheck
      rcases load_of_scan h with ⟨hproblems, _⟩ | ⟨first, others, hproblems, hload⟩
      · rw [hproblems] at hcheck
        cases hcheck
      · rw [hproblems] at hcheck
        cases hcheck
        exact hload
  · exact fun environment user system root verbose =>
      code_check_iff_code_list environment user system t root verbose

/-- Two side-cars that disagree on an attribute, and one that is no document. -/
def ratings : FileTree :=
  let tree : Except FileFault FileTree := do
    let t ← FileTree.empty.makeFile ⟨"a"⟩ (.text "")
    let t ← t.makeFile ⟨"a.mdf"⟩ (.text "\x7b\"rating\": [1]\x7d")
    let t ← t.makeFile ⟨"b"⟩ (.text "")
    let t ← t.makeFile ⟨"b.mdf"⟩ (.text "\x7b\"rating\": [true]\x7d")
    let t ← t.makeFile ⟨"c"⟩ (.text "")
    t.makeFile ⟨"c.mdf"⟩ (.text "\x7b\"2nd\": []\x7d")
  tree.toOption.getD .empty

/-- The side-car that is no document is reported first, though its path comes last. -/
theorem load_ratings :
    let refused : Error :=
  .invalidDocument ⟨"./c.mdf"⟩ (.document (.single (.attributeFormat "2nd")))
    here.check .byName ratings = .ok [refused, .typeConsistency "rating" ⟨"b"⟩ .number .boolean] ∧
      here.load .byName ratings = .error refused ∧
      (∃ sources, here.scan .byName ratings = .ok sources ∧
        Registry.Disagree (sources.filterMap loaded?)) ∧
      { here with root := ⟨"missing"⟩ }.load .byName ratings = .error (.file .missing) := by
  intro refused
  let sources : List (Path × String) := [(⟨"a"⟩, "\x7b\"rating\": [1]\x7d"),
    (⟨"b"⟩, "\x7b\"rating\": [true]\x7d"), (⟨"c"⟩, "\x7b\"2nd\": []\x7d")]
  have hfiles : here.files ratings
      = [["a"], ["a.mdf"], ["b"], ["b.mdf"], ["c"], ["c.mdf"]].map .ok := by decide +kernel
  have hread : ([["a"], ["a.mdf"], ["b"], ["b.mdf"], ["c"], ["c.mdf"]].filterMap
      (here.sidecar? ratings)).mapM (Sidecar.read ratings) = .ok sources := by decide +kernel
  have hsorted : sources.mergeSort (fun a b => a.1.compare b.1 != .gt) = sources :=
    List.mergeSort_of_pairwise (by decide +kernel)
  have hscan : here.scan .byName ratings = .ok sources :=
    scan_eq_ok_iff_read.2 ⟨_, _, hfiles, hread, hsorted.symm⟩
  have hcheck : here.check .byName ratings
      = .ok [refused, .typeConsistency "rating" ⟨"b"⟩ .number .boolean] := by
    rw [check_of_scan hscan]
    decide +kernel
  have hmissing : { here with root := ⟨"missing"⟩ }.scan .byName ratings
    = .error (.file .missing) := by
    decide +kernel
  obtain ⟨_, _, hlist, _, hfirst, _⟩ := check_agrees_with_load here .byName ratings
  refine ⟨hcheck, hfirst _ _ hcheck, ⟨sources, hscan, ?_⟩,
    (check_agrees_with_load { here with root := ⟨"missing"⟩ } .byName ratings).2.1 _ hmissing⟩
  obtain ⟨_, conflicts, hproblems, hconflicts⟩ := hlist sources hscan
  have hrefused : sources.filterMap here.refusal? = [refused] := by decide +kernel
  rcases hconflicts with ⟨rfl, _⟩ | ⟨e, _, hreports⟩
  · rw [hcheck, hrefused] at hproblems
    simp at hproblems
  · exact hreports.disagree

/-! ### Conflicts behind the first -/

theorem conflicts_eq_take (entries : List (Path × Document)) :
    conflicts entries = (Registry.allConflicts entries).take 1 := by
  have hentries := Registry.ofEntries_of_allConflicts entries
  rw [conflicts]
  cases hall : Registry.allConflicts entries with
  | nil =>
    rw [hall] at hentries
    obtain ⟨r, hr, _⟩ := hentries
    rw [hr]
    rfl
  | cons e rest =>
    rw [hall] at hentries
    rw [show Registry.ofEntries entries = .error e from hentries]
    rfl

theorem not_mem_refusals {name : String} {path : Path} {registered found : Variant} :
    Error.typeConsistency name path registered found ∉ sources.filterMap s.refusal? := by
  intro h
  obtain ⟨source, _, hrefusal⟩ := List.mem_filterMap.1 h
  unfold refusal? at hrefusal
  split at hrefusal
  · cases hrefusal
  · cases hrefusal

/-- Checking reports every side-car that is no document, but of the conflicts between the documents
only the first: in the order of the paths, and of the names in each document, the first list of
values of another variant than the first values of its attribute. So all problems are reported
exactly when there is at most one conflict. -/
theorem check_reports_first_conflict (s : Store) (order : WalkOrder) (t : FileTree)
    {sources : List (Path × String)} (hscan : s.scan order t = .ok sources) :
    sources.Pairwise (fun a b => a.1.compare b.1 ≠ .gt) ∧
    ∃ problems, s.check order t = .ok problems ∧
      (∀ source ∈ sources, ∀ e, Document.ofText source.2 = .error e →
        .invalidDocument (s.sidecarPath source.1) (.document e) ∈ problems) ∧
      (∀ path d name values registered found, (path, d) ∈ sources.filterMap loaded? →
        d.get? name = some values → values.head?.map Value.variant = some found →
        Registry.firstVariant? (Registry.sightings (sources.filterMap loaded?)) name
          = some registered →
        registered ≠ found →
        (Error.typeConsistency name path registered found ∈ problems ↔
          (Registry.allConflicts (sources.filterMap loaded?)).head?
            = some (.typeConsistency name path registered found))) ∧
      (problems = sources.filterMap s.refusal? ++ Registry.allConflicts
        (sources.filterMap loaded?) ↔
          (Registry.allConflicts (sources.filterMap loaded?)).length ≤ 1) := by
  refine ⟨pairwise_of_scan hscan, _, check_of_scan hscan, ?_, ?_, ?_⟩
  · intro source hsource e he
    refine List.mem_append_left _ (List.mem_filterMap.2 ⟨source, hsource, ?_⟩)
    rw [refusal?, he]
  · intro path d name values registered found hmem hvalues hfound hfirst hne
    rw [problems, List.mem_append, conflicts_eq_take, List.take_one, Option.mem_toList]
    exact ⟨fun h => h.resolve_left not_mem_refusals, .inr⟩
  · rw [problems, conflicts_eq_take, List.append_cancel_left_eq]
    exact List.take_eq_self_iff _

/-- Two documents that disagree on two attributes. -/
def marks : FileTree :=
  let tree : Except FileFault FileTree := do
    let t ← FileTree.empty.makeFile ⟨"a"⟩ (.text "")
    let t ← t.makeFile ⟨"a.mdf"⟩ (.text "\x7b\"j\": [1], \"k\": [1]\x7d")
    let t ← t.makeFile ⟨"b"⟩ (.text "")
    t.makeFile ⟨"b.mdf"⟩ (.text "\x7b\"j\": [true], \"k\": [true]\x7d")
  tree.toOption.getD .empty

theorem scan_marks : here.scan .byName marks = .ok
    [(⟨"a"⟩, "\x7b\"j\": [1], \"k\": [1]\x7d"),
      (⟨"b"⟩, "\x7b\"j\": [true], \"k\": [true]\x7d")] := by
  have hfiles : here.files marks = [["a"], ["a.mdf"], ["b"], ["b.mdf"]].map .ok := by decide +kernel
  have hread : ([["a"], ["a.mdf"], ["b"], ["b.mdf"]].filterMap
      (here.sidecar? marks)).mapM (Sidecar.read marks) = .ok
      [(⟨"a"⟩, "\x7b\"j\": [1], \"k\": [1]\x7d"),
      (⟨"b"⟩, "\x7b\"j\": [true], \"k\": [true]\x7d")] := by
    decide +kernel
  exact scan_eq_ok_iff_read.2
    ⟨_, _, hfiles, hread, (List.mergeSort_of_pairwise (by decide +kernel)).symm⟩

/-- The conflict on the first attribute is reported and the one on the second is not. -/
theorem check_of_marks : ∃ problems, here.check .byName marks = .ok problems ∧
    .typeConsistency "j" ⟨"b"⟩ .number .boolean ∈ problems ∧
    .typeConsistency "k" ⟨"b"⟩ .number .boolean ∉ problems := by
  obtain ⟨_, problems, hcheck, _, hconflict, _⟩ := check_reports_first_conflict _ _ _ scan_marks
  have hmem : (⟨"b"⟩, .ofList [("j", [.boolean true]), ("k", [.boolean true])])
      ∈ List.filterMap loaded?
      [(⟨"a"⟩, "\x7b\"j\": [1], \"k\": [1]\x7d"),
      (⟨"b"⟩, "\x7b\"j\": [true], \"k\": [true]\x7d")] := by
    decide +kernel
  refine ⟨problems, hcheck, ?_, ?_⟩
  · exact (hconflict _ _ "j" [.boolean true] .number .boolean hmem (by decide +kernel) rfl
      (by decide +kernel) (by decide)).2 (by decide +kernel)
  · rw [hconflict _ _ "k" [.boolean true] .number .boolean hmem (by decide +kernel) rfl
      (by decide +kernel) (by decide)]
    decide +kernel

/-- So not every conflict is reported: the boolean `k` of `b` differs from the number that `a`
has. -/
theorem check_of_marks_incomplete : ∃ sources problems,
    here.scan .byName marks = .ok sources ∧
    here.check .byName marks = .ok problems ∧
    ∃ path d name values registered found, (path, d) ∈ sources.filterMap loaded? ∧
      d.get? name = some values ∧
      Registry.firstVariant? (Registry.sightings (sources.filterMap loaded?)) name
        = some registered ∧
      values.head?.map Value.variant = some found ∧ registered ≠ found ∧
      Error.typeConsistency name path registered found ∉ problems := by
  have hconflict : Error.typeConsistency "k" ⟨"b"⟩ .number .boolean ∈ Registry.allConflicts
      ([(⟨"a"⟩, "\x7b\"j\": [1], \"k\": [1]\x7d"),
        (⟨"b"⟩, "\x7b\"j\": [true], \"k\": [true]\x7d")].filterMap loaded?) := by decide +kernel
  obtain ⟨path, d, name, values, registered, found, hd, hvalues, hfirst, hfound, hne, heq⟩ :=
    Registry.mem_allConflicts_iff.1 hconflict
  refine ⟨_, _, scan_marks, check_of_scan scan_marks, path, d, name, values, registered, found, hd,
    hvalues, hfirst, hfound, hne, ?_⟩
  rw [← heq]
  decide +kernel

end SidecarIndex.Store

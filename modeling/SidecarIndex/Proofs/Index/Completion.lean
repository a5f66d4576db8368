import SidecarIndex.Index.Catalog
import SidecarIndex.Proofs.Index.Session
import SidecarIndex.Proofs.Editing
import SidecarIndex.Proofs.Query.Grammar

/-! # What a completion finds

The completions of a value are the texts that a view shows for an attribute. Each of them is a
literal, and in the variant of a list that it is shown for it is read as the value it shows. So the
query of the name, `=` and a completion is a comparison that no document with such a value is lost
to. -/

namespace SidecarIndex

/-! ### Shown values as literals of a query -/

namespace Value

theorem readBoolean?_booleanText (b : Bool) : readBoolean? (booleanText b).toList = some b := by
  cases b
  all_goals rfl

/-- Unlike the items of an edited list, a literal of a query is not screened before it is read. -/
theorem ofLiteral?_shown {v : Value} (h : v.isStorable = true) (hread : v.IsRead) :
    ofLiteral? v.shown v.variant = some v := by
  cases v with
  | number n =>
    have hfinite : n.isFinite = true := h
    simp [ofLiteral?, variant, shown, Number.ofText?_shownText hfinite]
  | text s => rfl
  | boolean b => simp [ofLiteral?, variant, shown, readBoolean?_booleanText]
  | timestamp t =>
    obtain ⟨s, hs⟩ := hread
    have htext := Timestamp.ofText?_text (Timestamp.isPlain_of_ofText? hs)
    simp [ofLiteral?, variant, shown, dropMark, htext]

theorem same_self {v : Value} (h : v.isStorable = true) : v.same v = true := by
  have hagrees := agrees_self h
  cases v with
  | timestamp t => exact hagrees.1
  | number n => exact hagrees
  | text s => exact hagrees
  | boolean b => exact hagrees

end Value

namespace Query

theorem ofText_single {p : Predicate} {query : String} (h : p.IsValid)
    (htext : query.toList = p.text) : ofText query = .ok [p] := by
  refine ofText_eq_ok_iff.2 ⟨fun q hq => ?_, ?_⟩
  · rw [List.mem_singleton.1 hq]
    exact h
  · rw [htext, text, List.map_singleton, List.intercalate_singleton]

end Query

/-- A document is found by the text of any of its values. -/
theorem Predicate.accepts_shown {d : Document} (hd : d.IsStorable) (hread : d.IsRead)
    {name : String} {values : List Value} (hvalues : d.get? name = some values) {v : Value}
    (hv : v ∈ values) : (comparison name .eq v.shown).accepts d = true := by
  have hmem : (name, values) ∈ d.entries := OrderedMap.mem_entries_of_get? hvalues
  have hattribute := hd _ hmem
  have hstorable := hattribute.storable v hv
  obtain ⟨variant, hall⟩ := hattribute.homogeneous
  -- The literal is read in the variant of the first value, which is that of all values.
  obtain ⟨first, hfirst⟩ : ∃ first, values.head? = some first :=
    Option.isSome_iff_exists.1 (List.isSome_head?.2 (List.ne_nil_of_mem hv))
  have hvariant : first.variant = v.variant :=
    (hall first (List.mem_of_head? hfirst)).trans (hall v hv).symm
  have hreading : Value.ofLiteral? v.shown first.variant = some v := by
    rw [hvariant]
    exact Value.ofLiteral?_shown hstorable (hread _ hmem v hv)
  have hoperands : operands? d name v.shown = some (values, v) := by
    simp [operands?, hvalues, hfirst, hreading]
  simp only [accepts, hoperands]
  exact List.any_eq_true.2 ⟨v, hv, Value.same_self hstorable⟩

/-! ### Completed queries -/

namespace Document

variable {d : Document} {name text : String}

/-- The document has a value under the name that is shown as the text. -/
def ShowsUnder (d : Document) (name text : String) : Prop :=
  ∃ values, d.get? name = some values ∧ ∃ v ∈ values, v.shown = text

theorem ShowsUnder.ofText_eq_ok (hd : d.IsStorable) (h : d.ShowsUnder name text) :
    Query.ofText (name ++ "=" ++ text) = .ok [.comparison name .eq text] := by
  obtain ⟨values, hvalues, v, hv, rfl⟩ := h
  have hattribute := hd _ (OrderedMap.mem_entries_of_get? hvalues)
  refine Query.ofText_single ⟨hattribute.isName,
    Value.isLiteral_shown (hattribute.storable v hv)⟩ ?_
  rw [String.toList_append, String.toList_append]
  rfl

theorem ShowsUnder.accepts (hd : d.IsStorable) (hread : d.IsRead) (h : d.ShowsUnder name text) :
    Query.accepts [.comparison name .eq text] d = true := by
  obtain ⟨values, hvalues, v, hv, rfl⟩ := h
  rw [Query.accepts, List.all_cons, List.all_nil, Bool.and_true]
  exact Predicate.accepts_shown hd hread hvalues hv

end Document

namespace Catalog

variable {c : Catalog} {view : View} {typed text name : String}

/-! ### Completions -/

theorem completes_iff : completes typed text = true ↔ typed.toList <+: text.toList :=
  List.isPrefixOf_iff_prefix

theorem sorted_completions (typed : String) (texts : List String) :
    (completions typed texts).Pairwise (· < ·) := OrderedMap.sorted_keys _

theorem mem_completions_iff {texts : List String} :
    text ∈ completions typed texts ↔ typed.toList <+: text.toList ∧ text ∈ texts := by
  rw [completions, OrderedMap.mem_keys_ofList_iff, ← completes_iff]
  apply Iff.intro
  · rintro ⟨pair, hpair, rfl⟩
    obtain ⟨found, hfound, rfl⟩ := List.mem_map.1 hpair
    exact (List.mem_filter.1 hfound).symm
  · intro h
    exact ⟨(text, ()), List.mem_map.2 ⟨text, List.mem_filter.2 h.symm, rfl⟩, rfl⟩

theorem mem_completeValues_iff : text ∈ c.completeValues view typed (some name) ↔
    typed.toList <+: text.toList ∧
    ∃ entry ∈ view, (c.document entry.slot).ShowsUnder name text := by
  rw [completeValues, mem_completions_iff]
  refine and_congr_right fun _ => ?_
  simp only [contents, List.mem_flatMap, List.mem_map, List.mem_filter, Option.all_some, beq_iff_eq]
  apply Iff.intro
  · rintro ⟨_, ⟨entry, hentry, rfl⟩, attr, ⟨hattr, rfl⟩, v, hv, rfl⟩
    exact ⟨entry, hentry, attr.2, OrderedMap.mem_entries_iff.1 hattr, v, hv, rfl⟩
  · rintro ⟨entry, hentry, values, hvalues, v, hv, rfl⟩
    exact ⟨_, ⟨entry, hentry, rfl⟩, (name, values), ⟨OrderedMap.mem_entries_of_get? hvalues, rfl⟩,
      v, hv, rfl⟩

end Catalog

namespace Session

/-- After any calls, the completions of a value in any view stand in order, each once, and are the
texts of the values under the name that start with what has been typed. The name, `=` and a
completion make a query of one comparison, and filtering by it keeps every entry with a value that
is shown so. -/
theorem completions_find_of_run {sources : List (Path × String)} {s : Session}
    (h : ofSources sources = .ok s) (calls : List Call) (hcalls : ∀ call ∈ calls, call.IsRead) :
    ∀ view ∈ (s.run calls).views, ∀ typed name : String,
      ((s.run calls).catalog.completeValues view typed (some name)).Pairwise (· < ·) ∧
      (∀ text, text ∈ (s.run calls).catalog.completeValues view typed (some name) ↔
        typed.toList <+: text.toList ∧ ∃ entry ∈ view,
          ((s.run calls).catalog.document entry.slot).ShowsUnder name text) ∧
      ∀ text ∈ (s.run calls).catalog.completeValues view typed (some name),
        Query.ofText (name ++ "=" ++ text) = .ok [.comparison name .eq text] ∧
        ∃ found, (s.run calls).catalog.filter view (name ++ "=" ++ text) = .ok found ∧
          ∀ entry ∈ view, ((s.run calls).catalog.document entry.slot).ShowsUnder name text →
            entry ∈ found := by
  intro view hview typed name
  obtain ⟨hsound, _⟩ := sound_run (sound_of_ofSources h) calls
  have hread := isRead_run (isRead_of_ofSources h) hcalls
  have hmem : ∀ entry ∈ view, (s.run calls).catalog.document entry.slot ∈
      (s.run calls).catalog.documents :=
    fun entry hentry => Catalog.document_mem (hsound.slots view hview entry hentry)
  refine ⟨Catalog.sorted_completions .., fun text => Catalog.mem_completeValues_iff, ?_⟩
  intro text htext
  obtain ⟨_, entry, hentry, hshows⟩ := Catalog.mem_completeValues_iff.1 htext
  have hquery := hshows.ofText_eq_ok (hsound.catalog.storable _ (hmem entry hentry))
  refine ⟨hquery, _, Catalog.filter_eq_ok_iff.2 ⟨_, hquery, rfl⟩, ?_⟩
  intro other hother hshown
  have hd := hmem other hother
  exact List.mem_filter.2 ⟨hother, hshown.accepts (hsound.catalog.storable _ hd) (hread _ hd)⟩

def deadline : Timestamp :=
  (Timestamp.ofText? "2024-05-01T12:00+02:00".toList).get (by decide +kernel)

/-- One file is due at ten o'clock of universal time, another one has no value yet. -/
def deadlines : Session where
  catalog := ⟨[.ofList [("due", [.timestamp
      ((Timestamp.ofText? "2024-05-01T10:00Z".toList).get (by decide +kernel))])],
    .ofList [("due", [])]], ⟨.ofList [("due", some .timestamp)]⟩⟩
  views := [[⟨⟨"a"⟩, 0⟩, ⟨⟨"b"⟩, 1⟩]]

/-- The instant that has been set is found by the text that shows it with its offset. -/
theorem deadline_is_found_of_run :
    let calls := [Call.set 0 ⟨"b"⟩ "due" [.timestamp deadline]]
    ofSources [(⟨"a"⟩, "\x7b\"due\": [\"#2024-05-01T10:00Z\"]\x7d"), (⟨"b"⟩, "\x7b\"due\": []\x7d")]
      = .ok deadlines ∧
    (∀ call ∈ calls, call.IsRead) ∧
    (deadlines.run calls).catalog.completeValues [⟨⟨"a"⟩, 0⟩, ⟨⟨"b"⟩, 1⟩] "#2024" (some "due")
      = ["#2024-05-01T10:00:00+00:00", "#2024-05-01T12:00:00+02:00"] ∧
    ∃ found, (deadlines.run calls).catalog.filter [⟨⟨"a"⟩, 0⟩, ⟨⟨"b"⟩, 1⟩]
        ("due" ++ "=" ++ "#2024-05-01T12:00:00+02:00") = .ok found ∧ ⟨⟨"b"⟩, 1⟩ ∈ found := by
  intro calls
  have hs : ofSources [(⟨"a"⟩, "\x7b\"due\": [\"#2024-05-01T10:00Z\"]\x7d"),
      (⟨"b"⟩, "\x7b\"due\": []\x7d")] = .ok deadlines := by decide +kernel
  have hcalls : ∀ call ∈ calls, call.IsRead := by
    refine List.forall_mem_singleton.2 (List.forall_mem_singleton.2 ?_)
    exact ⟨_, (Option.some_get _).symm⟩
  have htexts : (deadlines.run calls).catalog.completeValues [⟨⟨"a"⟩, 0⟩, ⟨⟨"b"⟩, 1⟩] "#2024"
      (some "due")
      = ["#2024-05-01T10:00:00+00:00", "#2024-05-01T12:00:00+02:00"] := by decide +kernel
  obtain ⟨_, _, hfind⟩ := completions_find_of_run hs calls hcalls
    [⟨⟨"a"⟩, 0⟩, ⟨⟨"b"⟩, 1⟩] (by decide +kernel) "#2024" "due"
  obtain ⟨_, found, hfound, hkept⟩ := hfind "#2024-05-01T12:00:00+02:00" (by rw [htexts]; simp)
  refine ⟨hs, hcalls, htexts, found, hfound, hkept _ (by decide) ⟨[.timestamp deadline], ?_⟩⟩
  decide +kernel

end Session

end SidecarIndex

import SidecarIndex.Proofs.Document.RoundTrip
import SidecarIndex.Proofs.Index.Catalog

/-! # What is set can be loaded again

A document in which an attribute has been set is written to a text that loads as an equal document,
unless one of the new values is a timestamp that no text denotes. Values of the other variants are
checked before they are set; timestamps are not. -/

namespace SidecarIndex

theorem Timestamp.isRead_iff {t : Timestamp} : t.IsRead ↔ t.IsPlain := by
  apply Iff.intro
  · intro h
    obtain ⟨s, hs⟩ := h
    exact isPlain_of_ofText? hs
  · intro h
    exact ⟨t.text, ofText?_text h⟩

theorem Value.forall_isRead_iff {values : List Value} :
    (∀ v ∈ values, v.IsRead) ↔ ∀ t, .timestamp t ∈ values → t.IsPlain := by
  apply Iff.intro
  · intro h t ht
    exact Timestamp.isRead_iff.1 (h _ ht)
  · intro h v hv
    cases v with
    | timestamp t => exact Timestamp.isRead_iff.2 (h t hv)
    | number n => trivial
    | text s => trivial
    | boolean b => trivial

theorem Document.isRead_set_iff {d : Document} {name : String} {values : List Value}
    (hd : d.IsRead) : (d.set name values).IsRead ↔ ∀ v ∈ values, v.IsRead := by
  apply Iff.intro
  · intro h v hv
    exact h (name, values) (mem_entries_set.2 (.inl rfl)) v hv
  · exact isRead_set hd

namespace Catalog

variable {c c' : Catalog} {view : View} {path : Path} {name : String} {values : List Value}

/-- The document that an attribute has been set in is the one before with the new values. -/
theorem find?_of_setAttribute (hslots : ∀ entry ∈ view, entry.slot < c.documents.length)
    (hset : c.setAttribute view path name values = .ok c') :
    ∃ old ∈ c.documents, c'.find? view path = some (old.set name values) := by
  obtain ⟨entry, hentry, _⟩ := setAttribute_eq_ok_iff.1 hset
  have hslot := hslots entry (List.mem_of_find?_eq_some hentry)
  have hold : c.documents[entry.slot]? = some (c.document entry.slot) := by
    rw [document, List.getD_eq_getElem?_getD, List.getElem?_eq_getElem hslot]
    rfl
  have hnew := metadata_of_setAttribute hset hentry hold
  rw [metadata, find?, hentry] at hnew
  refine ⟨_, document_mem hslot, ?_⟩
  rw [find?, hentry]
  exact congrArg some hnew

/-- In a catalog of side-cars the document in which an attribute has been set has a text that loads
as an equal document exactly when each new timestamp has a year of four digits, no leap second and
an offset of whole minutes. Then the text loads as the very document. -/
theorem set_reloads_iff {sources : List (Path × String)}
    (hsources : ofSources sources = .ok (c, view))
    (hset : c.setAttribute view path name values = .ok c') :
    ∃ d, c'.find? view path = some d ∧ d.get? name = some values ∧
      ((∃ e, Document.ofText d.text = .ok e ∧ d.same e = true) ↔
        ∀ t, .timestamp t ∈ values → t.IsPlain) ∧
      ((∀ t, .timestamp t ∈ values → t.IsPlain) → Document.ofText d.text = .ok d) := by
  obtain ⟨hsound, hslots⟩ := sound_of_ofSources hsources
  obtain ⟨old, hold, hfound⟩ := find?_of_setAttribute hslots hset
  obtain ⟨_, _, hattribute, _⟩ := setAttribute_eq_ok_iff.1 hset
  have hstorable := Document.isStorable_set (hsound.storable old hold) hattribute
  have hread : (old.set name values).IsRead ↔ ∀ t, .timestamp t ∈ values → t.IsPlain :=
    (Document.isRead_set_iff (isRead_of_ofSources hsources old hold)).trans Value.forall_isRead_iff
  refine ⟨old.set name values, hfound, ?_, ?_, ?_⟩
  · rw [Document.get?_set, if_pos rfl]
  · rw [Document.ofText_text_same_iff, hread]
    exact and_iff_right hstorable
  · exact fun hplain => Document.ofText_text hstorable (hread.2 hplain)

/-- The last second of the year 9999 at the greatest offset is loaded again. -/
theorem set_reloads_of_last_second : ∃ c view c',
    ofSources [(⟨"a"⟩, "\x7b\"due\": [\"#2024\"]\x7d")] = .ok (c, view) ∧
    c.setAttribute view ⟨"a"⟩ "due" [.timestamp ⟨⟨9999, 12, 31, by decide, by decide⟩,
      ⟨23, 59, 59, 999999999, by decide, by decide, by decide, by decide⟩,
      ⟨86340, by decide, by decide⟩⟩] = .ok c' ∧
    ∃ d, c'.find? view ⟨"a"⟩ = some d ∧ Document.ofText d.text = .ok d := by
  have hsources : ofSources [(⟨"a"⟩, "\x7b\"due\": [\"#2024\"]\x7d")]
      = .ok (⟨[.ofList [("due", [.timestamp ⟨⟨2024, 1, 1, by decide, by decide⟩,
        ⟨0, 0, 0, 0, by decide, by decide, by decide, by decide⟩, .utc⟩])]],
        ⟨.ofList [("due", some .timestamp)]⟩⟩, [⟨⟨"a"⟩, 0⟩]) := by
    decide +kernel
  have hset : ∃ c', Catalog.setAttribute
      ⟨[.ofList [("due", [.timestamp ⟨⟨2024, 1, 1, by decide, by decide⟩,
        ⟨0, 0, 0, 0, by decide, by decide, by decide, by decide⟩, .utc⟩])]],
        ⟨.ofList [("due", some .timestamp)]⟩⟩ [⟨⟨"a"⟩, 0⟩] ⟨"a"⟩ "due"
        [.timestamp ⟨⟨9999, 12, 31, by decide, by decide⟩,
          ⟨23, 59, 59, 999999999, by decide, by decide, by decide, by decide⟩,
          ⟨86340, by decide, by decide⟩⟩] = .ok c' := ⟨_, rfl⟩
  obtain ⟨c', hset⟩ := hset
  obtain ⟨d, hfound, _, _, hreload⟩ := set_reloads_iff hsources hset
  refine ⟨_, _, c', hsources, hset, d, hfound, hreload fun t ht => ?_⟩
  cases List.mem_singleton.1 ht
  exact ⟨by decide, by decide, by decide, by decide⟩

/-- The first day after the year 9999 is set, and the text of its document does not load. -/
theorem set_not_reloaded_of_year_10000 : ∃ c view c' d,
    ofSources [(⟨"a"⟩, "\x7b\x7d")] = .ok (c, view) ∧
    c.setAttribute view ⟨"a"⟩ "k" [.timestamp ⟨⟨10000, 1, 1, by decide, by decide⟩,
      ⟨0, 0, 0, 0, by decide, by decide, by decide, by decide⟩, .utc⟩] = .ok c' ∧
    c'.find? view ⟨"a"⟩ = some d ∧ ¬ ∃ e, Document.ofText d.text = .ok e ∧ d.same e = true := by
  have hsources :
      ofSources [(⟨"a"⟩, "\x7b\x7d")] = .ok (⟨[.ofList []], ⟨.ofList []⟩⟩, [⟨⟨"a"⟩, 0⟩]) := by
    decide +kernel
  refine ⟨_, _, _, _, hsources, rfl, rfl, fun hreload => ?_⟩
  have hread := ((Document.ofText_text_same_iff _).1 hreload).2
  have hplain :=
    Timestamp.isRead_iff.1 (hread ("k", [.timestamp ⟨⟨10000, 1, 1, by decide, by decide⟩,
    ⟨0, 0, 0, 0, by decide, by decide, by decide, by decide⟩, .utc⟩])
    (Document.mem_entries_set.2 (.inl rfl)) _ (List.mem_singleton.2 rfl))
  exact absurd hplain.year_le (by decide)

end Catalog

end SidecarIndex

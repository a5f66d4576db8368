import SidecarIndex.Editing
import SidecarIndex.Proofs.Lexical
import SidecarIndex.Proofs.Text
import SidecarIndex.Proofs.Number.Spelling
import SidecarIndex.Proofs.Timestamp.Printer
import SidecarIndex.Proofs.Document.Storable
import SidecarIndex.Proofs.Outcome

/-! # Edited values are read back

Every value that can be stored is shown as a literal. No literal has a comma, a blank or a bracket
in it, and none is empty, so the items of a shown list are the shown values, and each of them is
read in its variant as the value it shows. -/

namespace SidecarIndex

/-! ### Blanks -/

namespace Text

theorem trim_of_isLiteral {s : List Char} (h : isLiteral s = true) : trim s = s :=
  trim_of_ends (fun _ hc => isBlank_of_isLiteral h (List.mem_of_head? hc))
    (fun _ hc => isBlank_of_isLiteral h (List.mem_of_getLast? hc))

end Text

namespace Editing

/-! ### Items -/

theorem unbracketed?_brackets (s : List Char) : unbracketed? ('[' :: (s ++ [']'])) = some s := by
  rw [unbracketed?, List.getLast?_concat, if_pos rfl, List.dropLast_concat]

theorem intercalate_cons_head (separator : List Char) (c : Char) (item : List Char)
    (rest : List (List Char)) :
    separator.intercalate ((c :: item) :: rest) = c :: separator.intercalate (item :: rest) := by
  cases rest with
  | nil => simp
  | cons next rest => simp [List.intercalate_cons_cons]

/-- What is joined with a comma and a blank is joined with a comma, with the blank in front of every
item but the first. -/
theorem intercalate_comma_blank (first : List Char) (rest : List (List Char)) :
    [',', ' '].intercalate (first :: rest) = [','].intercalate (first :: rest.map (' ' :: ·)) := by
  induction rest generalizing first with
  | nil => simp
  | cons second rest ih =>
    rw [List.intercalate_cons_cons, ih, List.map_cons, List.intercalate_cons_cons,
      intercalate_cons_head]
    simp

theorem splitItems_joined {items : List (List Char)} (h : ∀ item ∈ items, isLiteral item = true) :
    splitItems ([',', ' '].intercalate items) = items := by
  cases items with
  | nil => rfl
  | cons first rest =>
    have hcomma : ∀ item ∈ first :: rest, ',' ∉ item :=
      fun item hitem => not_mem_of_isLiteral (h item hitem) (by decide) (by decide)
    -- Splitting leaves the blank in front of every item but the first; trimming takes it away.
    have hsplit : ([',', ' '].intercalate (first :: rest)).splitOn ','
        = first :: rest.map (' ' :: ·) := by
      rw [intercalate_comma_blank]
      refine List.splitOn_intercalate ',' ?_ (List.cons_ne_nil _ _)
      rw [List.forall_mem_cons] at hcomma ⊢
      refine ⟨hcomma.1, fun item hitem => ?_⟩
      obtain ⟨shown, hshown, rfl⟩ := List.mem_map.1 hitem
      simpa using hcomma.2 shown hshown
    have htrim : (first :: rest.map (' ' :: ·)).map Text.trim = first :: rest := by
      rw [List.map_cons, List.map_map, Text.trim_of_isLiteral (h first (List.mem_cons_self ..))]
      refine congrArg (first :: ·)
        ((List.map_congr_left fun item hitem => ?_).trans (List.map_id rest))
      exact (Text.trim_cons_blank (by decide)).trans
        (Text.trim_of_isLiteral (h item (List.mem_cons_of_mem _ hitem)))
    rw [splitItems, hsplit, htrim, List.filter_eq_self]
    intro item hitem
    simpa using ne_nil_of_isLiteral (h item hitem)

/-- The items of a shown list are the shown values. -/
theorem items_format {values : List Value} (h : ∀ v ∈ values, isLiteral v.shown.toList = true) :
    items (format values) = .ok (values.map fun v => v.shown.toList) := by
  have htext : (format values).toList
      = '[' :: ([',', ' '].intercalate (values.map fun v => v.shown.toList) ++ [']']) := by
    simp [format, String.toList_intercalate, Function.comp_def]
  have htrim : Text.trim (format values).toList = (format values).toList := by
    refine Text.trim_of_ends ?_ ?_
    · rw [htext]
      intro c hc
      cases hc
      decide
    · rw [htext, ← List.cons_append, List.getLast?_concat]
      intro c hc
      cases hc
      decide
  have hitems : ∀ item ∈ values.map fun v => v.shown.toList, isLiteral item = true := by
    intro item hitem
    obtain ⟨v, hv, rfl⟩ := List.mem_map.1 hitem
    exact h v hv
  rw [items, htrim, htext, unbracketed?_brackets]
  exact congrArg Except.ok (splitItems_joined hitems)

/-- A literal by itself, without brackets, is one item. -/
theorem items_of_isLiteral {s : List Char} (h : isLiteral s = true) :
    items (String.ofList s) = .ok [s] := by
  have hopen : '[' ∉ s := not_mem_of_isLiteral h (by decide) (by decide)
  have hclose : ']' ∉ s := not_mem_of_isLiteral h (by decide) (by decide)
  have hplain : unbracketed? s = some s := by
    cases s with
    | nil => rfl
    | cons c rest =>
      have hlast : (c :: rest).getLast? ≠ some ']' := fun heq => hclose (List.mem_of_getLast? heq)
      unfold unbracketed?
      split
      · rename_i heq
        cases heq
        exact absurd (List.mem_cons_self ..) hopen
      · rw [if_neg hlast]
  have hsplit := splitItems_joined (List.forall_mem_singleton.2 h)
  rw [List.intercalate_singleton] at hsplit
  rw [items, String.toList_ofList, Text.trim_of_isLiteral h, hplain]
  exact congrArg Except.ok hsplit

end Editing

/-! ### Shown values -/

theorem Number.isLiteral_shownText {n : Number} (h : n.isFinite = true) :
    isLiteral n.shownText = true := by
  cases n with
  | nan => cases h
  | infinite negative => cases h
  | finite negative m =>
    obtain ⟨whole, fraction, hspells, htext⟩ := exists_spells_shown m
    have hplaces : ∀ c ∈ placesText whole fraction, isLiteralChar c = true := by
      intro c hc
      rcases hspells.mem_placesText hc with hdigit | rfl
      · exact isLiteralChar_of_isDigit hdigit
      · decide
    have hne : placesText whole fraction ≠ [] := hspells.placesText_ne_nil
    rw [shownText, htext]
    cases negative with
    | true =>
      refine isLiteral_of_forall (List.cons_ne_nil _ _) ?_
      exact List.forall_mem_cons.2 ⟨by decide, hplaces⟩
    | false => exact isLiteral_of_forall hne hplaces

namespace Value

theorem isLiteral_shown {v : Value} (h : v.isStorable = true) :
    isLiteral v.shown.toList = true := by
  cases v with
  | number n =>
    rw [shown, String.toList_ofList]
    exact Number.isLiteral_shownText h
  | text s =>
    simp only [isStorable, isPlainLiteral, Bool.and_eq_true] at h
    exact h.2
  | boolean b =>
    cases b
    all_goals decide
  | timestamp t =>
    rw [shown, String.toList_ofList]
    exact t.isLiteral_text

/-- A value that can be stored is read from what shows it, in its variant. -/
theorem readItem?_shown {v : Value} (h : v.isStorable = true) (hread : v.IsRead) :
    Editing.readItem? v.shown.toList v.variant = some v := by
  cases v with
  | number n =>
    have hfinite : n.isFinite = true := h
    simp [Editing.readItem?, variant, shown, Number.ofText?_shownText hfinite, hfinite]
  | text s =>
    have hplain : isPlainLiteral s.toList = true := h
    simp [Editing.readItem?, variant, shown, hplain]
  | boolean b =>
    cases b
    all_goals rfl
  | timestamp t =>
    obtain ⟨s, hs⟩ := hread
    have htext := Timestamp.ofText?_text (Timestamp.isPlain_of_ofText? hs)
    simp [Editing.readItem?, variant, shown, t.isLiteral_text, dropMark, htext]

/-- What is read from an item is a value of the variant that can be stored. -/
theorem isStorable_of_readItem? {item : List Char} {variant : Variant} {v : Value}
    (h : Editing.readItem? item variant = some v) :
    v.variant = variant ∧ v.isStorable = true ∧ v.IsRead := by
  cases variant with
  | number =>
    obtain ⟨n, hn, rfl⟩ := Option.map_eq_some_iff.1 h
    exact ⟨rfl, (Option.filter_eq_some_iff.1 hn).2, trivial⟩
  | boolean =>
    obtain ⟨b, _, rfl⟩ := Option.map_eq_some_iff.1 h
    exact ⟨rfl, rfl, trivial⟩
  | timestamp =>
    obtain ⟨_, hmap⟩ := Option.ite_none_right_eq_some.1 h
    obtain ⟨t, ht, rfl⟩ := Option.map_eq_some_iff.1 hmap
    exact ⟨rfl, rfl, _, ht⟩
  | text =>
    obtain ⟨hplain, heq⟩ := Option.ite_none_right_eq_some.1 h
    cases heq
    refine ⟨rfl, ?_, trivial⟩
    rw [isStorable, String.toList_ofList]
    exact hplain

end Value

/-! ### Lists of values -/

namespace Editing

theorem readItem_eq_ok_iff {variant : Variant} {item : List Char} {v : Value} :
    readItem variant item = .ok v ↔ readItem? item variant = some v := by
  rw [readItem]
  cases readItem? item variant with
  | none => exact ⟨fun h => (nomatch h), fun h => (nomatch h)⟩
  | some found => exact ⟨fun h => by cases h; rfl, fun h => by cases h; rfl⟩

theorem of_read {text : String} {variant : Variant} {values : List Value}
    (h : read text variant = .ok values) :
    ∀ v ∈ values, v.variant = variant ∧ v.isStorable = true ∧ v.IsRead := by
  obtain ⟨found, _, hmap⟩ := bind_eq_ok_iff.1 h
  intro v hv
  obtain ⟨item, _, hitem⟩ := exists_of_forall₂_of_mem (mapM_eq_ok_iff.1 hmap) hv
  exact Value.isStorable_of_readItem? (readItem_eq_ok_iff.1 hitem)

theorem read_format {values : List Value} {variant : Variant} (hall : AllOf variant values)
    (hstorable : ∀ v ∈ values, v.isStorable = true) (hread : ∀ v ∈ values, v.IsRead) :
    read (format values) variant = .ok values := by
  have hitems := items_format fun v hv => Value.isLiteral_shown (hstorable v hv)
  refine bind_eq_ok_iff.2 ⟨_, hitems, mapM_eq_ok_iff.2 ?_⟩
  rw [List.forall₂_map_left_iff, List.forall₂_same]
  intro v hv
  rw [readItem_eq_ok_iff, ← hall v hv]
  exact Value.readItem?_shown (hstorable v hv) (hread v hv)

/-- Values of one variant are read back from the text that shows them exactly when they can be
stored. What is read from any text can be stored, and is read again from the text that shows it. -/
theorem read_format_iff :
    (∀ (values : List Value) (variant : Variant), AllOf variant values → (∀ v ∈ values, v.IsRead) →
      (read (format values) variant = .ok values ↔ ∀ v ∈ values, v.isStorable = true)) ∧
    (∀ variant : Variant, read (format []) variant = .ok []) ∧
    ∀ (text : String) (variant : Variant) (values : List Value), read text variant = .ok values →
      AllOf variant values ∧ (∀ v ∈ values, v.isStorable = true) ∧
        read (format values) variant = .ok values := by
  refine ⟨?_, ?_, ?_⟩
  · intro values variant hall hread
    exact ⟨fun h v hv => (of_read h v hv).2.1, fun hstorable => read_format hall hstorable hread⟩
  · intro variant
    exact read_format (fun _ hv => nomatch hv) (fun _ hv => nomatch hv) (fun _ hv => nomatch hv)
  · intro text variant values h
    have hvalues := of_read h
    have hall : AllOf variant values := fun v hv => (hvalues v hv).1
    have hstorable : ∀ v ∈ values, v.isStorable = true := fun v hv => (hvalues v hv).2.1
    exact ⟨hall, hstorable, read_format hall hstorable fun v hv => (hvalues v hv).2.2⟩

/-- Offsets and the sign of zero are kept; a text with the mark of a timestamp does not come
back. -/
theorem read_format_of_offsets :
    (∃ values, read "[#2024-05-01T12:00+02:00,, 2020-02 ]" .timestamp = .ok values ∧
      read (format values) .timestamp = .ok values) ∧
    read (format [.number (.finite true .zero), .number .zero]) .number
      = .ok [.number (.finite true .zero), .number .zero] ∧
    read (format [.text "plain", .text "#2020"]) .text ≠ .ok [.text "plain", .text "#2020"] := by
  obtain ⟨hformat, _, hread⟩ := read_format_iff
  refine ⟨?_, ?_, ?_⟩
  · cases h : read "[#2024-05-01T12:00+02:00,, 2020-02 ]" .timestamp with
    | error e =>
      have hok : (read "[#2024-05-01T12:00+02:00,, 2020-02 ]" .timestamp).toBool = true := by
        decide +kernel
      rw [h] at hok
      cases hok
    | ok values => exact ⟨values, rfl, (hread _ _ values h).2.2⟩
  · have hall : AllOf .number [.number (.finite true .zero), .number .zero] := by
      simp [AllOf, Value.variant]
    have hstorable : ∀ v ∈ [Value.number (.finite true .zero), .number .zero],
        v.isStorable = true := by
      simp [Value.isStorable, Number.isFinite, Number.zero]
    exact (hformat _ _ hall (by simp [Value.IsRead])).2 hstorable
  · have hall : AllOf .text [.text "plain", .text "#2020"] := by
      simp [AllOf, Value.variant]
    intro h
    have hstorable := (hformat _ _ hall (by simp [Value.IsRead])).1 h (.text "#2020") (by simp)
    exact absurd hstorable (by decide)

end Editing

/-! ### Timestamps -/

namespace Timestamp

/-- What has been read as a timestamp is written to a text that is read as the same timestamp, with
its instant and its offset, and so is written in the same way again. With the mark in front the text
is a literal and an item of edited text, by itself or in a list. -/
theorem text_read_back {s : List Char} {t : Timestamp} (h : ofText? s = some t) :
    (∃ u, ofText? t.text = some u ∧ u.unixSeconds = t.unixSeconds ∧
      u.clock.nanosecond = t.clock.nanosecond ∧ u.offset = t.offset ∧ u.text = t.text) ∧
    isLiteral ('#' :: t.text) = true ∧
    Editing.readItem? ('#' :: t.text) .timestamp = some (.timestamp t) ∧
    Editing.read (String.ofList ('#' :: t.text)) .timestamp = .ok [.timestamp t] := by
  have hread := ofText?_text (isPlain_of_ofText? h)
  have hitem : Editing.readItem? ('#' :: t.text) .timestamp = some (.timestamp t) := by
    have hshown := Value.readItem?_shown (v := .timestamp t) rfl ⟨s, h⟩
    rwa [Value.shown, String.toList_ofList] at hshown
  refine ⟨⟨t, hread, rfl, rfl, rfl, rfl⟩, t.isLiteral_text, hitem, ?_⟩
  refine bind_eq_ok_iff.2 ⟨_, Editing.items_of_isLiteral t.isLiteral_text, mapM_eq_ok_iff.2 ?_⟩
  exact .cons (Editing.readItem_eq_ok_iff.2 hitem) .nil

/-- A text in the basic form, whose instant lies in the year before its date, is written with all
separators. -/
theorem text_read_back_of_basic_form : ∃ t, ofText? "00000101T003007,25+2359".toList = some t ∧
    t.text = "0000-01-01T00:30:07.250+23:59".toList ∧
    (∃ u, ofText? t.text = some u ∧ u.unixSeconds = t.unixSeconds ∧
      u.clock.nanosecond = t.clock.nanosecond ∧ u.offset = t.offset ∧ u.text = t.text) ∧
    Editing.read "#0000-01-01T00:30:07.250+23:59" .timestamp = .ok [.timestamp t] := by
  cases h : ofText? "00000101T003007,25+2359".toList with
  | none =>
    have hsome : (ofText? "00000101T003007,25+2359".toList).isSome = true := by decide +kernel
    rw [h] at hsome
    cases hsome
  | some t =>
    have htext : t.text = "0000-01-01T00:30:07.250+23:59".toList := by
      have hshown : (ofText? "00000101T003007,25+2359".toList).map text
          = some "0000-01-01T00:30:07.250+23:59".toList := by decide +kernel
      rw [h] at hshown
      exact Option.some.inj hshown
    obtain ⟨hread, _, _, hitem⟩ := text_read_back h
    rw [htext] at hitem
    exact ⟨t, rfl, htext, hread, hitem⟩

end Timestamp

end SidecarIndex

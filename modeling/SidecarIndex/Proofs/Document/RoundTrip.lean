import SidecarIndex.Document.Basic
import SidecarIndex.Proofs.Document.Storable
import SidecarIndex.Proofs.Json.Number
import SidecarIndex.Proofs.Json.Printer
import SidecarIndex.Proofs.Timestamp.Printer

/-! # Side-cars are read back

The text of any document is a JSON object of lists. Reading it gives the document again exactly when
the document can be stored; in any other document something is lost, or the text is refused. -/

namespace SidecarIndex

/-! ### Where a value was written -/

/-- What is read where a value was written. A number that is not finite has no text of its own. -/
inductive Value.WrittenAs : Value → Json → Prop where
  | number (negative : Bool) (m : Magnitude) (whole? : Option Int) :
    WrittenAs (.number (.finite negative m)) (.number (.finite negative m) whole?)
  | noNumber (n : Number) (h : n.isFinite = false) : WrittenAs (.number n) .null
  | text (s : String) : WrittenAs (.text s) (.string s)
  | boolean (b : Bool) : WrittenAs (.boolean b) (.boolean b)
  | timestamp (t : Timestamp) : WrittenAs (.timestamp t) (.string (String.ofList ('#' :: t.text)))

namespace Json

theorem EndsItem.endsNumber {s : List Char} (h : EndsItem s) : EndsNumber s := by
  obtain ⟨tail, rfl | rfl⟩ := h
  · intro c hc
    cases hc
    decide
  · intro c hc
    cases hc
    decide

theorem head_of_scalar {s : List Char} {r : Json × List Char} (h : scalar s = .ok r) :
    ∃ c tail, s = c :: tail ∧ isSpace c = false ∧ c ≠ ']' ∧ c ≠ '[' ∧ c ≠ '{' := by
  cases s with
  | nil => cases h
  | cons c tail =>
    have hother : ∀ d ∈ [' ', '\t', '\n', '\r', ']', '[', '{'], c ≠ d := by
      intro d hd heq
      subst heq
      simp only [List.mem_cons, List.not_mem_nil, or_false] at hd
      rcases hd with rfl | rfl | rfl | rfl | rfl | rfl | rfl
      all_goals cases h
    simp only [List.forall_mem_cons] at hother
    obtain ⟨hspace, htab, hfeed, hreturn, hclose, hlist, hobject, _⟩ := hother
    refine ⟨c, tail, rfl, ?_, hclose, hlist, hobject⟩
    simp [isSpace, hspace, htab, hfeed, hreturn]

theorem value_of_scalar {depth : Nat} {s : List Char} {r : Json × List Char}
    (h : scalar s = .ok r) : value depth s = .ok r := by
  obtain ⟨c, tail, rfl, hspace, _, hlist, hobject⟩ := head_of_scalar h
  have hskip : skipSpace (c :: tail) = c :: tail := skipSpace_of_head hspace
  cases depth with
  | zero =>
    rw [value, hskip]
    split
    · rename_i heq
      cases heq
      exact absurd rfl hlist
    · rename_i heq
      cases heq
      exact absurd rfl hobject
    · exact h
  | succ depth =>
    rw [value, hskip]
    split
    · rename_i heq
      cases heq
      exact absurd rfl hlist
    · rename_i heq
      cases heq
      exact absurd rfl hobject
    · exact h

theorem scalar_writtenString (s : List Char) (rest : List Char) :
    scalar (writtenString s ++ rest) = .ok (.string (String.ofList s), rest) := by
  rw [writtenString_append, scalar, string?, characters_written]
  rfl

end Json

theorem Value.scalar_sidecarText (v : Value) {rest : List Char} (h : Json.EndsItem rest) :
    ∃ json, Json.scalar (v.sidecarText ++ rest) = .ok (json, rest) ∧ v.WrittenAs json := by
  cases v with
  | number n =>
    cases n with
    | nan => exact ⟨.null, rfl, .noNumber _ rfl⟩
    | infinite negative => exact ⟨.null, rfl, .noNumber _ rfl⟩
    | finite negative m =>
      obtain ⟨whole?, hread⟩ := Json.scalar_sidecarText negative m h.endsNumber
      exact ⟨_, hread, .number negative m whole?⟩
  | text s =>
    refine ⟨.string s, ?_, .text s⟩
    rw [sidecarText, Json.scalar_writtenString, String.ofList_toList]
  | boolean b =>
    refine ⟨.boolean b, ?_, .boolean b⟩
    cases b with
    | true => rfl
    | false => rfl
  | timestamp t => exact ⟨_, Json.scalar_writtenString _ _, .timestamp t⟩

theorem Value.readsItem (depth : Nat) (v : Value) :
    Json.ReadsItem (Json.value depth) sidecarText WrittenAs v := by
  intro rest hrest
  obtain ⟨json, hread, hwritten⟩ := v.scalar_sidecarText hrest
  obtain ⟨c, tail, hs, hspace, hclose, _⟩ := Json.head_of_scalar hread
  exact ⟨⟨c, tail, hs, hspace, hclose⟩, json, Json.value_of_scalar hread, hwritten⟩

namespace Document

/-! ### Where a document was written -/

/-- What is read where an attribute was written: its name with a list. -/
def EntryWrittenAs (entry : String × List Value) (member : String × Json) : Prop :=
  member.1 = entry.1 ∧ ∃ items, member.2 = .array items ∧ List.Forall₂ Value.WrittenAs entry.2 items

def listText (entry : String × List Value) : List Char :=
  Json.block '[' ']' 2 (entry.2.map Value.sidecarText)

theorem readsMember_entry (depth : Nat) (entry : String × List Value) :
    Json.ReadsMember (Json.namedValue (depth + 1)) Prod.fst listText EntryWrittenAs entry := by
  intro rest hrest
  obtain ⟨tail, htext, items, hread, hitems⟩ := Json.elements_block
    (fun v (_ : v ∈ entry.2) => v.readsItem depth) 2 rest
  have hskip : Json.skipSpace (' ' :: '[' :: tail) = '[' :: tail := rfl
  refine ⟨(entry.1, .array items), ?_, rfl, items, rfl, hitems⟩
  rw [listText, htext, Json.namedValue, Json.value, hskip]
  simp only [hread]
  rfl

/-- As JSON, the text of a document is an object of lists. -/
theorem ofText?_text (d : Document) {behind : List Char} (h : ∀ c ∈ behind, Json.isSpace c = true) :
    ∃ members, Json.ofText? (d.text.toList ++ behind) = some (.object members) ∧
      List.Forall₂ EntryWrittenAs d.entries members := by
  obtain ⟨tail, htext, members, hread, hmembers⟩ := Json.members_block
    (fun entry (_ : entry ∈ d.entries) => readsMember_entry 125 entry) id 0 behind
  have hentries : d.text.toList ++ behind = '{' :: tail := by
    rw [text, String.toList_ofList]
    exact htext
  refine ⟨members, Json.ofText?_eq_some_iff.2 ⟨behind, ?_, ?_⟩, hmembers⟩
  · exact Json.value_succ_object_iff.2 ⟨tail, by rw [hentries]; rfl, hread⟩
  · have hall : behind.dropWhile Json.isSpace = [] := by
      simpa using h
    exact hall

end Document

/-! ### Pairs of a written document -/

def Value.raw : Value → RawScalar
  | .number n => .number n
  | .text s => .string s
  | .boolean b => .boolean b
  | .timestamp t => .string (String.ofList ('#' :: t.text))

/-- A value that is no number, or a finite one. -/
def Value.HasText (v : Value) : Prop := ∀ n, v = .number n → n.isFinite = true

theorem Value.WrittenAs.stands_iff {v : Value} {json : Json} (h : v.WrittenAs json)
    {scalar : RawScalar} : RawScalar.Stands json scalar ↔ scalar = v.raw ∧ v.HasText := by
  apply Iff.intro
  · intro hstands
    cases h with
    | noNumber n hn => cases hstands
    | number negative m whole? =>
      cases hstands
      exact ⟨rfl, fun n hn => by cases hn; rfl⟩
    | text s =>
      cases hstands
      exact ⟨rfl, fun n hn => by cases hn⟩
    | boolean b =>
      cases hstands
      exact ⟨rfl, fun n hn => by cases hn⟩
    | timestamp t =>
      cases hstands
      exact ⟨rfl, fun n hn => by cases hn⟩
  · intro hraw
    obtain ⟨rfl, htext⟩ := hraw
    cases h with
    | noNumber n hn =>
      rw [htext n rfl] at hn
      cases hn
    | number negative m whole? => exact .number _ _
    | text s => exact .string _
    | boolean b => exact .boolean _
    | timestamp t => exact .string _

def Document.rawPair (entry : String × List Value) : RawPair := (entry.1, entry.2.map Value.raw)

namespace Document

theorem EntryWrittenAs.stands_iff {entry : String × List Value} {member : String × Json}
    (h : EntryWrittenAs entry member) {pair : RawPair} :
    RawPair.Stands member pair ↔ pair = rawPair entry ∧ ∀ v ∈ entry.2, v.HasText := by
  obtain ⟨hname, items, hitems, hwritten⟩ := h
  have hscalars : ∀ scalars, List.Forall₂ RawScalar.Stands items scalars ↔
      scalars = entry.2.map Value.raw ∧ ∀ v ∈ entry.2, v.HasText :=
    fun scalars => forall₂_iff_map (fun _ _ _ hv => hv.stands_iff) hwritten
  obtain ⟨name, scalars⟩ := pair
  apply Iff.intro
  · intro hstands
    obtain ⟨hpair, items', heq, hstands⟩ := hstands
    cases hitems.symm.trans heq
    obtain ⟨rfl, htext⟩ := (hscalars scalars).1 hstands
    exact ⟨Prod.ext (hpair.symm.trans hname) rfl, htext⟩
  · intro hpair
    obtain ⟨heq, htext⟩ := hpair
    cases heq
    exact ⟨hname, items, hitems, (hscalars _).2 ⟨rfl, htext⟩⟩

/-- The text of a document has the shape of a side-car unless a number in it is not finite. -/
theorem reads_text_iff (d : Document) {behind : List Char}
    (h : ∀ c ∈ behind, Json.isSpace c = true) {pairs : List RawPair} :
    RawPair.Reads (d.text.toList ++ behind) pairs ↔
      pairs = d.entries.map rawPair ∧ ∀ entry ∈ d.entries, ∀ v ∈ entry.2, v.HasText := by
  obtain ⟨members, hwhole, hmembers⟩ := d.ofText?_text h
  rw [← forall₂_iff_map (fun _ _ _ hentry => hentry.stands_iff) hmembers, RawPair.Reads, hwhole]
  apply Iff.intro
  · intro hreads
    obtain ⟨members', heq, hpairs⟩ := hreads
    cases heq
    exact hpairs
  · exact fun hpairs => ⟨members, rfl, hpairs⟩

end Document

/-! ### Reading a written value -/

theorem Value.raw_reading? {v : Value} (hstorable : v.isStorable = true) (hread : v.IsRead) :
    v.raw.reading? = some v := by
  cases v with
  | number n => rfl
  | boolean b => rfl
  | text s =>
    simp only [isStorable, isPlainLiteral, Bool.and_eq_true, bne_iff_ne, ne_eq] at hstorable
    obtain ⟨hmark, hliteral⟩ := hstorable
    rw [raw, RawScalar.reading?, if_neg (by simp [hliteral]), if_neg hmark]
  | timestamp t =>
    obtain ⟨s, hs⟩ := hread
    have hplain := Timestamp.isPlain_of_ofText? hs
    have hliteral := t.isLiteral_text
    rw [raw, RawScalar.reading?, String.toList_ofList, if_neg (by simp [hliteral]), List.head?_cons,
      if_pos rfl, List.tail_cons, Timestamp.ofText?_text hplain]
    rfl

/-- Two values are equal: as numbers, as texts, as booleans, or in instant and in offset. -/
def Value.Agrees : Value → Value → Prop
  | .timestamp a, .timestamp b => a.same b = true ∧ a.offset = b.offset
  | v, w => v.same w = true

theorem Value.Agrees.same {v w : Value} (h : v.Agrees w) : v.same w = true := by
  cases v with
  | timestamp t =>
    cases w with
    | timestamp u => exact h.1
    | number _ => exact h
    | text _ => exact h
    | boolean _ => exact h
  | number _ => exact h
  | text _ => exact h
  | boolean _ => exact h

theorem Value.variant_eq_of_same {v w : Value} (h : v.same w = true) : v.variant = w.variant := by
  cases v
  all_goals cases w
  all_goals first | rfl | cases h

theorem Number.same_self {n : Number} (h : n.isFinite = true) : n.same n = true := by
  have hplace : ∃ place, n.place? = some place := by
    cases n with
    | nan => cases h
    | infinite negative => cases h
    | finite negative m =>
      cases negative with
      | false => exact ⟨_, rfl⟩
      | true => exact ⟨_, rfl⟩
  obtain ⟨place, hplace⟩ := hplace
  simp [same, compare?, hplace]

theorem Value.agrees_self {v : Value} (h : v.isStorable = true) : v.Agrees v := by
  cases v with
  | number n => exact Number.same_self h
  | text s => exact beq_self_eq_true s
  | boolean b => exact beq_self_eq_true b
  | timestamp t => exact ⟨(t.compare_eq_iff_same t).1 (by simp [Timestamp.compare]), rfl⟩

/-- A value that is read back as an equal one can be stored, and some text denotes it. -/
theorem Value.isStored_of_same {v w : Value} (htext : v.HasText) (hread : v.raw.reading? = some w)
    (h : v.same w = true) : v.isStorable = true ∧ v.IsRead := by
  cases v with
  | number n => exact ⟨htext n rfl, trivial⟩
  | boolean b => exact ⟨rfl, trivial⟩
  | timestamp t =>
    rw [raw, RawScalar.reading?, String.toList_ofList, if_neg (by simp [t.isLiteral_text]),
      List.head?_cons, if_pos rfl, List.tail_cons] at hread
    obtain ⟨u, hu, rfl⟩ := Option.map_eq_some_iff.1 hread
    have hplain := Timestamp.ofText?_text_same_iff.1 ⟨u, hu, h⟩
    exact ⟨rfl, t.text, Timestamp.ofText?_text hplain⟩
  | text s =>
    rw [raw, RawScalar.reading?] at hread
    by_cases hliteral : isLiteral s.toList = false
    · rw [if_pos hliteral] at hread
      cases hread
    · rw [if_neg hliteral] at hread
      by_cases hmark : s.toList.head? = some '#'
      · rw [if_pos hmark] at hread
        obtain ⟨t, _, rfl⟩ := Option.map_eq_some_iff.1 hread
        cases h
      · simp only [Bool.not_eq_false] at hliteral
        exact ⟨by simp [isStorable, isPlainLiteral, hliteral, hmark], trivial⟩

theorem Value.sameList_iff {values others : List Value} :
    sameList values others = true ↔ List.Forall₂ (fun v w => v.same w = true) values others := by
  induction values generalizing others with
  | nil =>
    cases others with
    | nil => simp [sameList]
    | cons w others => simp [sameList]
  | cons v values ih =>
    cases others with
    | nil => simp [sameList]
    | cons w others => simp [sameList, ih]

/-! ### Reading a written document -/

namespace Document

/-- Two documents have the same attributes with equal values. -/
def Agrees (d e : Document) : Prop :=
  List.Forall₂ (fun a b => a.1 = b.1 ∧ List.Forall₂ Value.Agrees a.2 b.2) d.entries e.entries

theorem readings_rawPair {entry : String × List Value}
    (h : ∀ v ∈ entry.2, v.raw.reading? = some v) : (rawPair entry).readings = entry.2 := by
  rw [RawPair.readings, rawPair, List.filterMap_map]
  refine (List.filterMap_congr ?_).trans List.filterMap_some
  exact h

theorem names_rawPair (d : Document) :
    (d.entries.map rawPair).map Prod.fst = d.entries.map Prod.fst := by
  rw [List.map_map]
  rfl

theorem isSpace_lineEnd {c : Char} (h : c ∈ "\n".toList) : Json.isSpace c = true := by
  have hc : c = '\n' := List.mem_singleton.1 h
  rw [hc]
  rfl

theorem ofText_text_append {d : Document} (hstorable : d.IsStorable) (hread : d.IsRead)
    {behind : String} (h : ∀ c ∈ behind.toList, Json.isSpace c = true) :
    ofText (d.text ++ behind) = .ok d := by
  have hreading : ∀ entry ∈ d.entries, ∀ v ∈ entry.2, v.raw.reading? = some v :=
    fun entry hentry v hv =>
      Value.raw_reading? ((hstorable entry hentry).storable v hv) (hread entry hentry v hv)
  have hreads : RawPair.Reads (d.text ++ behind).toList (d.entries.map rawPair) := by
    rw [String.toList_append]
    refine (d.reads_text_iff h).2 ⟨rfl, ?_⟩
    intro entry hentry v hv n hn
    have hfinite := (hstorable entry hentry).storable v hv
    rw [hn] at hfinite
    exact hfinite
  have hproblems : RawPair.allProblems [] (d.entries.map rawPair) = [] := by
    refine RawPair.allProblems_eq_nil_iff.2 ⟨?_, ?_⟩
    · rw [names_rawPair]
      exact d.attributes.nodup_keys
    · intro pair hpair
      obtain ⟨entry, hentry, rfl⟩ := List.mem_map.1 hpair
      refine ⟨List.not_mem_nil, (hstorable entry hentry).isName, ?_, ?_⟩
      · intro scalar hscalar
        obtain ⟨v, hv, rfl⟩ := List.mem_map.1 hscalar
        exact ⟨v, hreading entry hentry v hv⟩
      · rw [readings_rawPair (hreading entry hentry)]
        exact (hstorable entry hentry).homogeneous
  have hentries : (d.entries.map rawPair).map (fun pair => (pair.1, pair.readings))
      = d.entries := by
    rw [List.map_map]
    refine (List.map_congr_left ?_).trans (List.map_id _)
    intro entry hentry
    exact Prod.ext rfl (readings_rawPair (hreading entry hentry))
  rw [ofText_of_reads hreads]
  refine ofPairs_eq_ok_iff.2 ⟨hproblems, ?_⟩
  rw [hentries]
  exact congrArg Document.mk (OrderedMap.ofList_entries d.attributes).symm

theorem ofText_text {d : Document} (hstorable : d.IsStorable) (hread : d.IsRead) :
    ofText d.text = .ok d := by
  have hempty : ofText (d.text ++ "") = .ok d :=
    ofText_text_append hstorable hread fun _ hc => absurd hc List.not_mem_nil
  rwa [String.append_empty] at hempty

theorem same_iff {d e : Document} : d.same e = true ↔
    List.Forall₂ (fun a b => a.1 = b.1 ∧ List.Forall₂ (fun v w => v.same w = true) a.2 b.2)
      d.entries e.entries := by
  have hentries : ∀ {entries others : List (String × List Value)},
      sameEntries entries others = true ↔
      List.Forall₂ (fun a b => a.1 = b.1 ∧ List.Forall₂ (fun v w => v.same w = true) a.2 b.2)
        entries others := by
    intro entries
    induction entries with
    | nil =>
      intro others
      cases others with
      | nil => simp [sameEntries]
      | cons b others => simp [sameEntries]
    | cons a entries ih =>
      intro others
      cases others with
      | nil => simp [sameEntries]
      | cons b others => simp [sameEntries, ih, Value.sameList_iff]
  exact hentries

theorem Agrees.same {d e : Document} (h : d.Agrees e) : d.same e = true :=
  same_iff.2 (h.imp fun _ _ hentry => ⟨hentry.1, hentry.2.imp fun _ _ hv => hv.same⟩)

theorem same_of_readings {values : List Value}
    (hreading : ∀ v ∈ values, ∃ w, v.raw.reading? = some w)
    (h : List.Forall₂ (fun v w => v.same w = true) values
      ((values.map Value.raw).filterMap RawScalar.reading?)) :
    ∀ v ∈ values, ∃ w, v.raw.reading? = some w ∧ v.same w = true := by
  induction values with
  | nil => exact fun _ hv => absurd hv List.not_mem_nil
  | cons v values ih =>
    obtain ⟨w, hw⟩ := hreading v (List.mem_cons_self ..)
    rw [List.map_cons, List.filterMap_cons_some hw, List.forall₂_cons] at h
    obtain ⟨hvw, hrest⟩ := h
    intro u hu
    rcases List.mem_cons.1 hu with rfl | hu
    · exact ⟨w, hw, hvw⟩
    · exact ih (fun x hx => hreading x (List.mem_cons_of_mem _ hx)) hrest u hu

/-- A document that is read back as an equal one can be stored, and its timestamps have texts. -/
theorem isStored_of_same {d e : Document} (hread : ofText d.text = .ok e) (h : d.same e = true) :
    d.IsStorable ∧ d.IsRead := by
  obtain ⟨pairs, hreads, hok⟩ := ofText_eq_ok_iff.1 hread
  have hreads' : RawPair.Reads (d.text.toList ++ []) pairs := by
    rwa [List.append_nil]
  obtain ⟨rfl, htext⟩ := (d.reads_text_iff fun _ hc => absurd hc List.not_mem_nil).1 hreads'
  have hsound := (RawPair.allProblems_eq_nil_iff.1 (ofPairs_eq_ok_iff.1 hok).1).2
  have hattribute : ∀ entry ∈ d.entries, isName entry.1.toList = true ∧
      (∃ variant, AllOf variant (rawPair entry).readings) ∧
      ∀ v ∈ entry.2, ∃ w, v.raw.reading? = some w ∧ v.same w = true := by
    intro entry hentry
    obtain ⟨other, hother, hname, hvalues⟩ := exists_of_forall₂_of_mem (same_iff.1 h).flip hentry
    -- The other document has, under this name, what is read from the pair of this entry.
    obtain ⟨pair, hpair, hpairName, hreadings⟩ :=
      (get?_of_ofPairs hok).1 (OrderedMap.mem_entries_iff.1 hother)
    obtain ⟨entry', hentry', rfl⟩ := List.mem_map.1 hpair
    have hsame : entry' = entry := by
      have hfirst := OrderedMap.mem_entries_iff.1 hentry'
      have hsecond := OrderedMap.mem_entries_iff.1 hentry
      have hnames : entry'.1 = entry.1 := hpairName.trans hname.symm
      rw [hnames] at hfirst
      exact Prod.ext hnames (Option.some.inj (hfirst.symm.trans hsecond))
    subst hsame
    have hpairSound := (hsound _ hpair).2
    rw [← hreadings] at hvalues
    exact ⟨hpairSound.isName, hpairSound.homogeneous,
      same_of_readings (fun v hv => hpairSound.reading _ (List.mem_map.2 ⟨v, hv, rfl⟩)) hvalues⟩
  refine ⟨fun entry hentry => ?_, fun entry hentry v hv => ?_⟩
  · obtain ⟨hname, ⟨variant, hall⟩, hvalues⟩ := hattribute entry hentry
    refine ⟨hname, ⟨variant, fun v hv => ?_⟩, fun v hv => ?_⟩
    · obtain ⟨w, hw, hvw⟩ := hvalues v hv
      have hmem : w ∈ (rawPair entry).readings :=
        List.mem_filterMap.2 ⟨v.raw, List.mem_map.2 ⟨v, hv, rfl⟩, hw⟩
      exact (Value.variant_eq_of_same hvw).trans (hall w hmem)
    · obtain ⟨w, hw, hvw⟩ := hvalues v hv
      exact (Value.isStored_of_same (htext entry hentry v hv) hw hvw).1
  · obtain ⟨_, _, hvalues⟩ := hattribute entry hentry
    obtain ⟨w, hw, hvw⟩ := hvalues v hv
    exact (Value.isStored_of_same (htext entry hentry v hv) hw hvw).2

theorem isStorable_of_agrees {d e : Document} (hread : ofText d.text = .ok e) (h : d.Agrees e) :
    d.IsStorable := (isStored_of_same hread h.same).1

theorem agrees_self {d : Document} (h : d.IsStorable) : d.Agrees d := by
  refine List.forall₂_same.2 fun entry hentry => ⟨rfl, List.forall₂_same.2 fun v hv => ?_⟩
  exact Value.agrees_self ((h entry hentry).storable v hv)

/-- Whatever a document holds, its text is read as an equal document exactly when it can be stored
and some text denotes each of its timestamps. -/
theorem ofText_text_same_iff (d : Document) :
    (∃ e, ofText d.text = .ok e ∧ d.same e = true) ↔ d.IsStorable ∧ d.IsRead := by
  apply Iff.intro
  · intro h
    obtain ⟨e, hread, hsame⟩ := h
    exact isStored_of_same hread hsame
  · intro h
    exact ⟨d, ofText_text h.1 h.2, (agrees_self h.1).same⟩

/-- Reading the text of a document gives the same attributes with equal values exactly when the
document can be stored. What has been read from a side-car is written to a text that gives it again,
also with a line end behind it. -/
theorem ofText_text_iff_isStorable :
    (∀ d : Document, d.IsRead → ((∃ e, ofText d.text = .ok e ∧ d.Agrees e) ↔ d.IsStorable)) ∧
    ∀ (text : String) (d : Document), ofText text = .ok d →
      ofText d.text = .ok d ∧ ofText (d.text ++ "\n") = .ok d := by
  refine ⟨?_, ?_⟩
  · intro d hread
    apply Iff.intro
    · intro h
      obtain ⟨e, he, hagrees⟩ := h
      exact isStorable_of_agrees he hagrees
    · intro hstorable
      exact ⟨d, ofText_text hstorable hread, agrees_self hstorable⟩
  · intro text d h
    obtain ⟨hstorable, hread⟩ := isStorable_of_ofText h
    exact ⟨ofText_text hstorable hread, ofText_text_append hstorable hread fun _ => isSpace_lineEnd⟩

/-- A side-car with every kind of value is written and read back; once a text with the mark of a
timestamp has been put into its document, it is not. -/
theorem ofText_text_of_note :
    ∃ d, ofText "\x7b\"due\": [\"#2024-05-01T12:00+02:00\"], \"rating\": [0.1, -0.0]\x7d" = .ok d ∧
      ofText d.text = .ok d ∧ ofText (d.text ++ "\n") = .ok d ∧
      ¬ ∃ e, ofText (d.set "mark" [.text "#2020"]).text = .ok e ∧
        (d.set "mark" [.text "#2020"]).Agrees e := by
  cases h : ofText "\x7b\"due\": [\"#2024-05-01T12:00+02:00\"], \"rating\": [0.1, -0.0]\x7d" with
  | error e =>
    have hok : (ofText
        "\x7b\"due\": [\"#2024-05-01T12:00+02:00\"], \"rating\": [0.1, -0.0]\x7d").toBool
        = true := by decide +kernel
    rw [h] at hok
    cases hok
  | ok d =>
    obtain ⟨hread, hline⟩ := ofText_text_iff_isStorable.2 _ d h
    refine ⟨d, rfl, hread, hline, ?_⟩
    have hset : (d.set "mark" [.text "#2020"]).IsRead :=
      isRead_set (isStorable_of_ofText h).2 (by simp [Value.IsRead])
    intro hagrees
    have hstorable := (ofText_text_iff_isStorable.1 _ hset).1 hagrees
    have hmark := (hstorable ("mark", [.text "#2020"]) (mem_entries_set.2 (.inl rfl))).storable
      (.text "#2020") (List.mem_singleton.2 rfl)
    exact absurd hmark (by decide)

end Document

end SidecarIndex

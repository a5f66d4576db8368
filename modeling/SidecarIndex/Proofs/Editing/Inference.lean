import SidecarIndex.Proofs.Readings

/-! # The variant that a text suggests

An edited text suggests the first variant, in a fixed order, in which all of its items are read.
Booleans, numbers and marked timestamps have no text in common, so that shown values suggest their
own variant again. Only texts may suggest another one, when all of them look like booleans or all
like numbers. -/

namespace SidecarIndex

/-! ### No boolean is a number -/

theorem Text.toLower_of_isDigit {c : Char} (h : c.isDigit = true) : c.toLower = c := by
  apply dif_neg
  simp only [Char.isDigit, Bool.and_eq_true, decide_eq_true_eq] at h
  grind

theorem Decimal.ofText?_eq_none_of_head {c : Char} {s : List Char} (hdigit : c.isDigit = false)
    (hpoint : c ≠ '.') : ofText? (c :: s) = none := by
  have hdigits : ¬ c.isDigit = true := by simp [hdigit]
  rw [ofText?, List.takeWhile_cons_of_neg hdigits, List.dropWhile_cons_of_neg hdigits]
  simp [hpoint]

/-- A letter with which a boolean starts. -/
def Value.IsBooleanLetter (c : Char) : Prop := c.toLower = 't' ∨ c.toLower = 'f'

instance (c : Char) : Decidable (Value.IsBooleanLetter c) := inferInstanceAs (Decidable (_ ∨ _))

theorem Value.exists_letter_of_readBoolean? {s : List Char} {b : Bool}
    (h : readBoolean? s = some b) : ∃ c rest, s = c :: rest ∧ IsBooleanLetter c := by
  have hfold : Text.fold s = "true".toList ∨ Text.fold s = "false".toList := by
    unfold readBoolean? at h
    split at h
    · rename_i htrue
      exact .inl (beq_iff_eq.1 htrue)
    · exact .inr (beq_iff_eq.1 (Option.ite_none_right_eq_some.1 h).1)
  cases s with
  | nil =>
    rcases hfold with heq | heq
    all_goals cases heq
  | cons c rest =>
    refine ⟨c, rest, rfl, ?_⟩
    rcases hfold with heq | heq
    · exact .inl (List.cons.inj heq).1
    · exact .inr (List.cons.inj heq).1

namespace Number

variable {c : Char} {s : List Char}

theorem sameFolded_eq_false_of_letter (hletter : Value.IsBooleanLetter c) {d : Char}
    {word : List Char} (hd : ¬ Value.IsBooleanLetter d) :
    Text.sameFolded (c :: s) (d :: word) = false := by
  rw [Text.sameFolded, beq_eq_false_iff_ne]
  intro heq
  have hlower : c.toLower = d.toLower := (List.cons.inj heq).1
  rw [Value.IsBooleanLetter, hlower] at hletter
  exact hd hletter

/-- Neither a sign, a digit and a point nor one of the words for numbers starts with such a
letter. -/
theorem ofText?_eq_none_of_letter (hletter : Value.IsBooleanLetter c) :
    ofText? (c :: s) = none := by
  have hne : ∀ d : Char, ¬ Value.IsBooleanLetter d → c ≠ d := by
    intro d hd heq
    exact hd (heq ▸ hletter)
  have hdigit : c.isDigit = false := by
    by_contra hdigit
    have hlower := Text.toLower_of_isDigit (by simpa using hdigit)
    rw [Value.IsBooleanLetter, hlower] at hletter
    rcases hletter with rfl | rfl
    all_goals exact hdigit (by decide)
  have hinf : Text.sameFolded (c :: s) "inf".toList = false :=
    sameFolded_eq_false_of_letter hletter (by decide)
  have hinfinity : Text.sameFolded (c :: s) "infinity".toList = false :=
    sameFolded_eq_false_of_letter hletter (by decide)
  have hnan : Text.sameFolded (c :: s) "nan".toList = false :=
    sameFolded_eq_false_of_letter hletter (by decide)
  have hunsigned : ofUnsignedText? false (c :: s) = none := by
    rw [ofUnsignedText?, Decimal.ofText?_eq_none_of_head hdigit (hne '.' (by decide))]
    dsimp only
    rw [hinf, hinfinity, hnan, Bool.or_self, if_neg Bool.false_ne_true, if_neg Bool.false_ne_true]
  unfold ofText?
  split
  · rename_i heq
    exact absurd (List.cons.inj heq).1 (hne '-' (by decide))
  · rename_i heq
    exact absurd (List.cons.inj heq).1 (hne '+' (by decide))
  · exact hunsigned

end Number

namespace Editing

/-! ### Brackets -/

/-- A text has both outer brackets or neither, apart from the blanks around it. -/
def BracketsPair (text : String) : Prop :=
  (Text.trim text.toList).head? = some '[' ↔ (Text.trim text.toList).getLast? = some ']'

instance (text : String) : Decidable (BracketsPair text) := inferInstanceAs (Decidable (_ ↔ _))

theorem unbracketed?_eq_none_iff {s : List Char} :
    unbracketed? s = none ↔ ¬ (s.head? = some '[' ↔ s.getLast? = some ']') := by
  cases s with
  | nil => simp [unbracketed?]
  | cons c rest =>
    by_cases hopen : c = '['
    · subst hopen
      have hlast : ('[' :: rest).getLast? = some ']' ↔ rest.getLast? = some ']' := by
        cases rest with
        | nil => decide
        | cons d others => rw [List.getLast?_cons_cons]
      rw [unbracketed?, hlast]
      by_cases hclose : rest.getLast? = some ']'
      · simp [hclose]
      · simp [hclose]
    · by_cases hclose : (c :: rest).getLast? = some ']'
      · simp [unbracketed?, hopen, hclose]
      · simp [unbracketed?, hopen, hclose]

theorem items_of_not_bracketsPair {text : String} (h : ¬ BracketsPair text) :
    items text = .error (.brackets text) := by
  rw [items, unbracketed?_eq_none_iff.2 h]

theorem exists_items_of_bracketsPair {text : String} (h : BracketsPair text) :
    ∃ found, items text = .ok found := by
  cases hinner : unbracketed? (Text.trim text.toList) with
  | none => exact absurd h (unbracketed?_eq_none_iff.1 hinner)
  | some inner => exact ⟨splitItems inner, by rw [items, hinner]⟩

/-! ### Items of one variant -/

/-- All of some items are read in a variant. -/
def AllRead (variant : Variant) (found : List (List Char)) : Prop :=
  ∀ item ∈ found, ∃ v, readItem? item variant = some v

/-- All of some items have the mark of a timestamp. -/
def AllMarked (found : List (List Char)) : Prop := ∀ item ∈ found, item.head? = some '#'

/-- Some items are read in a variant, and are told by a mark if they are timestamps. -/
structure Suits (variant : Variant) (found : List (List Char)) : Prop where
  allRead : AllRead variant found
  allMarked : variant = .timestamp → AllMarked found

theorem variantOfItems_cases (found : List (List Char)) :
    (AllRead .boolean found ∧ variantOfItems found = .boolean) ∨
    (¬ AllRead .boolean found ∧ AllRead .number found ∧ variantOfItems found = .number) ∨
    (¬ AllRead .boolean found ∧ ¬ AllRead .number found ∧ AllMarked found ∧
      AllRead .timestamp found ∧ variantOfItems found = .timestamp) ∨
    (¬ AllRead .boolean found ∧ ¬ AllRead .number found ∧
      ¬ (AllMarked found ∧ AllRead .timestamp found) ∧ variantOfItems found = .text) := by
  have hread : ∀ variant : Variant, (found.all fun item => (readItem? item variant).isSome) = true ↔
      AllRead variant found := by
    intro variant
    simp only [List.all_eq_true, Option.isSome_iff_exists, AllRead]
  have hmarked : ((found.all fun item => item.head? == some '#') &&
      found.all fun item => (readItem? item .timestamp).isSome) = true ↔
        AllMarked found ∧ AllRead .timestamp found := by
    rw [Bool.and_eq_true, hread]
    simp only [List.all_eq_true, beq_iff_eq, AllMarked]
  have hvariant : variantOfItems found =
      if (found.all fun item => (readItem? item .boolean).isSome) = true then .boolean
      else if (found.all fun item => (readItem? item .number).isSome) = true then .number
      else if ((found.all fun item => item.head? == some '#') &&
        found.all fun item => (readItem? item .timestamp).isSome) = true then .timestamp
      else .text := rfl
  by_cases hboolean : AllRead .boolean found
  · exact .inl ⟨hboolean, if_pos ((hread .boolean).2 hboolean)⟩
  · rw [if_neg (mt (hread .boolean).1 hboolean)] at hvariant
    by_cases hnumber : AllRead .number found
    · rw [if_pos ((hread .number).2 hnumber)] at hvariant
      exact .inr (.inl ⟨hboolean, hnumber, hvariant⟩)
    · rw [if_neg (mt (hread .number).1 hnumber)] at hvariant
      by_cases htimestamp : AllMarked found ∧ AllRead .timestamp found
      · rw [if_pos (hmarked.2 htimestamp)] at hvariant
        exact .inr (.inr (.inl ⟨hboolean, hnumber, htimestamp.1, htimestamp.2, hvariant⟩))
      · rw [if_neg (mt hmarked.1 htimestamp)] at hvariant
        exact .inr (.inr (.inr ⟨hboolean, hnumber, htimestamp, hvariant⟩))

theorem suits_variantOfItems {found : List (List Char)} (h : variantOfItems found ≠ .text) :
    Suits (variantOfItems found) found := by
  rcases variantOfItems_cases found with ⟨hread, heq⟩ | ⟨_, hread, heq⟩ |
    ⟨_, _, hmarked, hread, heq⟩ |
    ⟨_, _, _, heq⟩
  · exact heq ▸ ⟨hread, fun hother => nomatch hother⟩
  · exact heq ▸ ⟨hread, fun hother => nomatch hother⟩
  · exact heq ▸ ⟨hread, fun _ => hmarked⟩
  · exact absurd heq h

/-- What is read as a boolean is not read as a number. -/
theorem not_readItem?_number {item : List Char} {v : Value} (h : readItem? item .boolean = some v)
    (w : Value) : readItem? item .number ≠ some w := by
  obtain ⟨b, hb, _⟩ := Option.map_eq_some_iff.1 h
  obtain ⟨c, rest, rfl, hletter⟩ := Value.exists_letter_of_readBoolean? hb
  rw [readItem?, Number.ofText?_eq_none_of_letter hletter]
  intro heq
  cases heq

/-- What has the mark of a timestamp is read neither as a boolean nor as a number. -/
theorem not_readItem?_of_mark {item : List Char} (hmark : item.head? = some '#') (v : Value) :
    readItem? item .boolean ≠ some v ∧ readItem? item .number ≠ some v := by
  have hplain : isPlainLiteral item ≠ true := by
    rw [isPlainLiteral, hmark]
    exact Bool.false_ne_true
  constructor
  · intro h
    obtain ⟨b, hb, _⟩ := Option.map_eq_some_iff.1 h
    exact hplain (Value.isPlainLiteral_of_readBoolean? hb)
  · intro h
    obtain ⟨n, hn, _⟩ := Option.map_eq_some_iff.1 h
    exact hplain (Number.isPlainLiteral_of_ofText? (Option.filter_eq_some_iff.1 hn).1)

/-- Items that suit a variant suit no other one. -/
theorem Suits.variantOfItems_eq {variant : Variant} {found : List (List Char)}
    (h : Suits variant found) (hne : found ≠ []) (htext : variant ≠ .text) :
    variantOfItems found = variant := by
  obtain ⟨item, hitem⟩ := List.exists_mem_of_ne_nil found hne
  obtain ⟨v, hv⟩ := h.allRead item hitem
  rcases variantOfItems_cases found with ⟨hboolean, heq⟩ | ⟨hboolean, hnumber, heq⟩ |
    ⟨hboolean, hnumber, hmarked, _, heq⟩ | ⟨hboolean, hnumber, htimestamp, _⟩
  · obtain ⟨w, hw⟩ := hboolean item hitem
    cases variant with
    | boolean => exact heq
    | number => exact absurd hv (not_readItem?_number hw v)
    | timestamp => exact absurd hw (not_readItem?_of_mark (h.allMarked rfl item hitem) w).1
    | text => exact absurd rfl htext
  · obtain ⟨w, hw⟩ := hnumber item hitem
    cases variant with
    | boolean => exact absurd h.allRead hboolean
    | number => exact heq
    | timestamp => exact absurd hw (not_readItem?_of_mark (h.allMarked rfl item hitem) w).2
    | text => exact absurd rfl htext
  · cases variant with
    | boolean => exact absurd h.allRead hboolean
    | number => exact absurd h.allRead hnumber
    | timestamp => exact heq
    | text => exact absurd rfl htext
  · cases variant with
    | boolean => exact absurd h.allRead hboolean
    | number => exact absurd h.allRead hnumber
    | timestamp => exact absurd ⟨h.allMarked rfl, h.allRead⟩ htimestamp
    | text => exact absurd rfl htext

theorem variantOfItems_eq_text_iff {found : List (List Char)} (hne : found ≠ [])
    (hplain : ∀ item ∈ found, isPlainLiteral item = true) :
    variantOfItems found = .text ↔ ¬ AllRead .boolean found ∧ ¬ AllRead .number found := by
  rcases variantOfItems_cases found with ⟨hboolean, heq⟩ | ⟨_, hnumber, heq⟩ |
    ⟨_, _, hmarked, _, _⟩ |
    ⟨hboolean, hnumber, _, heq⟩
  · rw [heq]
    exact iff_of_false (fun hother => nomatch hother) fun hnot => hnot.1 hboolean
  · rw [heq]
    exact iff_of_false (fun hother => nomatch hother) fun hnot => hnot.2 hnumber
  · -- The first item would have the mark that no plain literal has.
    obtain ⟨item, hitem⟩ := List.exists_mem_of_ne_nil found hne
    have hitemPlain := hplain item hitem
    rw [isPlainLiteral, hmarked item hitem] at hitemPlain
    cases hitemPlain
  · rw [heq]
    exact iff_of_true rfl ⟨hboolean, hnumber⟩

/-! ### Reading in the suggested variant -/

theorem inferVariant_of_items {text : String} {found : List (List Char)}
    (h : items text = .ok found) (hne : found ≠ []) :
    inferVariant text = .ok (some (variantOfItems found)) := by
  rw [inferVariant, h]
  exact congrArg Except.ok (if_neg (by simpa using hne))

theorem inferVariant_eq_none_iff {text : String} : inferVariant text = .ok none ↔
    items text = .ok [] := by
  rw [inferVariant, map_eq_ok_iff]
  apply Iff.intro
  · intro h
    obtain ⟨found, hfound, hnone⟩ := h
    split at hnone
    · rename_i hempty
      rw [hfound, List.isEmpty_iff.1 hempty]
    · cases hnone
  · intro h
    exact ⟨[], h, rfl⟩

theorem inferVariant_eq_some_iff {text : String} {variant : Variant} :
    inferVariant text = .ok (some variant) ↔
      ∃ found, items text = .ok found ∧ found ≠ [] ∧ variantOfItems found = variant := by
  apply Iff.intro
  · intro h
    obtain ⟨found, hfound, hsome⟩ := map_eq_ok_iff.1 h
    split at hsome
    · cases hsome
    · rename_i hempty
      exact ⟨found, hfound, fun hnil => hempty (List.isEmpty_iff.2 hnil), Option.some.inj hsome⟩
  · intro h
    obtain ⟨found, hfound, hne, rfl⟩ := h
    exact inferVariant_of_items hfound hne

theorem read_of_items_nil {text : String} (h : items text = .ok []) (variant : Variant) :
    read text variant = .ok [] := by
  rw [read, h]
  rfl

theorem read_eq_ok_iff {text : String} {variant : Variant} {found : List (List Char)}
    (h : items text = .ok found) {values : List Value} : read text variant = .ok values ↔
      List.Forall₂ (fun item v => readItem? item variant = some v) found values := by
  simp only [read, h, bind_eq_ok_iff, mapM_eq_ok_iff, readItem_eq_ok_iff, Except.ok.injEq,
    exists_eq_left']

theorem exists_read_of_allRead {text : String} {variant : Variant} {found : List (List Char)}
    (h : items text = .ok found) (hne : found ≠ []) (hread : AllRead variant found) :
    ∃ values, values ≠ [] ∧ read text variant = .ok values := by
  obtain ⟨values, hvalues⟩ := exists_forall₂ hread
  refine ⟨values, fun hnil => ?_, (read_eq_ok_iff h).2 hvalues⟩
  rw [hnil, List.forall₂_nil_right_iff] at hvalues
  exact hne hvalues

/-! ### Shown values -/

theorem suits_shown {values : List Value} {variant : Variant} (hall : AllOf variant values)
    (hstorable : ∀ v ∈ values, v.isStorable = true) (hread : ∀ v ∈ values, v.IsRead) :
    Suits variant (values.map fun v => v.shown.toList) := by
  constructor
  · intro item hitem
    obtain ⟨v, hv, rfl⟩ := List.mem_map.1 hitem
    have hshown := Value.readItem?_shown (hstorable v hv) (hread v hv)
    rw [hall v hv] at hshown
    exact ⟨v, hshown⟩
  · intro htimestamp item hitem
    obtain ⟨v, hv, rfl⟩ := List.mem_map.1 hitem
    have hvariant := hall v hv
    rw [htimestamp] at hvariant
    cases v with
    | timestamp t => rw [Value.shown, String.toList_ofList, List.head?_cons]
    | number n => cases hvariant
    | text s => cases hvariant
    | boolean b => cases hvariant

theorem inferVariant_format {values : List Value} {variant : Variant} (hne : values ≠ [])
    (htext : variant ≠ .text) (hall : AllOf variant values)
    (hstorable : ∀ v ∈ values, v.isStorable = true) (hread : ∀ v ∈ values, v.IsRead) :
    inferVariant (format values) = .ok (some variant) := by
  have hitems := items_format fun v hv => Value.isLiteral_shown (hstorable v hv)
  have hshown : (values.map fun v => v.shown.toList) ≠ [] := by simpa using hne
  rw [inferVariant_of_items hitems hshown,
    (suits_shown hall hstorable hread).variantOfItems_eq hshown htext]

/-- Texts are shown as they have been read. -/
theorem shown_of_read_text {found : List (List Char)} {values : List Value}
    (h : List.Forall₂ (fun item v => readItem? item .text = some v) found values) :
    (values.map fun v => v.shown.toList) = found := by
  induction h with
  | nil => rfl
  | cons hitem _ ih =>
    obtain ⟨_, heq⟩ := Option.ite_none_right_eq_some.1 hitem
    cases heq
    rw [List.map_cons, ih, Value.shown, String.toList_ofList]

/-! ### Texts that look like other values -/

/-- A text that is read as a boolean. -/
def IsBooleanText (s : String) : Prop := ∃ b, Value.readBoolean? s.toList = some b

/-- A text that is read as a finite number. -/
def IsNumberText (s : String) : Prop := ∃ n, Number.ofText? s.toList = some n ∧ n.isFinite = true

theorem allRead_boolean_iff {texts : List String} :
    AllRead .boolean (texts.map String.toList) ↔ ∀ s ∈ texts, IsBooleanText s := by
  simp only [AllRead, List.forall_mem_map, readItem?, Option.map_eq_some_iff, IsBooleanText]
  refine forall₂_congr fun s _ => ?_
  apply Iff.intro
  · intro h
    obtain ⟨_, b, hb, _⟩ := h
    exact ⟨b, hb⟩
  · intro h
    obtain ⟨b, hb⟩ := h
    exact ⟨.boolean b, b, hb, rfl⟩

theorem allRead_number_iff {texts : List String} :
    AllRead .number (texts.map String.toList) ↔ ∀ s ∈ texts, IsNumberText s := by
  simp only [AllRead, List.forall_mem_map, readItem?, Option.map_eq_some_iff,
    Option.filter_eq_some_iff, IsNumberText]
  refine forall₂_congr fun s _ => ?_
  apply Iff.intro
  · intro h
    obtain ⟨_, n, hn, _⟩ := h
    exact ⟨n, hn⟩
  · intro h
    obtain ⟨n, hn⟩ := h
    exact ⟨.number n, n, hn, rfl⟩

theorem inferVariant_format_texts_iff {texts : List String}
    (hplain : ∀ s ∈ texts, isPlainLiteral s.toList = true) :
    inferVariant (format (texts.map Value.text)) = .ok (some .text) ↔
      ¬ (∀ s ∈ texts, IsBooleanText s) ∧ ¬ (∀ s ∈ texts, IsNumberText s) := by
  have hshown : ((texts.map Value.text).map fun v => v.shown.toList) = texts.map String.toList := by
    rw [List.map_map]
    rfl
  have hliteral : ∀ v ∈ texts.map Value.text, isLiteral v.shown.toList = true :=
    List.forall_mem_map.2 fun s hs => isLiteral_of_isPlainLiteral (hplain s hs)
  have hitems := items_format hliteral
  rw [hshown] at hitems
  by_cases hne : texts = []
  · subst hne
    rw [inferVariant_eq_none_iff.2 hitems]
    exact iff_of_false (fun hsome => nomatch hsome) fun hnot => hnot.1 fun _ hs => nomatch hs
  · have hfound : texts.map String.toList ≠ [] := by simpa using hne
    rw [inferVariant_of_items hitems hfound, Except.ok.injEq, Option.some.injEq,
      variantOfItems_eq_text_iff hfound (List.forall_mem_map.2 hplain), allRead_boolean_iff,
      allRead_number_iff]

/-- The variant that a text suggests is one in which it is read, and a text suggests none only when
it has no items in any variant. There is no suggestion exactly when the outer brackets do not pair,
and then nothing is read in any variant. What is read in the suggested variant suggests this variant
again when it is shown. Numbers, booleans and timestamps that are shown suggest their own variant,
and texts suggest texts unless all of them are read as booleans or all as finite numbers. -/
theorem inferVariant_fits_read :
    (∀ text, inferVariant text = .ok none → ∀ variant, read text variant = .ok []) ∧
    (∀ text variant, inferVariant text = .ok (some variant) → variant ≠ .text →
      ∃ values, values ≠ [] ∧ read text variant = .ok values) ∧
    (∀ text, (∃ fault, inferVariant text = .error fault) ↔ ¬ BracketsPair text) ∧
    (∀ text, ¬ BracketsPair text → ∀ variant, read text variant = .error (.brackets text)) ∧
    (∀ text variant values, inferVariant text = .ok (some variant) →
      read text variant = .ok values → values ≠ [] →
        inferVariant (format values) = .ok (some variant)) ∧
    (∀ values variant, values ≠ [] → variant ≠ .text → AllOf variant values →
      (∀ v ∈ values, v.isStorable = true) → (∀ v ∈ values, v.IsRead) →
        inferVariant (format values) = .ok (some variant)) ∧
    ∀ texts : List String, (∀ s ∈ texts, isPlainLiteral s.toList = true) →
      (inferVariant (format (texts.map Value.text)) = .ok (some .text) ↔
        ¬ (∀ s ∈ texts, IsBooleanText s) ∧ ¬ (∀ s ∈ texts, IsNumberText s)) := by
  refine ⟨?_, ?_, ?_, ?_, ?_, ?_, ?_⟩
  · exact fun text hnone => read_of_items_nil (inferVariant_eq_none_iff.1 hnone)
  · intro text variant hsome htext
    obtain ⟨found, hfound, hne, rfl⟩ := inferVariant_eq_some_iff.1 hsome
    exact exists_read_of_allRead hfound hne (suits_variantOfItems htext).allRead
  · intro text
    apply Iff.intro
    · intro herror hpair
      obtain ⟨fault, hfault⟩ := herror
      obtain ⟨found, hfound⟩ := exists_items_of_bracketsPair hpair
      rw [inferVariant, hfound] at hfault
      cases hfault
    · intro hpair
      exact ⟨.brackets text, by rw [inferVariant, items_of_not_bracketsPair hpair]; rfl⟩
  · intro text hpair variant
    rw [read, items_of_not_bracketsPair hpair]
    rfl
  · intro text variant values hsome hread hne
    have hvalues := of_read hread
    by_cases htext : variant = .text
    · -- The items themselves are shown, so that the same ones are looked at again.
      subst htext
      obtain ⟨found, hfound, hnonempty, hvariant⟩ := inferVariant_eq_some_iff.1 hsome
      have hitems := items_format fun v hv => Value.isLiteral_shown (hvalues v hv).2.1
      rw [shown_of_read_text ((read_eq_ok_iff hfound).1 hread)] at hitems
      rw [inferVariant_of_items hitems hnonempty, hvariant]
    · exact inferVariant_format hne htext (fun v hv => (hvalues v hv).1)
        (fun v hv => (hvalues v hv).2.1)
        fun v hv => (hvalues v hv).2.2
  · intro values variant hne htext hall hstorable hread
    exact inferVariant_format hne htext hall hstorable hread
  · intro texts hplain
    exact inferVariant_format_texts_iff hplain

/-- Years without a mark suggest numbers, also when one of them is written with an exponent. As
texts they suggest texts as soon as one of them is not a finite number. -/
theorem inferVariant_of_years :
    (∃ values, values ≠ [] ∧ read "[2020, 2e3,]" .number = .ok values ∧
      inferVariant (format values) = .ok (some .number)) ∧
    (∀ variant, read "[2020, 2e3" variant = .error (.brackets "[2020, 2e3")) ∧
    inferVariant (format [.boolean true, .boolean false]) = .ok (some .boolean) ∧
    inferVariant (format [.text "2020", .text "inf"]) = .ok (some .text) := by
  obtain ⟨_, hfits, _, hbrackets, hstable, hshown, htexts⟩ := inferVariant_fits_read
  have hyears : inferVariant "[2020, 2e3,]" = .ok (some .number) := by decide +kernel
  have htrue : ¬ IsBooleanText "2020" := by
    intro h
    obtain ⟨b, hb⟩ := h
    have hnone : Value.readBoolean? "2020".toList = none := by decide +kernel
    rw [hnone] at hb
    cases hb
  have hinf : ¬ IsNumberText "inf" := by
    intro h
    obtain ⟨n, hn, hfinite⟩ := h
    have hinfinite : Number.ofText? "inf".toList = some (.infinite false) := by decide +kernel
    rw [hinfinite] at hn
    cases hn
    cases hfinite
  refine ⟨?_, hbrackets _ (by decide), ?_, ?_⟩
  · obtain ⟨values, hne, hread⟩ := hfits _ _ hyears (fun hother => nomatch hother)
    exact ⟨values, hne, hread, hstable _ _ _ hyears hread hne⟩
  · exact hshown _ .boolean (fun hnil => nomatch hnil) (fun hother => nomatch hother)
      (by simp [AllOf, Value.variant]) (by simp [Value.isStorable]) (by simp [Value.IsRead])
  · exact (htexts ["2020", "inf"] (by decide)).2
      ⟨fun hall => htrue (hall _ (by simp)), fun hall => hinf (hall _ (by simp))⟩

end Editing

end SidecarIndex

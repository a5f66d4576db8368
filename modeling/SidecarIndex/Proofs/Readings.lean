import SidecarIndex.Index.Catalog
import SidecarIndex.Proofs.Editing
import SidecarIndex.Proofs.Document.Problems

/-! # One text, four readers

A text is read as a value from a side-car, when values are edited and from a query, and a value that
is set is tried for whether a side-car can hold it. The four have their own rules, yet they agree on
the text: what the side-car takes is what is edited, and what is edited is what the query reads from
a literal, as far as a side-car can hold it. -/

namespace SidecarIndex

/-! ### Numbers and booleans are literals -/

namespace Decimal

theorem isLiteralChar_of_exponentOfText? {s : List Char} {exponent : Int}
    (h : exponentOfText? s = some exponent) : ∀ c ∈ s, isLiteralChar c = true := by
  have hdigits : ∀ {digits : List Char}, ¬(digits.isEmpty || !digits.all Char.isDigit) = true →
      ∀ c ∈ digits, isLiteralChar c = true := by
    intro digits hread c hc
    simp only [Bool.or_eq_true, Bool.not_eq_true', not_or, Bool.not_eq_false, List.all_eq_true]
      at hread
    exact isLiteralChar_of_isDigit (hread.2 c hc)
  obtain ⟨hread, _⟩ := Option.ite_none_left_eq_some.1 h
  split at hread
  · exact List.forall_mem_cons.2 ⟨by decide, hdigits hread⟩
  · exact List.forall_mem_cons.2 ⟨by decide, hdigits hread⟩
  · exact hdigits hread

/-- Behind the digits stands nothing or an exponent. -/
theorem isLiteralChar_of_scaled {whole fraction rest : List Char} {d : Decimal}
    (h : (match rest with
      | [] => some (ofDigits whole fraction 0)
      | c :: t => if c = 'e' ∨ c = 'E' then
        (exponentOfText? t).map (ofDigits whole fraction) else none)
        = some d) : ∀ c ∈ rest, isLiteralChar c = true := by
  cases rest with
  | nil => exact fun _ hc => nomatch hc
  | cons c t =>
    obtain ⟨hmark, hscaled⟩ := Option.ite_none_right_eq_some.1 h
    obtain ⟨exponent, hexponent, _⟩ := Option.map_eq_some_iff.1 hscaled
    have hchar : isLiteralChar c = true := by
      rcases hmark with rfl | rfl
      all_goals decide
    exact List.forall_mem_cons.2 ⟨hchar, isLiteralChar_of_exponentOfText? hexponent⟩

theorem isPlainLiteral_of_ofText? {s : List Char} {d : Decimal} (h : ofText? s = some d) :
    isPlainLiteral s = true := by
  have hrun : ∀ t : List Char, ∀ c ∈ t.takeWhile Char.isDigit, isLiteralChar c = true :=
    fun _ _ hc => isLiteralChar_of_isDigit (List.mem_takeWhile_imp hc)
  have hne : s ≠ [] := by
    intro hnil
    rw [hnil] at h
    cases h
  have hbehind : ∀ c ∈ s.dropWhile Char.isDigit, isLiteralChar c = true := by
    unfold ofText? at h
    generalize s.dropWhile Char.isDigit = behind at h ⊢
    dsimp only at h
    split at h
    · rename_i t
      have hrest := isLiteralChar_of_scaled (Option.ite_none_left_eq_some.1 h).2
      rw [← List.takeWhile_append_dropWhile (p := Char.isDigit) (l := t)]
      exact List.forall_mem_cons.2 ⟨by decide, List.forall_mem_append.2 ⟨hrun t, hrest⟩⟩
    · exact isLiteralChar_of_scaled (Option.ite_none_left_eq_some.1 h).2
  have hchars := List.forall_mem_append.2 ⟨hrun s, hbehind⟩
  rw [List.takeWhile_append_dropWhile] at hchars
  exact isPlainLiteral_iff.2 ⟨hne, hchars⟩

end Decimal

namespace Text

theorem isLiteralChar_of_toLower {c : Char} (h : isLiteralChar c.toLower = true) :
    isLiteralChar c = true := by
  by_cases hupper : c.isUpper = true
  · have halpha : c.isAlpha = true := Bool.or_eq_true_iff.2 (.inl hupper)
    simp [isLiteralChar, Char.isAlphanum, halpha]
  · have hsame : c.toLower = c := dif_neg fun hbounds => hupper (decide_eq_true hbounds)
    rwa [hsame] at h

theorem isPlainLiteral_of_sameFolded {s word : List Char} (h : sameFolded s word = true)
    (hword : isPlainLiteral (fold word) = true) : isPlainLiteral s = true := by
  have hfold : s.map Char.toLower = fold word := beq_iff_eq.1 h
  rw [← hfold, isPlainLiteral_iff, Ne, List.map_eq_nil_iff, List.forall_mem_map] at hword
  exact isPlainLiteral_iff.2 ⟨hword.1, fun c hc => isLiteralChar_of_toLower (hword.2 c hc)⟩

end Text

namespace Number

theorem isPlainLiteral_of_ofUnsignedText? {negative : Bool} {s : List Char} {n : Number}
    (h : ofUnsignedText? negative s = some n) : isPlainLiteral s = true := by
  rw [ofUnsignedText?] at h
  cases hdecimal : Decimal.ofText? s with
  | some d => exact Decimal.isPlainLiteral_of_ofText? hdecimal
  | none =>
    rw [hdecimal] at h
    dsimp only at h
    split at h
    · rename_i hword
      rcases Bool.or_eq_true_iff.1 hword with hinf | hinfinity
      · exact Text.isPlainLiteral_of_sameFolded hinf (by decide)
      · exact Text.isPlainLiteral_of_sameFolded hinfinity (by decide)
    · exact Text.isPlainLiteral_of_sameFolded (Option.ite_none_right_eq_some.1 h).1 (by decide)

theorem isPlainLiteral_of_ofText? {s : List Char} {n : Number} (h : ofText? s = some n) :
    isPlainLiteral s = true := by
  have hsigned : ∀ {sign : Char} {t : List Char}, isLiteralChar sign = true →
      isPlainLiteral t = true →
      isPlainLiteral (sign :: t) = true := by
    intro sign t hsign ht
    exact isPlainLiteral_iff.2
      ⟨List.cons_ne_nil _ _, List.forall_mem_cons.2 ⟨hsign, (isPlainLiteral_iff.1 ht).2⟩⟩
  unfold ofText? at h
  split at h
  · exact hsigned (by decide) (isPlainLiteral_of_ofUnsignedText? h)
  · exact hsigned (by decide) (isPlainLiteral_of_ofUnsignedText? h)
  · exact isPlainLiteral_of_ofUnsignedText? h

end Number

theorem Value.isPlainLiteral_of_readBoolean? {s : List Char} {b : Bool}
    (h : readBoolean? s = some b) : isPlainLiteral s = true := by
  unfold readBoolean? at h
  split at h
  · rename_i hword
    exact Text.isPlainLiteral_of_sameFolded hword (by decide)
  · exact Text.isPlainLiteral_of_sameFolded (Option.ite_none_right_eq_some.1 h).1 (by decide)

/-! ### Edited items -/

/-- An item is read as a query reads it, where it is a literal and a side-car can hold what is
read. -/
theorem Editing.readItem_iff_ofLiteral? {s : String} {variant : Variant} {value : Value} :
    readItem variant s.toList = .ok value ↔
      isLiteral s.toList = true ∧ Value.ofLiteral? s variant = some value ∧
      value.isStorable = true := by
  rw [readItem_eq_ok_iff]
  cases variant with
  | number =>
    simp only [readItem?, Value.ofLiteral?, Option.map_eq_some_iff, Option.filter_eq_some_iff]
    apply Iff.intro
    · intro h
      obtain ⟨n, ⟨hn, hfinite⟩, rfl⟩ := h
      exact ⟨isLiteral_of_isPlainLiteral (Number.isPlainLiteral_of_ofText? hn), ⟨n, hn, rfl⟩,
        hfinite⟩
    · intro h
      obtain ⟨_, ⟨n, hn, rfl⟩, hfinite⟩ := h
      exact ⟨n, ⟨hn, hfinite⟩, rfl⟩
  | text =>
    simp only [readItem?, Value.ofLiteral?, String.ofList_toList]
    apply Iff.intro
    · intro h
      obtain ⟨hplain, hvalue⟩ := Option.ite_none_right_eq_some.1 h
      cases hvalue
      exact ⟨isLiteral_of_isPlainLiteral hplain, rfl, hplain⟩
    · intro h
      obtain ⟨_, hvalue, hplain⟩ := h
      cases hvalue
      exact if_pos hplain
  | boolean =>
    simp only [readItem?, Value.ofLiteral?, Option.map_eq_some_iff]
    apply Iff.intro
    · intro h
      obtain ⟨b, hb, rfl⟩ := h
      exact ⟨isLiteral_of_isPlainLiteral (Value.isPlainLiteral_of_readBoolean? hb),
        ⟨b, hb, rfl⟩, rfl⟩
    · exact fun h => h.2.1
  | timestamp =>
    simp only [readItem?, Value.ofLiteral?, Option.ite_none_right_eq_some, Option.map_eq_some_iff]
    apply Iff.intro
    · intro h
      obtain ⟨hliteral, t, ht, rfl⟩ := h
      exact ⟨hliteral, ⟨t, ht, rfl⟩, rfl⟩
    · exact fun h => ⟨h.1, h.2.1⟩

theorem Editing.readItem_text_iff {s : String} {value : Value} :
    readItem .text s.toList = .ok value ↔ value = .text s ∧ isPlainLiteral s.toList = true := by
  rw [readItem_eq_ok_iff, readItem?, Option.ite_none_right_eq_some, Option.some.injEq,
    String.ofList_toList, and_comm]
  exact and_congr_left' eq_comm

/-! ### Strings of a side-car -/

/-- The mark tells a side-car in which of two variants a string is read: as a timestamp or as a
text. -/
def markedVariant (s : List Char) : Variant := if s.head? = some '#' then .timestamp else .text

theorem markedVariant_eq_timestamp_iff {s : List Char} :
    markedVariant s = .timestamp ↔ s.head? = some '#' := by
  by_cases h : s.head? = some '#'
  · exact iff_of_true (if_pos h) h
  · rw [markedVariant, if_neg h]
    exact iff_of_false nofun h

theorem markedVariant_of_isPlainLiteral {s : List Char} (h : isPlainLiteral s = true) :
    markedVariant s = .text :=
  if_neg (bne_iff_ne.1 (Bool.and_eq_true_iff.1 h).1)

theorem RawScalar.toValue_string_iff {s : String} {value : Value} :
    toValue (.string s) = .ok value ↔
      Editing.readItem (markedVariant s.toList) s.toList = .ok value := by
  rw [toValue_eq_ok_iff, Editing.readItem_eq_ok_iff, reading?, markedVariant]
  by_cases hmark : s.toList.head? = some '#'
  · obtain ⟨payload, hs⟩ := List.head?_eq_some_iff.1 hmark
    rw [if_pos hmark, if_pos hmark, hs, Editing.readItem?, dropMark, List.tail_cons]
    cases isLiteral ('#' :: payload)
    all_goals rfl
  · have hplain : isPlainLiteral s.toList = isLiteral s.toList := by
      rw [isPlainLiteral, bne_iff_ne.2 hmark, Bool.true_and]
    rw [if_neg hmark, if_neg hmark, Editing.readItem?, hplain, String.ofList_toList]
    cases isLiteral s.toList
    all_goals rfl

theorem Editing.variant_of_readItem {item : List Char} {variant : Variant} {value : Value}
    (h : readItem variant item = .ok value) : value.variant = variant :=
  (Value.isStorable_of_readItem? (readItem_eq_ok_iff.1 h)).1

/-- A string is read from a side-car in a variant exactly when it is edited in this variant and
marked for it. -/
theorem RawScalar.toValue_of_variant_iff {s : String} {variant : Variant} {value : Value} :
    toValue (.string s) = .ok value ∧ value.variant = variant ↔
      markedVariant s.toList = variant ∧ Editing.readItem variant s.toList = .ok value := by
  rw [toValue_string_iff]
  apply Iff.intro
  · intro h
    obtain ⟨hread, hvariant⟩ := h
    have hmarked : markedVariant s.toList = variant :=
      (Editing.variant_of_readItem hread).symm.trans hvariant
    exact ⟨hmarked, hmarked ▸ hread⟩
  · intro h
    obtain ⟨hmarked, hread⟩ := h
    exact ⟨hmarked ▸ hread, Editing.variant_of_readItem hread⟩

/-- A string is a text in a side-car exactly when it can be edited as one and exactly when it can be
set, and it is that text itself. It is a timestamp there exactly when it has the mark and can be
edited as one, and then it is the same. In every variant an item is edited exactly when it is a
literal that a query reads in the variant as a value that can be set, and it is this value. -/
theorem readings_agree (s : String) :
    (∀ value, RawScalar.toValue (.string s) = .ok value ∧ value.variant = .text ↔
      Editing.readItem .text s.toList = .ok value) ∧
    (∀ value, Editing.readItem .text s.toList = .ok value ↔
      value = .text s ∧ Catalog.storeFault? (.text s) = none) ∧
    (∀ value, RawScalar.toValue (.string s) = .ok value ∧ value.variant = .timestamp ↔
      s.toList.head? = some '#' ∧ Editing.readItem .timestamp s.toList = .ok value) ∧
    ∀ variant value, Editing.readItem variant s.toList = .ok value ↔
      isLiteral s.toList = true ∧ Value.ofLiteral? s variant = some value ∧
        Catalog.storeFault? value = none := by
  refine ⟨?_, ?_, ?_, ?_⟩
  · intro value
    rw [RawScalar.toValue_of_variant_iff]
    exact and_iff_right_of_imp fun hread =>
      markedVariant_of_isPlainLiteral (Editing.readItem_text_iff.1 hread).2
  · intro value
    rw [Editing.readItem_text_iff, Catalog.storeFault?_eq_none_iff, Value.isStorable]
  · intro value
    rw [RawScalar.toValue_of_variant_iff, markedVariant_eq_timestamp_iff]
  · intro variant value
    rw [Editing.readItem_iff_ofLiteral?, Catalog.storeFault?_eq_none_iff]

end SidecarIndex

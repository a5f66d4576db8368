import SidecarIndex.Text.Scan
import SidecarIndex.Proofs.Editing.Inference
import SidecarIndex.Proofs.Timestamp.Scan

/-! # Decorated text

Edited text may be decorated: with blanks around its items and around the whole, with empty items
anywhere, and with a pair of outer brackets. Decoration adds no items and takes none away, and as it
never moves a bracket to an end of the text it does not change how the text is read either. The
closing bracket is one byte long, so that it can be cut off by counting bytes, whatever characters
stand in front of it. -/

namespace SidecarIndex.Editing

/-! ### Decorated items -/

/-- The text whose pieces between the commas are given. -/
def joined (pieces : List (List Char)) : List Char := [','].intercalate pieces

theorem joined_cons (piece : List Char) {rest : List (List Char)} (h : rest ≠ []) :
    joined (piece :: rest) = piece ++ ',' :: joined rest := by
  rw [joined, List.intercalate_cons_of_ne_nil h, List.append_assoc]
  rfl

theorem joined_splitOn (s : List Char) : joined (s.splitOn ',') = s := List.intercalate_splitOn ','

/-- Some pieces between commas and the same ones decorated: with blanks around each of them, and
with blank pieces among them. -/
inductive Decorates : List (List Char) → List (List Char) → Prop
  | nil : Decorates [] []
  | piece {before after piece : List Char} {pieces decorated : List (List Char)}
      (hbefore : Text.AllBlank before) (hafter : Text.AllBlank after)
      (rest : Decorates pieces decorated) :
      Decorates (piece :: pieces) ((before ++ (piece ++ after)) :: decorated)
  | empty {blank : List Char} {pieces decorated : List (List Char)} (hblank : Text.AllBlank blank)
      (rest : Decorates pieces decorated) : Decorates pieces (blank :: decorated)

namespace Decorates

variable {pieces decorated : List (List Char)}

theorem refl (pieces : List (List Char)) : Decorates pieces pieces := by
  induction pieces with
  | nil => exact .nil
  | cons piece rest ih =>
    have hblank : Text.AllBlank [] := fun _ hc => nomatch hc
    have hpiece : Decorates (piece :: rest) (([] ++ (piece ++ [])) :: rest) :=
      .piece hblank hblank ih
    rwa [List.append_nil] at hpiece

theorem ne_nil (h : Decorates pieces decorated) (hne : pieces ≠ []) : decorated ≠ [] := by
  cases h with
  | nil => exact absurd rfl hne
  | piece => exact List.cons_ne_nil _ _
  | empty => exact List.cons_ne_nil _ _

theorem comma_not_mem (h : Decorates pieces decorated) (hcomma : ∀ piece ∈ pieces, ',' ∉ piece) :
    ∀ piece ∈ decorated, ',' ∉ piece := by
  have hblank : ∀ {s : List Char}, Text.AllBlank s → ',' ∉ s := fun hs => hs.not_mem (by decide)
  induction h with
  | nil => exact hcomma
  | piece hbefore hafter _ ih =>
    obtain ⟨hpiece, hrest⟩ := List.forall_mem_cons.1 hcomma
    refine List.forall_mem_cons.2 ⟨?_, ih hrest⟩
    simp [hblank hbefore, hpiece, hblank hafter]
  | empty hempty _ ih => exact List.forall_mem_cons.2 ⟨hblank hempty, ih hcomma⟩

/-- Decoration does not change the items that are left when blanks and empty items are dropped. -/
theorem items_eq (h : Decorates pieces decorated) :
    ((decorated.map Text.trim).filter fun item => !item.isEmpty)
      = (pieces.map Text.trim).filter fun item => !item.isEmpty := by
  induction h with
  | nil => rfl
  | piece hbefore hafter _ ih =>
    rw [List.map_cons, List.map_cons, Text.trim_surrounded hbefore hafter, List.filter_cons,
      List.filter_cons, ih]
  | empty hblank _ ih =>
    rw [List.map_cons, Text.trim_of_allBlank hblank, List.filter_cons_of_neg (by simp), ih]

/-- The text of the pieces stands in the decorated text, with other characters in between. -/
theorem sublist_joined (h : Decorates pieces decorated) :
    List.Sublist (joined pieces) (joined decorated) := by
  induction h with
  | nil => exact List.Sublist.refl _
  | @piece before after piece pieces decorated _ _ rest ih =>
    have hpiece : List.Sublist piece (before ++ (piece ++ after)) :=
      (List.sublist_append_left piece after).trans (List.sublist_append_right before _)
    by_cases hpieces : pieces = []
    · subst hpieces
      have hjoined : joined [piece] = piece := List.intercalate_singleton ..
      rw [hjoined]
      by_cases hdecorated : decorated = []
      · subst hdecorated
        rwa [joined, List.intercalate_singleton]
      · rw [joined_cons _ hdecorated]
        exact hpiece.trans (List.sublist_append_left _ _)
    · rw [joined_cons _ hpieces, joined_cons _ (rest.ne_nil hpieces)]
      exact hpiece.append (ih.cons_cons ',')
  | @empty blank pieces decorated _ _ ih =>
    by_cases hdecorated : decorated = []
    · subst hdecorated
      exact ih.trans (List.nil_sublist _)
    · rw [joined_cons _ hdecorated]
      exact (ih.cons ',').trans (List.sublist_append_right blank _)

end Decorates

theorem count_joined {c : Char} (hc : c ≠ ',') (pieces : List (List Char)) :
    (joined pieces).count c = pieces.flatten.count c := by
  induction pieces with
  | nil => rfl
  | cons piece rest ih =>
    by_cases hrest : rest = []
    · subst hrest
      simp [joined]
    · rw [joined_cons piece hrest, List.count_append, List.count_cons_of_ne (Ne.symm hc), ih,
        List.flatten_cons, List.count_append]

/-- Decoration adds nothing but blanks and commas. -/
theorem Decorates.count_joined {pieces decorated : List (List Char)}
    (h : Decorates pieces decorated) {c : Char} (hblank : Text.isBlank c = false) (hc : c ≠ ',') :
    (joined decorated).count c = (joined pieces).count c := by
  have hnone : ∀ {s : List Char}, Text.AllBlank s → s.count c = 0 :=
    fun hs => List.count_eq_zero_of_not_mem (hs.not_mem hblank)
  rw [Editing.count_joined hc, Editing.count_joined hc]
  induction h with
  | nil => rfl
  | piece hbefore hafter _ ih =>
    rw [List.flatten_cons, List.flatten_cons, List.count_append, List.count_append, ih,
      List.count_append, List.count_append, hnone hbefore, hnone hafter, Nat.zero_add, Nat.add_zero]
  | empty hempty _ ih => rw [List.flatten_cons, List.count_append, hnone hempty, Nat.zero_add, ih]

/-! ### Brackets at the ends -/

/-- A text that has no outer bracket at all. -/
def IsBare (s : List Char) : Prop :=
  (Text.trim s).head? ≠ some '[' ∧ (Text.trim s).getLast? ≠ some ']'

instance (s : List Char) : Decidable (IsBare s) := inferInstanceAs (Decidable (_ ∧ _))

/-- What is put into a text does not put a character in front that it does not contain. -/
theorem head?_ne_of_sublist {c : Char} {s t : List Char} (h : List.Sublist s t)
    (hcount : t.count c = s.count c) (hs : s.head? ≠ some c) : t.head? ≠ some c := by
  intro ht
  obtain ⟨rest, rfl⟩ := List.head?_eq_some_iff.1 ht
  rw [List.count_cons_self] at hcount
  cases h with
  | cons _ hrest =>
    have hle := hrest.count_le c
    omega
  | cons_cons _ _ => exact hs rfl

theorem IsBare.decorated {s : List Char} {decorated : List (List Char)} (h : IsBare s)
    (hdecorated : Decorates (s.splitOn ',') decorated) : IsBare (joined decorated) := by
  have hsublist : List.Sublist (Text.signs s) (Text.signs (joined decorated)) := by
    have hjoined := hdecorated.sublist_joined
    rw [joined_splitOn] at hjoined
    exact hjoined.filter _
  have hcount : ∀ c : Char, Text.isBlank c = false → c ≠ ',' →
      (Text.signs (joined decorated)).count c = (Text.signs s).count c := by
    intro c hblank hc
    have hjoined := hdecorated.count_joined hblank hc
    rwa [joined_splitOn, ← Text.count_signs hblank (joined decorated), ← Text.count_signs hblank s]
      at hjoined
  rw [IsBare, Text.head?_trim, Text.getLast?_trim, ← List.head?_reverse] at h ⊢
  refine ⟨head?_ne_of_sublist hsublist (hcount '[' (by decide) (by decide)) h.1,
    head?_ne_of_sublist hsublist.reverse ?_ h.2⟩
  rw [List.count_reverse, List.count_reverse]
  exact hcount ']' (by decide) (by decide)

theorem IsBare.surrounded {s before after : List Char} (h : IsBare s)
    (hbefore : Text.AllBlank before) (hafter : Text.AllBlank after) :
    IsBare (before ++ (s ++ after)) := by
  rwa [IsBare, Text.trim_surrounded hbefore hafter]

/-! ### Items of decorated text -/

theorem splitItems_decorated {s : List Char} {decorated : List (List Char)}
    (h : Decorates (s.splitOn ',') decorated) : splitItems (joined decorated) = splitItems s := by
  have hcomma := h.comma_not_mem Text.not_mem_of_mem_splitOn
  have hsplit : (joined decorated).splitOn ',' = decorated :=
    List.splitOn_intercalate ',' hcomma (h.ne_nil (List.splitOn_ne_nil ',' s))
  rw [splitItems, hsplit, h.items_eq, splitItems]

theorem splitItems_blank_append {before : List Char} (h : Text.AllBlank before) (s : List Char) :
    splitItems (before ++ s) = splitItems s := by
  obtain ⟨first, more, hs⟩ := List.exists_cons_of_ne_nil (List.splitOn_ne_nil ',' s)
  rw [splitItems, splitItems, Text.splitOn_front (h.not_mem (by decide)) hs, hs, List.map_cons,
    List.map_cons, Text.trim_blank_append h]

theorem splitItems_append_blank {after : List Char} (h : Text.AllBlank after) (s : List Char) :
    splitItems (s ++ after) = splitItems s := by
  obtain ⟨before, last, hs, hback⟩ := Text.exists_splitOn_back (h.not_mem (c := ',') (by decide)) s
  rw [splitItems, splitItems, hback, hs, List.map_append, List.map_append, List.map_singleton,
    List.map_singleton, Text.trim_append_blank h]

theorem splitItems_trim (s : List Char) : splitItems (Text.trim s) = splitItems s := by
  obtain ⟨before, after, hbefore, hafter, hs⟩ := Text.exists_blanks_trim s
  have hitems := congrArg splitItems hs
  rw [splitItems_blank_append hbefore, splitItems_append_blank hafter] at hitems
  exact hitems.symm

theorem items_of_isBare {text : String} (h : IsBare text.toList) :
    items text = .ok (splitItems text.toList) := by
  obtain ⟨hopen, hclose⟩ := h
  have hinner : unbracketed? (Text.trim text.toList) = some (Text.trim text.toList) := by
    unfold unbracketed?
    split
    · rename_i heq
      rw [heq] at hopen
      exact absurd rfl hopen
    · rw [if_neg hclose]
  rw [items, hinner, ← splitItems_trim text.toList]

theorem items_bracketed {before after : List Char} (hbefore : Text.AllBlank before)
    (hafter : Text.AllBlank after) (s : List Char) :
    items (String.ofList (before ++ ('[' :: (s ++ [']']) ++ after))) = .ok (splitItems s) := by
  have hends : Text.trim ('[' :: (s ++ [']'])) = '[' :: (s ++ [']']) := by
    refine Text.trim_of_ends ?_ ?_
    · rintro c ⟨⟩
      decide
    · rw [← List.cons_append, List.getLast?_concat]
      rintro c ⟨⟩
      decide
  rw [items, String.toList_ofList, Text.trim_surrounded hbefore hafter, hends,
    unbracketed?_brackets]

/-! ### Cutting off the brackets -/

/-- The front of a text up to a byte; nothing when this is not where a character ends. -/
def upTo? (s : String) (byte : Nat) : Option String :=
  if h : String.Pos.Raw.IsValid s ⟨byte⟩ then some (s.sliceTo (s.pos ⟨byte⟩ h)).copy else none

def withoutLastByte? (s : String) : Option String :=
  if 0 < s.utf8ByteSize then upTo? s (s.utf8ByteSize - 1) else none

/-- `unbracketed?` with the closing bracket cut off as the last byte. Nothing at all is left when
the cut falls outside the text or into a character. -/
def cutBrackets? (s : List Char) : Option (Option (List Char)) :=
  match Scan.accept? '[' s, decide (s.getLast? = some ']') with
  | some rest, true => (withoutLastByte? (String.ofList rest)).map fun inner => some inner.toList
  | none, false => some (some s)
  | _, _ => some none

theorem upTo?_append (front back : String) :
    upTo? (front ++ back) front.utf8ByteSize = some front := by
  have hvalid : String.Pos.Raw.IsValid (front ++ back) ⟨front.utf8ByteSize⟩ :=
    String.Pos.Raw.isValid_iff_exists_append.2 ⟨front, back, rfl, rfl⟩
  have hsplits : ((front ++ back).pos _ hvalid).Splits front back := ⟨rfl, rfl⟩
  rw [upTo?, dif_pos hvalid, hsplits.copy_sliceTo_eq]

theorem withoutLastByte?_append {last : Char} (hsize : last.utf8Size = 1) (front : List Char) :
    withoutLastByte? (String.ofList (front ++ [last])) = some (String.ofList front) := by
  have htext : String.ofList (front ++ [last]) = String.ofList front ++ String.singleton last := by
    rw [String.ofList_append, String.singleton_eq_ofList]
  have hbytes : (String.ofList (front ++ [last])).utf8ByteSize
      = (String.ofList front).utf8ByteSize + 1 := by
    rw [htext, String.utf8ByteSize_append, String.utf8ByteSize_singleton, hsize]
  rw [withoutLastByte?, if_pos (by omega), hbytes, Nat.add_sub_cancel, htext, upTo?_append]

/-- The cut never fails. -/
theorem cutBrackets?_eq (s : List Char) : cutBrackets? s = some (unbracketed? s) := by
  cases s with
  | nil => rfl
  | cons c rest =>
    by_cases hopen : c = '['
    · subst hopen
      by_cases hclose : rest.getLast? = some ']'
      · obtain ⟨front, rfl⟩ := List.getLast?_eq_some_iff.1 hclose
        have hlast : ('[' :: (front ++ [']'])).getLast? = some ']' := by
          rw [← List.cons_append, List.getLast?_concat]
        have hcut : withoutLastByte? (String.ofList (front ++ [']']))
            = some (String.ofList front) :=
          withoutLastByte?_append (by decide) front
        simp only [cutBrackets?, Scan.accept?_head, hlast, decide_true, hcut, Option.map_some,
          String.toList_ofList, unbracketed?_brackets]
      · have hlast : ('[' :: rest).getLast? ≠ some ']' := by
          cases rest with
          | nil => decide
          | cons d others => rwa [List.getLast?_cons_cons]
        simp only [cutBrackets?, Scan.accept?_head, hlast, decide_false, unbracketed?,
          if_neg hclose]
    · have haccept : Scan.accept? '[' (c :: rest) = none :=
        Scan.accept?_eq_none_iff.2 (by simpa using hopen)
      by_cases hclose : (c :: rest).getLast? = some ']'
      · simp [cutBrackets?, haccept, hclose, unbracketed?, hopen]
      · simp [cutBrackets?, haccept, hclose, unbracketed?, hopen]

/-! ### Reading decorated text -/

theorem read_of_items {s t : String} (h : items s = items t) (variant : Variant) :
    read s variant = read t variant := by
  rw [read, h, read]

/-- A text without outer brackets is read in the same way, as the same values or with the same
fault, when its items are decorated with blanks, when empty items are put among them, when the whole
is put between brackets and when blanks are put around all that. A text with only one of the outer
brackets is not read at all. The closing bracket can always be cut off as the last byte. -/
theorem read_decorated :
    (∀ (text : String) (decorated : List (List Char)) (before after : List Char)
      (variant : Variant),
      IsBare text.toList → Decorates (text.toList.splitOn ',') decorated →
      Text.AllBlank before → Text.AllBlank after →
      read (String.ofList (before ++ (joined decorated ++ after))) variant = read text variant ∧
      read (String.ofList (before ++ ('[' :: (joined decorated ++ [']']) ++ after))) variant
        = read text variant) ∧
    (∀ (text : String) (variant : Variant),
      ¬ ((Text.trim text.toList).head? = some '[' ↔ (Text.trim text.toList).getLast? = some ']') →
      read text variant = .error (.brackets text)) ∧
    ∀ text : String, cutBrackets? (Text.trim text.toList)
      = some (unbracketed? (Text.trim text.toList)) := by
  refine ⟨?_, ?_, fun text => cutBrackets?_eq _⟩
  · intro text decorated before after variant hbare hdecorated hbefore hafter
    have hitems := splitItems_decorated hdecorated
    have hsurrounded : splitItems (before ++ (joined decorated ++ after))
        = splitItems text.toList := by
      rw [splitItems_blank_append hbefore, splitItems_append_blank hafter, hitems]
    constructor
    · refine read_of_items ?_ variant
      have hplain := (hbare.decorated hdecorated).surrounded hbefore hafter
      rw [← String.toList_ofList (l := before ++ (joined decorated ++ after))] at hplain
      rw [items_of_isBare hplain, String.toList_ofList, hsurrounded, items_of_isBare hbare]
    · refine read_of_items ?_ variant
      rw [items_bracketed hbefore hafter, hitems, items_of_isBare hbare]
  · intro text variant hpair
    rw [read, items_of_not_bracketsPair hpair]
    rfl

/-- Blanks beyond ASCII and empty items around an item that ends in a bracket: the fault is still
that this item is no text. -/
theorem read_of_decorated_items :
    read "\t[\u3000x]\n,,\u00a0, y ]\u2003" .text = .error (.item "x]" .text) ∧
    read "\u2003x],y" .text = .error (.item "x]" .text) ∧
    read " [x, y" .number = .error (.brackets " [x, y") := by
  obtain ⟨hread, hpair, _⟩ := read_decorated
  have hbare : IsBare "x],y".toList := by decide +kernel
  have hplain : read "x],y" .text = .error (.item "x]" .text) := by decide +kernel
  have hsplit : "x],y".toList.splitOn ',' = [['x', ']'], ['y']] := by decide +kernel
  have hblank : ∀ s ∈ [[], ['\t'], ['\n'], [' '], ['\u00a0'], ['\u2003'], ['\u3000']],
      Text.AllBlank s := by
    decide
  have hdecorated : Decorates ("x],y".toList.splitOn ',')
      [['\u3000', 'x', ']', '\n'], [], ['\u00a0'], [' ', 'y', ' ']] := by
    rw [hsplit]
    exact .piece (hblank ['\u3000'] (by decide)) (hblank ['\n'] (by decide))
      (.empty (hblank [] (by decide)) (.empty (hblank ['\u00a0'] (by decide))
        (.piece (hblank [' '] (by decide)) (hblank [' '] (by decide)) .nil)))
  refine ⟨?_, ?_, hpair _ .number (by decide +kernel)⟩
  · have hbracketed := (hread "x],y" _ ['\t'] ['\u2003'] .text hbare hdecorated
      (hblank _ (by decide)) (hblank _ (by decide))).2
    rw [hplain] at hbracketed
    exact hbracketed
  · have hbefore := (hread "x],y" _ ['\u2003'] [] .text hbare (.refl _)
      (hblank _ (by decide)) (hblank _ (by decide))).1
    rw [hplain] at hbefore
    exact hbefore

end SidecarIndex.Editing

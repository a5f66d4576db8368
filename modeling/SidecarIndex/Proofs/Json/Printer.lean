import SidecarIndex.Json.Basic
import SidecarIndex.Proofs.Json.Reader

/-! # Written JSON is read back

A written string is read as the string, whatever its characters, and a written list or object is
read item by item as what its items are read as. The items stand on lines of their own, so behind
each of them comes a comma or the end of its line. -/

namespace SidecarIndex.Json

/-! ### Strings -/

theorem hexUnit?_control :
    ∀ n < 32, hexUnit? '0' '0' (Nat.digitChar (n / 16)) (Nat.digitChar (n % 16)) = some n := by
  decide

theorem characters_control {c : Char} {t : List Char} (h : c.toNat < 32) :
    characters ('\\' :: 'u' :: '0' :: '0' :: Nat.digitChar (c.toNat / 16)
      :: Nat.digitChar (c.toNat % 16) :: t) = push c (characters t) := by
  have hleading : isLeadingUnit c.toNat = false := by
    simp only [isLeadingUnit, Bool.and_eq_false_iff, decide_eq_false_iff_not]
    omega
  have htrailing : isTrailingUnit c.toNat = false := by
    simp only [isTrailingUnit, Bool.and_eq_false_iff, decide_eq_false_iff_not]
    omega
  rw [characters, hexUnit?_control _ h]
  simp only [hleading, htrailing, Bool.false_eq_true, if_false, Char.ofNat_toNat]

theorem characters_plain {c : Char} {t : List Char} (hquote : c ≠ '"') (hescape : c ≠ '\\')
    (h : ¬ c.toNat < 0x20) : characters (c :: t) = push c (characters t) := by
  rw [characters]
  · exact if_neg h
  · exact hquote
  all_goals
    intros
    contradiction

theorem characters_writtenChar (c : Char) (t : List Char) :
    characters (writtenChar c ++ t) = push c (characters t) := by
  unfold writtenChar
  split
  iterate 7 · rfl
  · rename_i hquote hescape _ _ _ _ _
    by_cases hcontrol : c.toNat < 0x20
    · rw [if_pos hcontrol]
      exact characters_control hcontrol
    · rw [if_neg hcontrol]
      exact characters_plain hquote hescape hcontrol

theorem characters_written (s t : List Char) :
    characters (s.flatMap writtenChar ++ '"' :: t) = .ok (s, t) := by
  induction s with
  | nil => rfl
  | cons c s ih =>
    rw [List.flatMap_cons, List.append_assoc, characters_writtenChar, ih]
    rfl

theorem string?_written (s : String) (t : List Char) :
    string? (s.toList.flatMap writtenChar ++ '"' :: t) = .ok (s, t) := by
  rw [string?, characters_written]
  exact congrArg (fun read => Except.ok (read, t)) (String.ofList_toList ..)

theorem writtenString_append (s t : List Char) :
    writtenString s ++ t = '"' :: (s.flatMap writtenChar ++ '"' :: t) := by
  simp [writtenString]

/-! ### Lines -/

def line (width : Nat) (s : List Char) : List Char := '\n' :: (List.replicate width ' ' ++ s)

/-- A token other than the closing character stands in front. -/
def Starts (closing : Char) (s : List Char) : Prop :=
  ∃ c tail, s = c :: tail ∧ isSpace c = false ∧ c ≠ closing

/-- What comes behind an item of a block: a comma, or the end of the line. -/
def EndsItem (s : List Char) : Prop := ∃ tail, s = ',' :: tail ∨ s = '\n' :: tail

theorem Starts.opens {closing : Char} {s : List Char} (h : Starts closing s) : Opens closing s := by
  obtain ⟨c, tail, hs, _, hne⟩ := h
  exact ⟨c, tail, hs, hne⟩

theorem skipSpace_of_head {c : Char} {s : List Char} (h : isSpace c = false) :
    skipSpace (c :: s) = c :: s := by
  simp [skipSpace, h]

theorem Starts.skipSpace_eq {closing : Char} {s : List Char} (h : Starts closing s) :
    skipSpace s = s := by
  obtain ⟨c, tail, rfl, hspace, _⟩ := h
  exact skipSpace_of_head hspace

theorem skipSpace_line (width : Nat) (s : List Char) : skipSpace (line width s) = skipSpace s := by
  have hspaces : ∀ c ∈ List.replicate width ' ', isSpace c = true := by
    intro c hc
    rw [List.eq_of_mem_replicate hc]
    decide
  rw [line, skipSpace, skipSpace, List.dropWhile_cons_of_pos (by decide)]
  exact List.dropWhile_append_of_pos hspaces

theorem endsItem_line (width : Nat) (s : List Char) : EndsItem (line width s) := ⟨_, .inr rfl⟩

/-- The items of a block after its first one. -/
def furtherLines (width : Nat) (items : List (List Char)) : List Char :=
  items.flatMap fun item => ',' :: line width item

theorem intercalate_comma (first : List Char) (rest : List (List Char)) :
    [','].intercalate (first :: rest) = first ++ rest.flatMap fun item => ',' :: item := by
  induction rest generalizing first with
  | nil => simp
  | cons second rest ih =>
    have hstep := ih second
    rw [List.intercalate_cons_cons, hstep]
    simp

theorem block_cons (opening closing : Char) (indent : Nat) (first : List Char)
    (rest : List (List Char)) :
    block opening closing indent (first :: rest) =
      opening :: (line (indent + 2) first ++ furtherLines (indent + 2) rest
        ++ line indent [closing]) := by
  simp only [block, List.map_cons, intercalate_comma, List.flatMap_map, line, furtherLines,
    List.cons_append, List.append_assoc]

theorem endsItem_furtherLines (width indent : Nat) (items : List (List Char)) (rest : List Char) :
    EndsItem (furtherLines width items ++ line indent rest) := by
  cases items with
  | nil => exact endsItem_line indent rest
  | cons item items => exact ⟨_, .inl rfl⟩

theorem length_furtherLines (width indent : Nat) (items : List (List Char)) (rest : List Char) :
    items.length < (furtherLines width items ++ line indent rest).length := by
  induction items with
  | nil => simp [furtherLines, line]
  | cons item items ih =>
    simp only [furtherLines, List.flatMap_cons, List.length_append, List.length_cons] at ih ⊢
    omega

theorem line_append (width : Nat) (s t : List Char) : line width s ++ t = line width (s ++ t) := by
  simp [line]

theorem skipSpace_line_head (width : Nat) {c : Char} (s : List Char) (h : isSpace c = false) :
    skipSpace (line width (c :: s)) = c :: s := by
  rw [skipSpace_line, skipSpace_of_head h]

/-! ### Blocks -/

section Blocks

variable {ε α β : Type} {closing : Char} {Takes : List Char → α → List Char → Prop}
  {all : List Char → Except ε (List α × List Char)}
  {further : Nat → List Char → Except ε (List α × List Char)} {print : β → List Char}
  {R : β → α → Prop}

/-- What is printed for `b` is taken, in front of what comes behind an item, for something that
stands for `b`. -/
def TakesPrinted (Takes : List Char → α → List Char → Prop) (print : β → List Char)
    (R : β → α → Prop) (b : β) : Prop :=
  ∀ rest, EndsItem rest → skipSpace (print b ++ rest) = print b ++ rest ∧
    ∃ a, Takes (print b ++ rest) a rest ∧ R b a

theorem ReadsBlock.further_lines (hreads : ReadsBlock closing Takes all further) {bs : List β}
    (h : ∀ b ∈ bs, TakesPrinted Takes print R b) (width indent : Nat) (rest : List Char)
    {fuel : Nat} (hfuel : bs.length < fuel) :
    ∃ as, further fuel (furtherLines width (bs.map print) ++ line indent (closing :: rest))
        = .ok (as, rest) ∧ List.Forall₂ R bs as := by
  induction bs generalizing fuel with
  | nil =>
    obtain ⟨fuel, rfl⟩ := Nat.exists_eq_succ_of_ne_zero (Nat.ne_of_gt hfuel)
    refine ⟨[], hreads.succ_iff.2 (.inl ⟨?_, rfl⟩), .nil⟩
    exact skipSpace_line_head indent rest hreads.noSpace
  | cons b bs ih =>
    obtain ⟨fuel, rfl⟩ := Nat.exists_eq_succ_of_ne_zero (Nat.ne_of_gt (Nat.zero_lt_of_lt hfuel))
    obtain ⟨as, has, hstand⟩ := ih (fun b' hb' => h b' (List.mem_cons_of_mem _ hb'))
      (Nat.lt_of_succ_lt_succ hfuel)
    obtain ⟨hskip, a, ha, hba⟩ := h b (List.mem_cons_self ..) _
      (endsItem_furtherLines width indent (bs.map print) (closing :: rest))
    refine ⟨a :: as, hreads.succ_iff.2 (.inr ⟨line width (print b ++
      (furtherLines width (bs.map print) ++ line indent (closing :: rest))), a, _, as, ?_, ?_, has,
      rfl⟩), .cons hba hstand⟩
    · rw [List.map_cons, furtherLines, List.flatMap_cons, List.append_assoc, List.cons_append,
        line_append]
      exact skipSpace_of_head (by decide)
    · rw [skipSpace_line, hskip]
      exact ha

/-- A block is read item by item as what its items are read as. -/
theorem ReadsBlock.block (hreads : ReadsBlock closing Takes all further) {bs : List β}
    (h : ∀ b ∈ bs, TakesPrinted Takes print R b) (opening : Char) (indent : Nat)
    (rest : List Char) : ∃ tail, block opening closing indent (bs.map print) ++ rest
      = opening :: tail ∧ ∃ as, all tail = .ok (as, rest) ∧ List.Forall₂ R bs as := by
  cases bs with
  | nil =>
    refine ⟨closing :: rest, rfl, [], hreads.all_iff.2 (.inl ⟨?_, rfl⟩), .nil⟩
    exact skipSpace_of_head hreads.noSpace
  | cons b bs =>
    obtain ⟨hskip, a, ha, hba⟩ := h b (List.mem_cons_self ..) _
      (endsItem_furtherLines (indent + 2) indent (bs.map print) (closing :: rest))
    have hlength := length_furtherLines (indent + 2) indent (bs.map print) (closing :: rest)
    rw [List.length_map] at hlength
    obtain ⟨as, has, hstand⟩ := hreads.further_lines
      (fun b' hb' => h b' (List.mem_cons_of_mem _ hb')) (indent + 2) indent rest hlength
    refine ⟨line (indent + 2) (print b ++ (furtherLines (indent + 2) (bs.map print)
      ++ line indent (closing :: rest))), ?_, a :: as,
      hreads.all_iff.2 (.inr ⟨a, _, as, ?_, has, rfl⟩), .cons hba hstand⟩
    · simp only [List.map_cons, block_cons, List.cons_append, List.append_assoc, line_append,
        List.nil_append]
    · rw [skipSpace_line, hskip]
      exact ha

end Blocks

/-! ### Lists -/

section Lists

variable {α β : Type} {item : List Char → Except Fault (α × List Char)} {print : β → List Char}
  {R : β → α → Prop}

/-- What is printed for `b` is read, as an item of a list, as something that stands for `b`. -/
def ReadsItem (item : List Char → Except Fault (α × List Char)) (print : β → List Char)
    (R : β → α → Prop) (b : β) : Prop :=
  ∀ rest, EndsItem rest → Starts ']' (print b ++ rest) ∧
    ∃ a, item (print b ++ rest) = .ok (a, rest) ∧ R b a

theorem ReadsItem.takesPrinted {b : β} (h : ReadsItem item print R b) :
    TakesPrinted (TakesElement item) print R b := by
  intro rest hrest
  obtain ⟨hstarts, a, ha, hba⟩ := h rest hrest
  exact ⟨hstarts.skipSpace_eq, a, ⟨hstarts.opens, ha⟩, hba⟩

theorem elements_block {bs : List β} (h : ∀ b ∈ bs, ReadsItem item print R b) (indent : Nat)
    (rest : List Char) : ∃ tail, block '[' ']' indent (bs.map print) ++ rest = '[' :: tail ∧
      ∃ as, elements item tail = .ok (as, rest) ∧ List.Forall₂ R bs as :=
  (readsBlock_elements item).block (fun b hb => (h b hb).takesPrinted) '[' indent rest

end Lists

/-! ### Objects -/

section Objects

variable {ε : Type} {α β : Type}
  {value : String → List Char → Except ε (α × List Char)} {name : β → String}
  {print : β → List Char} {R : β → α → Prop}

def memberText (name : β → String) (print : β → List Char) (b : β) : List Char :=
  writtenString (name b).toList ++ ':' :: ' ' :: print b

/-- What is printed for `b` is read, as the value under its name, as something that stands for
`b`. -/
def ReadsMember (value : String → List Char → Except ε (α × List Char)) (name : β → String)
    (print : β → List Char) (R : β → α → Prop) (b : β) : Prop :=
  ∀ rest, EndsItem rest → ∃ a, value (name b) (' ' :: (print b ++ rest)) = .ok (a, rest) ∧ R b a

theorem colon_head (s : List Char) : colon (':' :: s) = .ok s := by
  have hskip : skipSpace (':' :: s) = ':' :: s := skipSpace_of_head (by decide)
  simp only [colon, hskip]

theorem memberText_append (b : β) (rest : List Char) :
    memberText name print b ++ rest = '"' :: ((name b).toList.flatMap writtenChar
      ++ '"' :: ':' :: ' ' :: (print b ++ rest)) := by
  simp [memberText, writtenString]

theorem ReadsMember.takesPrinted {b : β} (h : ReadsMember value name print R b) (lift : Fault → ε) :
    TakesPrinted (TakesMember lift value) (memberText name print) R b := by
  intro rest hrest
  obtain ⟨a, ha, hba⟩ := h rest hrest
  rw [memberText_append]
  refine ⟨skipSpace_of_head (by decide), a, ⟨_, rfl, ?_⟩, hba⟩
  exact member_eq_ok_iff.2 ⟨name b, _, _, string?_written .., colon_head _, ha⟩

theorem members_block {bs : List β} (h : ∀ b ∈ bs, ReadsMember value name print R b)
    (lift : Fault → ε) (indent : Nat) (rest : List Char) :
    ∃ tail, block '{' '}' indent (bs.map (memberText name print)) ++ rest = '{' :: tail ∧
      ∃ as, members lift value tail = .ok (as, rest) ∧ List.Forall₂ R bs as :=
  (readsBlock_members lift value).block (fun b hb => (h b hb).takesPrinted lift) '{' indent rest

end Objects

end SidecarIndex.Json

import Mathlib.Data.List.TakeWhile
import SidecarIndex.Text.Basic

/-! # Separators and blanks

Splitting a text at a separator leaves pieces without it, and what stands in front of a text or
behind it and has no separator goes to the first or the last piece. Trimming takes the blanks off
both ends and nothing else, so that a text is known from its signs, which are the other characters,
at its ends. -/

namespace SidecarIndex.Text

/-! ### Pieces between separators -/

section Pieces

variable {separator : Char} {s front back : List Char}

theorem not_mem_of_mem_splitOn : ∀ piece ∈ s.splitOn separator, separator ∉ piece := by
  induction s with
  | nil => simp
  | cons c rest ih =>
    rw [List.splitOn_cons_eq_if_modifyHead]
    by_cases hc : c = separator
    · rw [if_pos (by simp [hc])]
      exact List.forall_mem_cons.2 ⟨List.not_mem_nil, ih⟩
    · rw [if_neg (by simp [hc])]
      obtain ⟨first, others, hsplit⟩ :=
        List.exists_cons_of_ne_nil (List.splitOn_ne_nil separator rest)
      rw [hsplit, List.forall_mem_cons] at ih
      rw [hsplit, List.modifyHead_cons, List.forall_mem_cons]
      exact ⟨List.not_mem_cons_of_ne_of_not_mem (Ne.symm hc) ih.1, ih.2⟩

theorem splitOn_front (h : separator ∉ front) {first : List Char} {more : List (List Char)}
    (hs : s.splitOn separator = first :: more) :
    (front ++ s).splitOn separator = (front ++ first) :: more := by
  induction front with
  | nil => exact hs
  | cons c rest ih =>
    obtain ⟨hc, hrest⟩ := not_or.1 (mt List.mem_cons.2 h)
    rw [List.cons_append, List.splitOn_cons_eq_if_modifyHead, if_neg (by simpa using Ne.symm hc),
      ih hrest]
    rfl

theorem exists_splitOn_back (h : separator ∉ back) (s : List Char) : ∃ before last,
    s.splitOn separator = before ++ [last] ∧
    (s ++ back).splitOn separator = before ++ [last ++ back] := by
  induction s with
  | nil => exact ⟨[], [], rfl, List.splitOn_eq_singleton h⟩
  | cons c rest ih =>
    obtain ⟨before, last, hrest, hback⟩ := ih
    rw [List.cons_append, List.splitOn_cons_eq_if_modifyHead, List.splitOn_cons_eq_if_modifyHead,
      hrest, hback]
    by_cases hc : c = separator
    · exact ⟨[] :: before, last, if_pos (by simp [hc]), if_pos (by simp [hc])⟩
    · rw [if_neg (by simp [hc]), if_neg (by simp [hc])]
      cases before with
      | nil => exact ⟨[], c :: last, rfl, rfl⟩
      | cons first before => exact ⟨(c :: first) :: before, last, rfl, rfl⟩

end Pieces

/-! ### Trimming -/

section Trimming

variable {s before after : List Char}

def AllBlank (s : List Char) : Prop := ∀ c ∈ s, isBlank c = true

instance : DecidablePred AllBlank :=
  fun s => decidable_of_iff (s.all isBlank = true) List.all_eq_true

theorem AllBlank.reverse (h : AllBlank s) : AllBlank s.reverse := fun c hc =>
    h c (List.mem_reverse.1 hc)

theorem AllBlank.not_mem (h : AllBlank s) {c : Char} (hc : isBlank c = false) : c ∉ s := by
  intro hmem
  rw [h c hmem] at hc
  cases hc

theorem dropWhile_blank_append (h : AllBlank before) (s : List Char) :
    (before ++ s).dropWhile isBlank = s.dropWhile isBlank :=
  List.dropWhile_append_of_pos h

theorem dropWhile_of_head (h : ∀ c ∈ s.head?, isBlank c = false) : s.dropWhile isBlank = s := by
  cases s with
  | nil => rfl
  | cons c s => exact List.dropWhile_cons_of_neg (by simp [h c rfl])

theorem trim_of_ends (hfirst : ∀ c ∈ s.head?, isBlank c = false)
    (hlast : ∀ c ∈ s.getLast?, isBlank c = false) : trim s = s := by
  have hreverse : ∀ c ∈ s.reverse.head?, isBlank c = false := by
    rw [List.head?_reverse]
    exact hlast
  rw [trim, trimRight, dropWhile_of_head hfirst, dropWhile_of_head hreverse, List.reverse_reverse]

theorem trim_blank_append (h : AllBlank before) (s : List Char) : trim (before ++ s) = trim s := by
  rw [trim, dropWhile_blank_append h, trim]

theorem trim_cons_blank {c : Char} (h : isBlank c = true) : trim (c :: s) = trim s := by
  have hblank : AllBlank [c] := List.forall_mem_singleton.2 h
  exact trim_blank_append hblank s

theorem trimRight_append_blank (h : AllBlank after) (s : List Char) :
    trimRight (s ++ after) = trimRight s := by
  rw [trimRight, List.reverse_append, dropWhile_blank_append h.reverse, trimRight]

theorem trim_of_allBlank (h : AllBlank s) : trim s = [] := by
  have htrim := trim_blank_append h []
  rwa [List.append_nil] at htrim

theorem trim_append_blank (h : AllBlank after) (s : List Char) : trim (s ++ after) = trim s := by
  cases hs : s.dropWhile isBlank with
  | nil =>
    have hblank : AllBlank s := List.dropWhile_eq_nil_iff.1 hs
    rw [trim_blank_append hblank, trim_of_allBlank h, trim_of_allBlank hblank]
  | cons c rest =>
    have hdrop : (s ++ after).dropWhile isBlank = c :: rest ++ after := by
      rw [List.dropWhile_append, hs]
      rfl
    rw [trim, hdrop, trimRight_append_blank h, trim, hs]

theorem trim_surrounded (hbefore : AllBlank before) (hafter : AllBlank after) (s : List Char) :
    trim (before ++ (s ++ after)) = trim s := by
  rw [trim_blank_append hbefore, trim_append_blank hafter]

/-- A text is what trimming leaves of it, with blanks before and after. -/
theorem exists_blanks_trim (s : List Char) : ∃ before after, AllBlank before ∧ AllBlank after ∧
    s = before ++ (trim s ++ after) := by
  have hfront : ∀ t : List Char, AllBlank (t.takeWhile isBlank) :=
    fun t c hc => List.mem_takeWhile_imp hc
  refine ⟨s.takeWhile isBlank, ((s.dropWhile isBlank).reverse.takeWhile isBlank).reverse, hfront s,
    (hfront _).reverse, ?_⟩
  rw [trim, trimRight, ← List.reverse_append, List.takeWhile_append_dropWhile, List.reverse_reverse,
    List.takeWhile_append_dropWhile]

theorem trim_prefix (s : List Char) : trim s <+: s.dropWhile isBlank := by
  have hsuffix := List.dropWhile_suffix isBlank (l := (s.dropWhile isBlank).reverse)
  rwa [← List.reverse_prefix, List.reverse_reverse] at hsuffix

theorem isBlank_of_head?_trim {c : Char} (h : (trim s).head? = some c) : isBlank c = false := by
  obtain ⟨more, hmore⟩ := trim_prefix s
  have hhead := List.head?_dropWhile_not isBlank s
  rw [← hmore, List.head?_append, h] at hhead
  exact hhead

theorem isBlank_of_getLast?_trim {c : Char} (h : (trim s).getLast? = some c) :
    isBlank c = false := by
  rw [trim, trimRight, List.getLast?_reverse] at h
  have hhead := List.head?_dropWhile_not isBlank (s.dropWhile isBlank).reverse
  rwa [h] at hhead

end Trimming

/-! ### Signs -/

/-- The characters of a text that are no blanks. -/
def signs (s : List Char) : List Char := s.filter fun c => !isBlank c

theorem signs_append (s t : List Char) : signs (s ++ t) = signs s ++ signs t :=
  List.filter_append ..

theorem signs_of_allBlank {s : List Char} (h : AllBlank s) : signs s = [] :=
  List.filter_eq_nil_iff.2 fun c hc => by simp [h c hc]

theorem signs_trim (s : List Char) : signs (trim s) = signs s := by
  obtain ⟨before, after, hbefore, hafter, hs⟩ := exists_blanks_trim s
  have hsigns := congrArg signs hs
  rw [signs_append, signs_append, signs_of_allBlank hbefore, signs_of_allBlank hafter,
    List.nil_append, List.append_nil] at hsigns
  exact hsigns.symm

theorem count_signs {c : Char} (hc : isBlank c = false) (s : List Char) :
    (signs s).count c = s.count c :=
  List.count_filter (by simp [hc])

theorem head?_trim (s : List Char) : (trim s).head? = (signs s).head? := by
  rw [← signs_trim s]
  cases htrim : trim s with
  | nil => rfl
  | cons c rest =>
    have hc : isBlank c = false := isBlank_of_head?_trim (s := s) (by rw [htrim]; rfl)
    rw [signs, List.filter_cons_of_pos (by simp [hc]), List.head?_cons, List.head?_cons]

theorem getLast?_trim (s : List Char) : (trim s).getLast? = (signs s).getLast? := by
  rw [← signs_trim s]
  rcases List.eq_nil_or_concat (trim s) with htrim | ⟨rest, c, htrim⟩
  · rw [htrim]
    rfl
  · rw [List.concat_eq_append] at htrim
    have hc : isBlank c = false :=
      isBlank_of_getLast?_trim (s := s) (by rw [htrim, List.getLast?_concat])
    have hlast : signs [c] = [c] := List.filter_cons_of_pos (by simp [hc])
    rw [htrim, signs_append, hlast, List.getLast?_concat, List.getLast?_concat]

end SidecarIndex.Text

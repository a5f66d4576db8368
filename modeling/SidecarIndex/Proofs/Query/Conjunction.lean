import Mathlib.Data.List.Perm.Basic
import SidecarIndex.Proofs.Index.Catalog
import SidecarIndex.Proofs.Query.Grammar

/-! # Queries are conjunctions

A query is read token by token, so two queries with a space between them are read exactly when both
of them are, and give the predicates of the one and then those of the other. Filtering keeps what
every predicate accepts. It therefore does not matter in which order the tokens stand, nor whether a
view is filtered by all of them at once or by some of them first. -/

namespace SidecarIndex

namespace Query

variable {query other : String} {ps : List Predicate}

/-! ### Tokens -/

def tokens (query : String) : List (List Char) := query.toList.splitOn ' '

theorem tokens_eq_iff : tokens query = [[]] ↔ query = "" := by
  apply Iff.intro
  · intro h
    have htext : [' '].intercalate (tokens query) = query.toList := List.intercalate_splitOn ' '
    rw [h] at htext
    exact String.toList_eq_nil_iff.1 htext.symm
  · rintro rfl
    rfl

theorem tokens_joined (query other : String) :
    tokens (query ++ " " ++ other) = tokens query ++ tokens other := by
  have htext : (query ++ " " ++ other).toList = query.toList ++ ' ' :: other.toList := by
    simp
  rw [tokens, htext, List.splitOn_append_cons_self, tokens, tokens]

theorem ofText_eq_ok_iff_tokens (h : query ≠ "") :
    ofText query = .ok ps ↔ IsValid ps ∧ ps.map Predicate.text = tokens query := by
  rw [ofText, if_neg h, mapM_tokens_eq_ok_iff, tokens]

/-! ### Joined queries -/

theorem joined_ne_empty (query other : String) : query ++ " " ++ other ≠ "" := by
  intro hempty
  have htext := congrArg String.toList hempty
  simp at htext

theorem ofText_joined_eq_ok_iff (hquery : query ≠ "") (hother : other ≠ "") :
    ofText (query ++ " " ++ other) = .ok ps ↔
      ∃ front back, ofText query = .ok front ∧ ofText other = .ok back ∧ ps = front ++ back := by
  rw [ofText_eq_ok_iff_tokens (joined_ne_empty query other), tokens_joined, List.map_eq_append_iff]
  simp only [ofText_eq_ok_iff_tokens hquery, ofText_eq_ok_iff_tokens hother]
  apply Iff.intro
  · rintro ⟨hvalid, front, back, rfl, hfront, hback⟩
    refine ⟨front, back, ⟨fun p hp => ?_, hfront⟩, ⟨fun p hp => ?_, hback⟩, rfl⟩
    · exact hvalid p (List.mem_append_left _ hp)
    · exact hvalid p (List.mem_append_right _ hp)
  · rintro ⟨front, back, ⟨hvalidFront, hfront⟩, ⟨hvalidBack, hback⟩, rfl⟩
    refine ⟨fun p hp => ?_, front, back, rfl, hfront, hback⟩
    rcases List.mem_append.1 hp with hp | hp
    · exact hvalidFront p hp
    · exact hvalidBack p hp

/-! ### Permuted queries -/

/-- The same tokens in another order are read as the same predicates in another order. -/
theorem exists_ofText_of_perm (hperm : (tokens other).Perm (tokens query))
    (h : ofText query = .ok ps) : ∃ qs, ofText other = .ok qs ∧ qs.Perm ps := by
  by_cases hempty : query = ""
  · rw [tokens_eq_iff.2 hempty, List.perm_singleton, tokens_eq_iff] at hperm
    rw [hperm, ← hempty]
    exact ⟨ps, h, .refl ps⟩
  · have hother : other ≠ "" := by
      intro heq
      rw [tokens_eq_iff.2 heq, List.singleton_perm, eq_comm, tokens_eq_iff] at hperm
      exact hempty hperm
    obtain ⟨hvalid, htexts⟩ := (ofText_eq_ok_iff_tokens hempty).1 h
    have hread : List.Forall₂ (fun token p => Predicate.text p = token) (tokens query) ps := by
      rw [← htexts, List.forall₂_map_left_iff, List.forall₂_same]
      exact fun _ _ => rfl
    obtain ⟨qs, hqs, hsame⟩ := List.perm_comp_forall₂ hperm hread
    have htextsOther : qs.map Predicate.text = tokens other := by
      rw [← List.forall₂_eq_eq_eq, List.forall₂_map_left_iff]
      exact hqs.flip
    exact ⟨qs, (ofText_eq_ok_iff_tokens hother).2 ⟨fun p hp => hvalid p (hsame.subset hp),
      htextsOther⟩, hsame⟩

theorem accepts_perm {qs : List Predicate} (h : qs.Perm ps) (d : Document) :
    accepts qs d = accepts ps d := by
  rw [Bool.eq_iff_iff, accepts, accepts, List.all_eq_true, List.all_eq_true]
  exact ⟨fun hall p hp => hall p (h.mem_iff.2 hp), fun hall p hp => hall p (h.mem_iff.1 hp)⟩

end Query

namespace Catalog

variable {c : Catalog} {view found : View} {query other : String} {ps qs : List Predicate}

/-! ### Selecting -/

theorem select_select (c : Catalog) (view : View) (ps qs : List Predicate) :
    c.select (c.select view ps) qs = c.select view (ps ++ qs) := by
  simp only [select, List.filter_filter, Query.accepts_append, Bool.and_comm]

theorem select_perm (h : qs.Perm ps) (c : Catalog) (view : View) :
    c.select view qs = c.select view ps := by
  simp only [select, Query.accepts_perm h]

/-! ### Filtering -/

theorem filter_eq_error_iff : (∃ e, c.filter view query = .error e) ↔
    ∀ ps, Query.ofText query ≠ .ok ps := by
  rw [exists_error_iff]
  simp only [Ne, filter_eq_ok_iff, not_exists, not_and]
  exact ⟨fun h ps hps => h _ ps hps rfl, fun h _ ps hps _ => h ps hps⟩

/-- To filter twice is to filter by the predicates of both queries. -/
theorem filter_filter_eq_ok_iff : (c.filter view query >>= fun first => c.filter first other)
    = .ok found ↔ ∃ ps qs, Query.ofText query = .ok ps ∧ Query.ofText other = .ok qs ∧
      found = c.select view (ps ++ qs) := by
  simp only [bind_eq_ok_iff, filter_eq_ok_iff]
  apply Iff.intro
  · rintro ⟨_, ⟨ps, hps, rfl⟩, qs, hqs, rfl⟩
    exact ⟨ps, qs, hps, hqs, select_select ..⟩
  · rintro ⟨ps, qs, hps, hqs, rfl⟩
    exact ⟨_, ⟨ps, hps, rfl⟩, qs, hqs, (select_select ..).symm⟩

theorem filter_joined_eq_ok_iff (hquery : query ≠ "") (hother : other ≠ "") :
    c.filter view (query ++ " " ++ other) = .ok found ↔
      (c.filter view query >>= fun first => c.filter first other) = .ok found := by
  simp only [filter_filter_eq_ok_iff, filter_eq_ok_iff, Query.ofText_joined_eq_ok_iff hquery hother]
  apply Iff.intro
  · rintro ⟨_, ⟨ps, qs, hps, hqs, rfl⟩, rfl⟩
    exact ⟨ps, qs, hps, hqs, rfl⟩
  · rintro ⟨ps, qs, hps, hqs, rfl⟩
    exact ⟨_, ⟨ps, qs, hps, hqs, rfl⟩, rfl⟩

theorem filter_filter_comm :
    (c.filter view query >>= fun first => c.filter first other) = .ok found ↔
      (c.filter view other >>= fun first => c.filter first query) = .ok found := by
  simp only [filter_filter_eq_ok_iff]
  apply Iff.intro
  · rintro ⟨ps, qs, hps, hqs, rfl⟩
    exact ⟨qs, ps, hqs, hps, select_perm List.perm_append_comm c view⟩
  · rintro ⟨qs, ps, hqs, hps, rfl⟩
    exact ⟨ps, qs, hps, hqs, select_perm List.perm_append_comm c view⟩

theorem filter_filter_self (c : Catalog) (view : View) (query : String) :
    (c.filter view query >>= fun found => c.filter found query) = c.filter view query := by
  cases h : c.filter view query with
  | error e => rfl
  | ok found =>
    obtain ⟨ps, hps, rfl⟩ := filter_eq_ok_iff.1 h
    refine filter_eq_ok_iff.2 ⟨ps, hps, ?_⟩
    simp only [select, List.filter_filter, Bool.and_self]

theorem filter_eq_ok_of_perm (hperm : (Query.tokens other).Perm (Query.tokens query))
    (h : c.filter view query = .ok found) : c.filter view other = .ok found := by
  obtain ⟨ps, hps, rfl⟩ := filter_eq_ok_iff.1 h
  obtain ⟨qs, hqs, hsame⟩ := Query.exists_ofText_of_perm hperm hps
  exact filter_eq_ok_iff.2 ⟨qs, hqs, (select_perm hsame c view).symm⟩

theorem filter_joined_eq_error_iff (hquery : query ≠ "") (hother : other ≠ "") :
    (∃ e, c.filter view (query ++ " " ++ other) = .error e) ↔
      (∃ e, c.filter view query = .error e) ∨ ∃ e, c.filter view other = .error e := by
  simp only [filter_eq_error_iff]
  apply Iff.intro
  · intro h
    by_contra hread
    simp only [not_or, not_forall, Decidable.not_not] at hread
    obtain ⟨⟨ps, hps⟩, qs, hqs⟩ := hread
    exact h _ ((Query.ofText_joined_eq_ok_iff hquery hother).2 ⟨ps, qs, hps, hqs, rfl⟩)
  · intro h both hboth
    obtain ⟨ps, qs, hps, hqs, _⟩ := (Query.ofText_joined_eq_ok_iff hquery hother).1 hboth
    rcases h with h | h
    · exact h ps hps
    · exact h qs hqs

/-- Filtering by two queries with a space between them fails exactly when filtering by one of them
fails, and else finds what is found by filtering by the one and then by the other, in either order.
To filter by a query again changes nothing. What is found are the entries, in their order, whose
documents all predicates accept; the order of the tokens in the query does not matter. -/
theorem filter_conjunction (c : Catalog) (view : View) :
    (∀ first second : String, first ≠ "" → second ≠ "" →
      ((∃ e, c.filter view (first ++ " " ++ second) = .error e) ↔
        (∃ e, c.filter view first = .error e) ∨ ∃ e, c.filter view second = .error e) ∧
      ∀ found, c.filter view (first ++ " " ++ second) = .ok found →
        (c.filter view first >>= fun half => c.filter half second) = .ok found ∧
        (c.filter view second >>= fun half => c.filter half first) = .ok found ∧
        c.filter view (second ++ " " ++ first) = .ok found) ∧
    (∀ query : String,
      (c.filter view query >>= fun found => c.filter found query) = c.filter view query) ∧
    (∀ (query : String) (found : View), c.filter view query = .ok found →
      found.Sublist view ∧ ∃ ps, Query.ofText query = .ok ps ∧
        found = List.filter
          (fun entry => decide (∀ p ∈ ps, p.accepts (c.document entry.slot) = true)) view) ∧
    ∀ query other : String, (Query.tokens other).Perm (Query.tokens query) →
      ((∃ e, c.filter view other = .error e) ↔ ∃ e, c.filter view query = .error e) ∧
      ∀ found, c.filter view other = .ok found ↔ c.filter view query = .ok found := by
  refine ⟨?_, c.filter_filter_self view, ?_, ?_⟩
  · intro first second hfirst hsecond
    refine ⟨filter_joined_eq_error_iff hfirst hsecond, fun found hfound => ?_⟩
    have hthen := (filter_joined_eq_ok_iff hfirst hsecond).1 hfound
    have hswapped := filter_filter_comm.1 hthen
    exact ⟨hthen, hswapped, (filter_joined_eq_ok_iff hsecond hfirst).2 hswapped⟩
  · intro query found hfound
    obtain ⟨ps, hps, rfl⟩ := filter_eq_ok_iff.1 hfound
    refine ⟨List.filter_sublist, ps, hps, List.filter_congr fun entry _ => ?_⟩
    rw [Bool.eq_iff_iff, Query.accepts, List.all_eq_true, decide_eq_true_iff]
  · intro query other hperm
    have hsame : ∀ found, c.filter view other = .ok found ↔ c.filter view query = .ok found :=
      fun found => ⟨filter_eq_ok_of_perm hperm.symm, filter_eq_ok_of_perm hperm⟩
    refine ⟨?_, hsame⟩
    simp only [exists_error_iff, Ne, hsame]

def ratings : Catalog where
  documents := [.ofList [("rating", [.number .zero]), ("tag", [.text "draft"])],
    .ofList [("rating", [.number .zero])], .ofList [("tag", [.text "memo"])]]
  registry := ⟨.ofList [("rating", some .number), ("tag", some .text)]⟩

/-- A blank too many stays an error, on whichever side of it the query is cut. -/
theorem filter_conjunction_of_ratings :
    let view : View := [⟨⟨"a"⟩, 0⟩, ⟨⟨"b"⟩, 1⟩, ⟨⟨"c"⟩, 2⟩]
    ratings.filter view ("rating<4" ++ " " ++ "!draft") = .ok [⟨⟨"b"⟩, 1⟩] ∧
    (ratings.filter view "!draft" >>= fun half => ratings.filter half "rating<4")
    = .ok [⟨⟨"b"⟩, 1⟩] ∧
    ratings.filter view ("!draft" ++ " " ++ "rating<4") = .ok [⟨⟨"b"⟩, 1⟩] ∧
    (∃ e, ratings.filter view ("rating<4 " ++ " " ++ "!draft") = .error e) ∧
    ∃ e, ratings.filter view ("rating<4" ++ " " ++ " !draft") = .error e := by
  intro view
  obtain ⟨hjoined, _, _, _⟩ := filter_conjunction ratings view
  have hfound : ratings.filter view ("rating<4" ++ " " ++ "!draft") = .ok [⟨⟨"b"⟩, 1⟩] := by
    decide +kernel
  have hbehind : ratings.filter view "rating<4 "
      = .error (.predicateFormat (.space "rating<4 ")) := by decide +kernel
  have hahead : ratings.filter view " !draft" = .error (.predicateFormat (.space " !draft")) := by
    decide +kernel
  obtain ⟨_, hboth⟩ := hjoined "rating<4" "!draft" (by decide) (by decide)
  obtain ⟨_, hthen, hswapped⟩ := hboth _ hfound
  refine ⟨hfound, hthen, hswapped, ?_, ?_⟩
  · exact (hjoined "rating<4 " "!draft" (by decide) (by decide)).1.2 (.inl ⟨_, hbehind⟩)
  · exact (hjoined "rating<4" " !draft" (by decide) (by decide)).1.2 (.inr ⟨_, hahead⟩)

end Catalog

end SidecarIndex

import SidecarIndex.Query.Reader
import SidecarIndex.Proofs.Lexical
import SidecarIndex.Proofs.Document.RoundTrip

/-! # The grammar of queries

A query is nothing, or predicates with one space between two of them. Reading a query takes the
longest name in front and the longer of two operators and never tries again, but no text has two
readings: what is read is what is written, and every list of predicates that can be written is read
back. -/

namespace SidecarIndex

/-! ### The grammar -/

inductive IsLiteralText : List Char → Prop where
  | plain {body : List Char} (hne : body ≠ []) (h : ∀ c ∈ body, IsLiteralSign c) :
      IsLiteralText body
  | marked {body : List Char} (hne : body ≠ []) (h : ∀ c ∈ body, IsLiteralSign c) :
    IsLiteralText ('#' :: body)

inductive IsOperatorText : List Char → Prop where
  | eq : IsOperatorText ['=']
  | ne : IsOperatorText ['!', '=']
  | lt : IsOperatorText ['<']
  | gt : IsOperatorText ['>']
  | le : IsOperatorText ['<', '=']
  | ge : IsOperatorText ['>', '=']

inductive IsPredicateText : List Char → Prop where
  | comparison {name op literal : List Char} (hname : isName name = true) (hop : IsOperatorText op)
    (hliteral : IsLiteralText literal) : IsPredicateText (name ++ op ++ literal)
  | occurrence {literal : List Char} (h : IsLiteralText literal) : IsPredicateText literal
  | absence {literal : List Char} (h : IsLiteralText literal) : IsPredicateText ('!' :: literal)

inductive IsQueryText : List Char → Prop where
  | empty : IsQueryText []
  | predicates {tokens : List (List Char)} (hne : tokens ≠ [])
      (h : ∀ token ∈ tokens, IsPredicateText token) :
    IsQueryText ([' '].intercalate tokens)

/-! ### Literals -/

theorem isLiteral_iff_isLiteralText {s : List Char} : isLiteral s = true ↔ IsLiteralText s := by
  have hbody : ∀ {body : List Char}, (∀ c ∈ body, isLiteralChar c = true) ↔
      ∀ c ∈ body, IsLiteralSign c := by
    intro body
    simp only [isLiteralChar_iff]
  rw [isLiteral_iff]
  apply Iff.intro
  · rintro ⟨hne, h⟩
    rw [hbody] at h
    by_cases hmark : s.head? = some '#'
    · obtain ⟨body, rfl⟩ := List.head?_eq_some_iff.1 hmark
      exact .marked hne h
    · rw [dropMark_of_head hmark] at hne h
      exact .plain hne h
  · intro h
    cases h with
    | plain hne h =>
      have hmark : s.head? ≠ some '#' := by
        intro hhead
        have hsign := h '#' (List.mem_of_head? hhead)
        exact absurd (isLiteralChar_iff.2 hsign) (by decide)
      rw [dropMark_of_head hmark]
      exact ⟨hne, hbody.2 h⟩
    | marked hne h => exact ⟨hne, hbody.2 h⟩

/-! ### Operators -/

namespace Operator

theorem isOperatorText_iff {s : List Char} : IsOperatorText s ↔ ∃ op : Operator, op.text = s := by
  apply Iff.intro
  · intro h
    cases h with
    | eq => exact ⟨eq, rfl⟩
    | ne => exact ⟨ne, rfl⟩
    | lt => exact ⟨lt, rfl⟩
    | gt => exact ⟨gt, rfl⟩
    | le => exact ⟨le, rfl⟩
    | ge => exact ⟨ge, rfl⟩
  · rintro ⟨op, rfl⟩
    cases op with
    | eq => exact .eq
    | ne => exact .ne
    | lt => exact .lt
    | gt => exact .gt
    | le => exact .le
    | ge => exact .ge

/-- Where a literal follows, no longer operator can be read than the one that was written. -/
theorem split?_text (op : Operator) {literal : List Char} (h : isLiteral literal = true) :
    split? (op.text ++ literal) = some (op, literal) := by
  have heq : '=' ∉ literal := not_mem_of_isLiteral h (by decide) (by decide)
  cases literal with
  | nil => exact absurd rfl (ne_nil_of_isLiteral h)
  | cons c rest =>
    have hc : c ≠ '=' := fun hc => heq (hc ▸ List.mem_cons_self ..)
    cases op with
    | eq => rfl
    | ne => rfl
    | lt => simp [text, split?, hc]
    | gt => simp [text, split?, hc]
    | le => rfl
    | ge => rfl

theorem split?_eq_none {s : List Char} (h : ∀ c ∈ s.head?, isLiteralChar c = true) :
    split? s = none := by
  cases hsplit : split? s with
  | none => rfl
  | some found =>
    obtain ⟨op, rest⟩ := found
    have hs := text_append_of_split? hsplit
    cases op
    all_goals
      subst hs
      exact absurd (h _ rfl) (by decide)

end Operator

/-! ### Predicates -/

namespace Predicate

/-- A predicate that can be written in a query. -/
def IsValid : Predicate → Prop
  | comparison name _ literal => isName name.toList = true ∧ isLiteral literal.toList = true
  | occurrence _ literal => isLiteral literal.toList = true

instance : DecidablePred IsValid
  | comparison name _ literal =>
    inferInstanceAs (Decidable (isName name.toList = true ∧ isLiteral literal.toList = true))
  | occurrence _ literal => inferInstanceAs (Decidable (isLiteral literal.toList = true))

theorem splitName_name {name rest : List Char} (hname : isName name = true)
    (hrest : ∀ c ∈ rest.head?, isNameChar c = false) : splitName (name ++ rest) = (name, rest) := by
  obtain ⟨c, tail, rfl, hstart, htail⟩ := (isName_iff name).1 hname
  have hall : ∀ d ∈ c :: tail, isNameChar d = true := by
    intro d hd
    rcases List.mem_cons.1 hd with rfl | hd
    · exact isNameChar_of_isNameStart hstart
    · exact htail d hd
  have hstop : rest.takeWhile isNameChar = [] ∧ rest.dropWhile isNameChar = rest := by
    cases rest with
    | nil => exact ⟨rfl, rfl⟩
    | cons d rest =>
      have hd : isNameChar d = false := hrest d rfl
      simp [hd]
  have hsplit : splitName (c :: tail ++ rest)
      = ((c :: tail ++ rest).takeWhile isNameChar, (c :: tail ++ rest).dropWhile isNameChar) :=
    if_pos hstart
  rw [hsplit, List.takeWhile_append_of_pos hall, List.dropWhile_append_of_pos hall, hstop.1,
    hstop.2, List.append_nil]

/-- A text starts with the longest name in front of it, or with none. -/
theorem splitName_cases (s : List Char) :
    splitName s = ([], s) ∨ ∃ name rest, splitName s = (name, rest) ∧ s = name ++ rest ∧
      isName name = true := by
  cases s with
  | nil => exact .inl rfl
  | cons c tail =>
    by_cases hstart : isNameStart c = true
    · refine .inr ⟨_, _, if_pos hstart, (List.takeWhile_append_dropWhile ..).symm, ?_⟩
      rw [List.takeWhile_cons_of_pos (isNameChar_of_isNameStart hstart), isName_iff]
      exact ⟨c, _, rfl, hstart, fun d hd => List.mem_takeWhile_imp hd⟩
    · exact .inl (if_neg hstart)

theorem occurrence?_text {negated : Bool} {literal : String} (h : isLiteral literal.toList = true) :
    occurrence? (occurrence negated literal).text = some (occurrence negated literal) := by
  cases negated with
  | true =>
    have hread : occurrence? ('!' :: literal.toList)
        = some (occurrence true (String.ofList literal.toList)) := if_pos h
    rw [String.ofList_toList] at hread
    exact hread
  | false =>
    have hmark : '!' ∉ literal.toList := not_mem_of_isLiteral h (by decide) (by decide)
    show occurrence? literal.toList = some (occurrence false literal)
    unfold occurrence?
    split
    · rename_i heq
      rw [heq] at hmark
      exact absurd (List.mem_cons_self ..) hmark
    · rw [if_pos h, String.ofList_toList]

theorem eq_text_of_occurrence? {s : List Char} {p : Predicate} (h : occurrence? s = some p) :
    p.IsValid ∧ p.text = s := by
  unfold occurrence? at h
  split at h
  · obtain ⟨hliteral, heq⟩ := Option.ite_none_right_eq_some.1 h
    cases heq
    simp [IsValid, text, hliteral]
  · obtain ⟨hliteral, heq⟩ := Option.ite_none_right_eq_some.1 h
    cases heq
    simp [IsValid, text, hliteral]

/-- Behind a name that stands in front of a literal there is no operator. -/
theorem split?_behind_name {name rest : List Char} (h : isLiteral (name ++ rest) = true)
    (hname : isName name = true) : Operator.split? rest = none := by
  refine Operator.split?_eq_none fun c hc => ?_
  have hmem : c ∈ name ++ rest := List.mem_append_right _ (List.mem_of_head? hc)
  obtain ⟨first, tail, rfl, hstart, _⟩ := (isName_iff name).1 hname
  cases isLiteral_iff_isLiteralText.1 h with
  | plain _ hall => exact isLiteralChar_iff.2 (hall c hmem)
  | marked => exact absurd hstart (by decide +kernel)

theorem ofToken?_text {p : Predicate} (h : p.IsValid) : ofToken? p.text = some p := by
  cases p with
  | comparison name op literal =>
    obtain ⟨hname, hliteral⟩ := h
    -- No operator starts with a character of a name, so the longest name in front is this one.
    have hrest : ∀ c ∈ (op.text ++ literal.toList).head?, isNameChar c = false := by
      intro c hc
      cases op
      all_goals
        cases hc
        decide +kernel
    have hne : name.toList.isEmpty = false := by
      obtain ⟨c, tail, htext, _⟩ := (isName_iff _).1 hname
      rw [htext]
      rfl
    rw [ofToken?, text, List.append_assoc, splitName_name hname hrest]
    simp only [hne, Operator.split?_text op hliteral, hliteral, String.ofList_toList,
      Bool.false_eq_true, if_false, if_true]
  | occurrence negated literal =>
    have hread : occurrence? (occurrence negated literal).text
        = some (occurrence negated literal) :=
      occurrence?_text h
    rw [ofToken?]
    rcases splitName_cases (occurrence negated literal).text with hnone |
      ⟨name, rest, hsplit, htext, hname⟩
    · rw [hnone]
      exact hread
    · rw [hsplit]
      cases negated with
      | true =>
        -- A text that starts with the sign of absence starts with no name.
        obtain ⟨c, tail, rfl, hstart, _⟩ := (isName_iff name).1 hname
        have hhead : '!' = c := (List.cons.inj htext).1
        subst hhead
        exact absurd hstart (by decide +kernel)
      | false =>
        have hlist : literal.toList = name ++ rest := htext
        have hliteral : isLiteral (name ++ rest) = true := hlist ▸ h
        simp only [split?_behind_name hliteral hname, hread, ite_self]

theorem eq_text_of_ofToken? {s : List Char} {p : Predicate} (h : ofToken? s = some p) :
    p.IsValid ∧ p.text = s := by
  rw [ofToken?] at h
  rcases splitName_cases s with hnone | ⟨name, rest, hsplit, rfl, hname⟩
  · rw [hnone] at h
    exact eq_text_of_occurrence? h
  · rw [hsplit] at h
    have hne : name.isEmpty = false := by
      obtain ⟨c, tail, rfl, _⟩ := (isName_iff name).1 hname
      rfl
    simp only [hne, Bool.false_eq_true, if_false] at h
    split at h
    · rename_i op literal hop
      obtain ⟨hliteral, heq⟩ := Option.ite_none_right_eq_some.1 h
      cases heq
      rw [Operator.text_append_of_split? hop]
      simp [IsValid, text, hname, hliteral]
    · exact eq_text_of_occurrence? h

theorem ofToken?_eq_some_iff {s : List Char} {p : Predicate} :
    ofToken? s = some p ↔ p.IsValid ∧ p.text = s := by
  apply Iff.intro
  · exact eq_text_of_ofToken?
  · rintro ⟨hvalid, rfl⟩
    exact ofToken?_text hvalid

theorem ofToken_eq_ok_iff {s : List Char} {p : Predicate} :
    ofToken s = .ok p ↔ p.IsValid ∧ p.text = s := by
  rw [← ofToken?_eq_some_iff, ofToken]
  cases ofToken? s with
  | none => exact ⟨fun h => (nomatch h), fun h => (nomatch h)⟩
  | some found => exact ⟨fun h => by cases h; rfl, fun h => by cases h; rfl⟩

theorem isPredicateText_iff {s : List Char} :
    IsPredicateText s ↔ ∃ p : Predicate, p.IsValid ∧ p.text = s := by
  apply Iff.intro
  · intro h
    cases h with
    | @comparison name op literal hname hop hliteral =>
      obtain ⟨op, rfl⟩ := Operator.isOperatorText_iff.1 hop
      refine ⟨.comparison (String.ofList name) op (String.ofList literal), ?_, ?_⟩
      · simp [IsValid, hname, isLiteral_iff_isLiteralText.2 hliteral]
      · simp [text]
    | occurrence hliteral =>
      refine ⟨.occurrence false (String.ofList s), ?_, ?_⟩
      · simp [IsValid, isLiteral_iff_isLiteralText.2 hliteral]
      · simp [text]
    | @absence literal hliteral =>
      refine ⟨.occurrence true (String.ofList literal), ?_, ?_⟩
      · simp [IsValid, isLiteral_iff_isLiteralText.2 hliteral]
      · simp [text]
  · rintro ⟨p, hvalid, rfl⟩
    cases p with
    | comparison name op literal =>
      exact .comparison hvalid.1 (Operator.isOperatorText_iff.2 ⟨op, rfl⟩)
        (isLiteral_iff_isLiteralText.1 hvalid.2)
    | occurrence negated literal =>
      have hliteral := isLiteral_iff_isLiteralText.1 hvalid
      cases negated with
      | true => exact .absence hliteral
      | false => exact .occurrence hliteral

theorem text_ne_nil {p : Predicate} (h : p.IsValid) : p.text ≠ [] := by
  cases p with
  | comparison name op literal =>
      exact List.append_ne_nil_of_right_ne_nil _ (ne_nil_of_isLiteral h.2)
  | occurrence negated literal => exact List.append_ne_nil_of_right_ne_nil _ (ne_nil_of_isLiteral h)

theorem space_not_mem_text {p : Predicate} (h : p.IsValid) : ' ' ∉ p.text := by
  have hliteral : ∀ {s : List Char}, isLiteral s = true → ' ' ∉ s :=
    fun hs => not_mem_of_isLiteral hs (by decide) (by decide)
  cases p with
  | comparison name op literal =>
    have hname : ' ' ∉ name.toList := by
      obtain ⟨c, tail, htext, hstart, htail⟩ := (isName_iff _).1 h.1
      rw [htext]
      intro hmem
      have hspace : isNameChar ' ' = true := by
        rcases List.mem_cons.1 hmem with rfl | hmem
        · exact isNameChar_of_isNameStart hstart
        · exact htail _ hmem
      exact absurd hspace (by decide +kernel)
    have hop : ' ' ∉ op.text := by
      cases op
      all_goals decide
    simp [text, hname, hop, hliteral h.2]
  | occurrence negated literal =>
    have hmark : ' ' ∉ (if negated then ['!'] else []) := by
      cases negated
      all_goals decide
    exact List.not_mem_append hmark (hliteral h)

end Predicate

/-! ### Queries -/

namespace Query

def IsValid (ps : List Predicate) : Prop := ∀ p ∈ ps, p.IsValid

instance : DecidablePred IsValid :=
  fun ps => inferInstanceAs (Decidable (∀ p ∈ ps, p.IsValid))

theorem text_eq_nil_iff {ps : List Predicate} (h : IsValid ps) : text ps = [] ↔ ps = [] := by
  cases ps with
  | nil => exact ⟨fun _ => rfl, fun _ => rfl⟩
  | cons p rest =>
    have hp := Predicate.text_ne_nil (h p (List.mem_cons_self ..))
    have htext : text (p :: rest) ≠ [] := by
      cases rest with
      | nil => simpa [text] using hp
      | cons next rest => simp [text, List.intercalate_cons_cons]
    exact ⟨fun hnil => absurd hnil htext, fun hnil => nomatch hnil⟩

theorem splitOn_text {ps : List Predicate} (h : IsValid ps) (hne : ps ≠ []) :
    (text ps).splitOn ' ' = ps.map Predicate.text := by
  refine List.splitOn_intercalate ' ' ?_ (by simpa using hne)
  intro token htoken
  obtain ⟨p, hp, rfl⟩ := List.mem_map.1 htoken
  exact Predicate.space_not_mem_text (h p hp)

/-- The tokens that are read as predicates are their texts. -/
theorem mapM_tokens_eq_ok_iff {query : String} {tokens : List (List Char)} {ps : List Predicate} :
    tokens.mapM (fun token =>
        if token.isEmpty then .error (QueryFault.space query) else Predicate.ofToken token)
          = .ok ps ↔
      IsValid ps ∧ ps.map Predicate.text = tokens := by
  rw [mapM_eq_ok_iff]
  have htoken : ∀ (token : List Char) (p : Predicate),
      (if token.isEmpty then .error (QueryFault.space query) else Predicate.ofToken token) = .ok p ↔
        p.IsValid ∧ p.text = token := by
    intro token p
    cases token with
    | nil => exact ⟨fun h => (nomatch h), fun h => absurd h.2 (Predicate.text_ne_nil h.1)⟩
    | cons c tail => exact Predicate.ofToken_eq_ok_iff
  have hflip : List.Forall₂ (fun token p => Predicate.IsValid p ∧ p.text = token) tokens ps ↔
      List.Forall₂ (fun p token => p.IsValid ∧ p.text = token) ps tokens :=
    ⟨List.Forall₂.flip, List.Forall₂.flip⟩
  simp only [htoken]
  rw [hflip, List.forall₂_and_left, ← List.forall₂_map_left_iff, List.forall₂_eq_eq_eq]
  rfl

theorem ofText_eq_ok_iff {query : String} {ps : List Predicate} :
    ofText query = .ok ps ↔ IsValid ps ∧ text ps = query.toList := by
  rw [ofText]
  by_cases hempty : query = ""
  · subst hempty
    rw [if_pos rfl]
    apply Iff.intro
    · intro h
      cases h
      exact ⟨fun p hp => (nomatch hp), rfl⟩
    · rintro ⟨hvalid, htext⟩
      rw [(text_eq_nil_iff hvalid).1 htext]
  · rw [if_neg hempty, mapM_tokens_eq_ok_iff]
    refine and_congr_right fun hvalid => ?_
    apply Iff.intro
    · intro htokens
      rw [text, htokens, List.intercalate_splitOn]
    · intro htext
      have hne : ps ≠ [] := by
        intro hnil
        rw [hnil] at htext
        exact hempty (String.toList_inj.1 htext.symm)
      rw [← htext, splitOn_text hvalid hne]

theorem isQueryText_iff {s : List Char} : IsQueryText s ↔ ∃ ps, IsValid ps ∧ text ps = s := by
  apply Iff.intro
  · intro h
    cases h with
    | empty => exact ⟨[], fun p hp => (nomatch hp), rfl⟩
    | @predicates tokens hne h =>
      simp only [Predicate.isPredicateText_iff] at h
      have : Nonempty Predicate := ⟨.occurrence false ""⟩
      choose! read hvalid htext using h
      refine ⟨tokens.map read, ?_, ?_⟩
      · intro p hp
        obtain ⟨token, htoken, rfl⟩ := List.mem_map.1 hp
        exact hvalid token htoken
      · have hmap : tokens.map (Predicate.text ∘ read) = tokens :=
          (List.map_congr_left htext).trans (List.map_id' tokens)
        rw [text, List.map_map, hmap]
  · rintro ⟨ps, hvalid, rfl⟩
    cases ps with
    | nil => exact .empty
    | cons p rest =>
      refine .predicates (by simp) fun token htoken => ?_
      obtain ⟨q, hq, rfl⟩ := List.mem_map.1 htoken
      exact Predicate.isPredicateText_iff.2 ⟨q, hvalid q hq, rfl⟩

end Query

/-! ### Names in side-cars and names in queries -/

/-- A name under which some side-car that can be read has an attribute. -/
def IsLoadable (name : String) : Prop :=
  ∃ (text : String) (d : Document), Document.ofText text = .ok d ∧ d.contains name = true

theorem isLoadable_iff {name : String} : IsLoadable name ↔ isName name.toList = true := by
  apply Iff.intro
  · rintro ⟨text, d, hread, hcontains⟩
    obtain ⟨values, hvalues⟩ := OrderedMap.contains_iff.1 hcontains
    have hentry : (name, values) ∈ d.entries := OrderedMap.mem_entries_iff.2 hvalues
    exact ((Document.isStorable_of_ofText hread).1 _ hentry).isName
  · intro hname
    let d := Document.empty.set name []
    have hstorable : d.IsStorable :=
      Document.isStorable_set (fun _ hentry => nomatch hentry)
        ⟨hname, ⟨.text, fun _ hv => nomatch hv⟩, fun _ hv => nomatch hv⟩
    have hread : d.IsRead :=
      Document.isRead_set (fun _ hentry => nomatch hentry) fun _ hv => nomatch hv
    have hget : d.get? name = some [] := (Document.get?_set ..).trans (if_pos rfl)
    exact ⟨d.text, d, Document.ofText_text hstorable hread, OrderedMap.contains_iff.2 ⟨[], hget⟩⟩

namespace Query

/-- A single predicate is the whole query. -/
theorem ofText_predicate_eq_ok_iff {s : List Char} {p : Predicate} :
    ofText (String.ofList s) = .ok [p] ↔ p.IsValid ∧ p.text = s := by
  rw [ofText_eq_ok_iff]
  simp [IsValid, text]

/-- The queries that are read are those of the grammar. A query that is read is the text of its
predicates, and the text of predicates is read as these predicates. A comparison on a name is read
as one exactly when the name can stand in a side-car. -/
theorem ofText_iff_grammar :
    (∀ query : String, (∃ ps, ofText query = .ok ps) ↔ IsQueryText query.toList) ∧
    (∀ (query : String) (ps : List Predicate), ofText query = .ok ps →
      String.ofList (text ps) = query) ∧
    (∀ ps : List Predicate, IsValid ps → ofText (String.ofList (text ps)) = .ok ps) ∧
    ∀ (name : String) (op : Operator) (literal : String), isLiteral literal.toList = true →
      let written := String.ofList (name.toList ++ op.text ++ literal.toList)
      (IsLoadable name ↔ ∃ op' literal', ofText written = .ok [.comparison name op' literal']) ∧
      (IsLoadable name ↔ ofText written = .ok [.comparison name op literal]) := by
  refine ⟨?_, ?_, ?_, ?_⟩
  · intro query
    simp only [ofText_eq_ok_iff]
    exact isQueryText_iff.symm
  · intro query ps h
    rw [(ofText_eq_ok_iff.1 h).2, String.ofList_toList]
  · intro ps hvalid
    exact ofText_eq_ok_iff.2 ⟨hvalid, String.toList_ofList.symm⟩
  · intro name op literal hliteral written
    have hexact : isName name.toList = true → ofText written = .ok [.comparison name op literal] :=
      fun hname => ofText_predicate_eq_ok_iff.2 ⟨⟨hname, hliteral⟩, rfl⟩
    have hname : ∀ {op' literal'}, ofText written = .ok [.comparison name op' literal'] →
        isName name.toList = true :=
      fun h => (ofText_predicate_eq_ok_iff.1 h).1.1
    rw [isLoadable_iff]
    exact ⟨⟨fun h => ⟨op, literal, hexact h⟩, fun ⟨_, _, h⟩ => hname h⟩, hexact, hname⟩

/-- The sign `!` after a name is read with the operator, in front of a literal as absence. -/
theorem ofText_written_predicates :
    let ps : List Predicate := [.comparison "größe" .ge "10", .occurrence true "#2024-05-01",
      .comparison "_a" .ne "-1"]
    String.ofList (text ps) = "größe>=10 !#2024-05-01 _a!=-1" ∧
      ofText "größe>=10 !#2024-05-01 _a!=-1" = .ok ps ∧
      IsQueryText "größe>=10 !#2024-05-01 _a!=-1".toList ∧ IsLoadable "größe" ∧
      ¬ ∃ op literal, ofText "2nd=x" = .ok [.comparison "2nd" op literal] := by
  intro ps
  have htext : String.ofList (text ps) = "größe>=10 !#2024-05-01 _a!=-1" := by decide
  have hvalid : IsValid ps := by decide +kernel
  obtain ⟨hgrammar, _, hread, hname⟩ := ofText_iff_grammar
  have hps := hread ps hvalid
  rw [htext] at hps
  have hloadable : IsLoadable "größe" :=
    ((hname "größe" .ge "10" (by decide)).2).2 (hread [.comparison "größe" .ge "10"]
      (by decide +kernel))
  refine ⟨htext, hps, (hgrammar _).1 ⟨ps, hps⟩, hloadable, ?_⟩
  intro hcomparison
  have hbad := ((hname "2nd" .eq "x" (by decide)).1).2 hcomparison
  exact absurd (isLoadable_iff.1 hbad) (by decide +kernel)

end Query

end SidecarIndex

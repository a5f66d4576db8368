import SidecarIndex.Json.Reader
import SidecarIndex.Proofs.Outcome

/-! # When lists and objects are read

What has to stand in a text so that the readers of lists and of objects give a result, one item at a
time. Both are readers of a block, and what follows is proved for all such readers: every item was
taken somewhere, and two readers that agree item by item agree on whole blocks. -/

namespace SidecarIndex.Json

def Opens (closing : Char) (s : List Char) : Prop := ∃ c rest, s = c :: rest ∧ c ≠ closing

theorem opens_of_ne {closing : Char} {s : List Char} (hnil : s ≠ [])
    (hclose : ∀ rest, s = closing :: rest → False) : Opens closing s := by
  cases s with
  | nil => exact absurd rfl hnil
  | cons c rest =>
    refine ⟨c, rest, rfl, ?_⟩
    intro hc
    exact hclose rest (by rw [hc])

/-- A first thing is read, and then the others. -/
theorem cons_eq_ok_iff {ε α : Type} (first : Except ε (α × List Char))
    (others : List Char → Except ε (List α × List Char)) {as : List α} {rest : List Char} :
    (do
      let (a, next) ← first
      let (as, rest) ← others next
      .ok (a :: as, rest) : Except ε (List α × List Char)) = .ok (as, rest) ↔
      ∃ a next as', first = .ok (a, next) ∧ others next = .ok (as', rest) ∧ as = a :: as' := by
  simp only [bind_eq_ok_iff]
  apply Iff.intro
  · intro h
    obtain ⟨⟨a, next⟩, ha, ⟨as', rest'⟩, has, h⟩ := h
    cases h
    exact ⟨a, next, as', ha, has, rfl⟩
  · intro h
    obtain ⟨a, next, as', ha, has, rfl⟩ := h
    exact ⟨(a, next), ha, (as', rest), has, rfl⟩

/-! ### Blocks -/

/-- A list or an object is read behind its opening character: all of it, or what is behind its first
item. Either reader takes item by item, as `Takes` says, up to the closing character. -/
structure ReadsBlock {ε α : Type} (closing : Char) (Takes : List Char → α → List Char → Prop)
    (all : List Char → Except ε (List α × List Char))
    (further : Nat → List Char → Except ε (List α × List Char)) : Prop where
  noSpace : isSpace closing = false
  all_iff : ∀ {s rest as}, all s = .ok (as, rest) ↔ (skipSpace s = closing :: rest ∧ as = []) ∨
    ∃ a next as', Takes (skipSpace s) a next ∧ further next.length next = .ok (as', rest) ∧
      as = a :: as'
  zero_ne : ∀ {s rest as}, further 0 s ≠ .ok (as, rest)
  succ_iff : ∀ {fuel s rest as}, further (fuel + 1) s = .ok (as, rest) ↔
    (skipSpace s = closing :: rest ∧ as = []) ∨
    ∃ tail a next as', skipSpace s = ',' :: tail ∧ Takes (skipSpace tail) a next ∧
      further fuel next = .ok (as', rest) ∧ as = a :: as'

section Agreement

variable {ε ε' : Type} {α β : Type} {closing : Char} {Takes : List Char → α → List Char → Prop}
  {all : List Char → Except ε (List α × List Char)}
  {further : Nat → List Char → Except ε (List α × List Char)}
  {Takes' : List Char → β → List Char → Prop}
  {all' : List Char → Except ε' (List β × List Char)}
  {further' : Nat → List Char → Except ε' (List β × List Char)} {R : α → β → Prop}

theorem ReadsBlock.further_iff (h : ReadsBlock closing Takes all further)
    (h' : ReadsBlock closing Takes' all' further')
    (htakes : ∀ s b next, Takes' s b next ↔ ∃ a, Takes s a next ∧ R a b) {fuel : Nat}
    {s rest : List Char} {bs : List β} : further' fuel s = .ok (bs, rest) ↔
      ∃ as, further fuel s = .ok (as, rest) ∧ List.Forall₂ R as bs := by
  induction fuel generalizing s bs with
  | zero =>
    constructor
    · exact fun hb => absurd hb h'.zero_ne
    · intro ha
      obtain ⟨_, ha, _⟩ := ha
      exact absurd ha h.zero_ne
  | succ fuel ih =>
    rw [h'.succ_iff]
    simp only [h.succ_iff]
    apply Iff.intro
    · intro hb
      rcases hb with ⟨hs, rfl⟩ | ⟨tail, b, next, bs', hs, hb, hbs, rfl⟩
      · exact ⟨[], .inl ⟨hs, rfl⟩, .nil⟩
      · obtain ⟨a, ha, hab⟩ := (htakes ..).1 hb
        obtain ⟨as', has, habs⟩ := ih.1 hbs
        exact ⟨a :: as', .inr ⟨tail, a, next, as', hs, ha, has, rfl⟩, .cons hab habs⟩
    · intro ha
      obtain ⟨as, ha, habs⟩ := ha
      rcases ha with ⟨hs, rfl⟩ | ⟨tail, a, next, as', hs, ha, has, rfl⟩
      · cases habs
        exact .inl ⟨hs, rfl⟩
      · cases habs with
        | cons hab habs =>
          exact .inr ⟨tail, _, next, _, hs, (htakes ..).2 ⟨a, ha, hab⟩, ih.2 ⟨as', has, habs⟩, rfl⟩

/-- Readers that agree item by item agree on whole blocks. -/
theorem ReadsBlock.all_iff_of_takes (h : ReadsBlock closing Takes all further)
    (h' : ReadsBlock closing Takes' all' further')
    (htakes : ∀ s b next, Takes' s b next ↔ ∃ a, Takes s a next ∧ R a b) {s rest : List Char}
    {bs : List β} :
    all' s = .ok (bs, rest) ↔ ∃ as, all s = .ok (as, rest) ∧ List.Forall₂ R as bs := by
  rw [h'.all_iff]
  simp only [h.all_iff]
  apply Iff.intro
  · intro hb
    rcases hb with ⟨hs, rfl⟩ | ⟨b, next, bs', hb, hbs, rfl⟩
    · exact ⟨[], .inl ⟨hs, rfl⟩, .nil⟩
    · obtain ⟨a, ha, hab⟩ := (htakes ..).1 hb
      obtain ⟨as', has, habs⟩ := (h.further_iff h' htakes).1 hbs
      exact ⟨a :: as', .inr ⟨a, next, as', ha, has, rfl⟩, .cons hab habs⟩
  · intro ha
    obtain ⟨as, ha, habs⟩ := ha
    rcases ha with ⟨hs, rfl⟩ | ⟨a, next, as', ha, has, rfl⟩
    · cases habs
      exact .inl ⟨hs, rfl⟩
    · cases habs with
      | cons hab habs =>
        refine .inr ⟨_, next, _, (htakes ..).2 ⟨a, ha, hab⟩, ?_, rfl⟩
        exact (h.further_iff h' htakes).2 ⟨as', has, habs⟩

/-- Each item of a block has been taken somewhere. -/
theorem ReadsBlock.exists_takes (h : ReadsBlock closing Takes all further) {s rest : List Char}
    {as : List α} (hread : all s = .ok (as, rest)) : ∀ a ∈ as, ∃ t next, Takes t a next := by
  have hself : ∀ t b next, Takes t b next ↔
      ∃ a, Takes t a next ∧ (a = b ∧ ∃ t next, Takes t b next) := by
    intro t b next
    apply Iff.intro
    · exact fun hb => ⟨b, hb, rfl, t, next, hb⟩
    · intro ha
      obtain ⟨a, ha, rfl, _⟩ := ha
      exact ha
  obtain ⟨_, _, htaken⟩ := (h.all_iff_of_takes h hself).1 hread
  intro a ha
  obtain ⟨_, _, _, htakes⟩ := exists_of_forall₂_of_mem htaken ha
  exact htakes

end Agreement

/-! ### Lists -/

section Lists

variable {α : Type} {item : List Char → Except Fault (α × List Char)}

def TakesElement (item : List Char → Except Fault (α × List Char)) (s : List Char) (a : α)
    (next : List Char) : Prop :=
  Opens ']' s ∧ item s = .ok (a, next)

theorem furtherElements_succ_eq_ok_iff {fuel : Nat} {s rest : List Char} {as : List α} :
    furtherElements item (fuel + 1) s = .ok (as, rest) ↔
      (skipSpace s = ']' :: rest ∧ as = []) ∨
      ∃ tail a next as', skipSpace s = ',' :: tail ∧ TakesElement item (skipSpace tail) a next ∧
        furtherElements item fuel next = .ok (as', rest) ∧ as = a :: as' := by
  rw [furtherElements]
  split
  · rename_i hs
    simp [hs]
  · rename_i t hs
    simp [hs, and_comm, eq_comm]
  · rename_i tail hs
    split
    · rename_i ht
      simp [hs, ht, TakesElement, Opens]
    · rename_i r ht
      simp [hs, ht, TakesElement, Opens]
    · rename_i hnil hclose
      have hopen : Opens ']' (skipSpace tail) := opens_of_ne hnil hclose
      refine (cons_eq_ok_iff (item (skipSpace tail)) (furtherElements item fuel)).trans ?_
      simp [hs, hopen, TakesElement]
  · rename_i hnil hclose hcomma
    have hneClose : ∀ t, skipSpace s ≠ ']' :: t := hclose
    have hneComma : ∀ t, skipSpace s ≠ ',' :: t := hcomma
    simp [hneClose, hneComma]

theorem elements_eq_ok_iff {s rest : List Char} {as : List α} :
    elements item s = .ok (as, rest) ↔
      (skipSpace s = ']' :: rest ∧ as = []) ∨
      ∃ a next as', TakesElement item (skipSpace s) a next ∧
        furtherElements item next.length next = .ok (as', rest) ∧ as = a :: as' := by
  rw [elements]
  split
  · rename_i hs
    simp [hs, TakesElement, Opens]
  · rename_i t hs
    simp [hs, TakesElement, Opens, and_comm, eq_comm]
  · rename_i hnil hclose
    have hopen : Opens ']' (skipSpace s) := opens_of_ne hnil hclose
    have hneClose : ∀ t, skipSpace s ≠ ']' :: t := hclose
    refine (cons_eq_ok_iff (item (skipSpace s)) fun next =>
      furtherElements item next.length next).trans ?_
    simp [hopen, hneClose, TakesElement]

theorem readsBlock_elements (item : List Char → Except Fault (α × List Char)) :
    ReadsBlock ']' (TakesElement item) (elements item) (furtherElements item) where
  noSpace := by decide
  all_iff := elements_eq_ok_iff
  zero_ne := by
    intro _ _ _ h
    cases h
  succ_iff := furtherElements_succ_eq_ok_iff

theorem exists_read_of_elements {s rest : List Char} {as : List α}
    (h : elements item s = .ok (as, rest)) : ∀ a ∈ as, ∃ t r, item t = .ok (a, r) := by
  intro a ha
  obtain ⟨t, next, _, hread⟩ := (readsBlock_elements item).exists_takes h a ha
  exact ⟨t, next, hread⟩

end Lists

/-! ### Objects -/

section Objects

variable {ε : Type} {α : Type} {lift : Fault → ε}
  {value : String → List Char → Except ε (α × List Char)}

theorem member_eq_ok_iff {s rest : List Char} {a : α} :
    member lift value s = .ok (a, rest) ↔
      ∃ name afterName afterColon, string? s = .ok (name, afterName) ∧
        colon afterName = .ok afterColon ∧ value name afterColon = .ok (a, rest) := by
  simp only [member, bind_eq_ok_iff, mapError_eq_ok_iff]
  apply Iff.intro
  · intro h
    obtain ⟨⟨name, afterName⟩, hname, afterColon, hcolon, hvalue⟩ := h
    exact ⟨name, afterName, afterColon, hname, hcolon, hvalue⟩
  · intro h
    obtain ⟨name, afterName, afterColon, hname, hcolon, hvalue⟩ := h
    exact ⟨(name, afterName), hname, afterColon, hcolon, hvalue⟩

def TakesMember (lift : Fault → ε) (value : String → List Char → Except ε (α × List Char))
    (s : List Char) (a : α) (next : List Char) : Prop :=
  ∃ tail, s = '"' :: tail ∧ member lift value tail = .ok (a, next)

theorem furtherMembers_succ_eq_ok_iff {fuel : Nat} {s rest : List Char} {as : List α} :
    furtherMembers lift value (fuel + 1) s = .ok (as, rest) ↔
      (skipSpace s = '}' :: rest ∧ as = []) ∨
      ∃ tail a next as', skipSpace s = ',' :: tail ∧
      TakesMember lift value (skipSpace tail) a next ∧
        furtherMembers lift value fuel next = .ok (as', rest) ∧ as = a :: as' := by
  rw [furtherMembers]
  split
  · rename_i hs
    simp [hs]
  · rename_i t hs
    simp [hs, and_comm, eq_comm]
  · rename_i tail hs
    split
    · rename_i ht
      simp [hs, ht, TakesMember]
    · rename_i r ht
      simp [hs, ht, TakesMember]
    · rename_i next ht
      refine (cons_eq_ok_iff (member lift value next) (furtherMembers lift value fuel)).trans ?_
      simp [hs, ht, TakesMember]
    · rename_i hnil hclose hquote
      have hneQuote : ∀ t, skipSpace tail ≠ '"' :: t := hquote
      simp [hs, hneQuote, TakesMember]
  · rename_i hnil hclose hcomma
    have hneClose : ∀ t, skipSpace s ≠ '}' :: t := hclose
    have hneComma : ∀ t, skipSpace s ≠ ',' :: t := hcomma
    simp [hneClose, hneComma]

theorem members_eq_ok_iff {s rest : List Char} {as : List α} :
    members lift value s = .ok (as, rest) ↔
      (skipSpace s = '}' :: rest ∧ as = []) ∨
      ∃ a next as', TakesMember lift value (skipSpace s) a next ∧
        furtherMembers lift value next.length next = .ok (as', rest) ∧ as = a :: as' := by
  rw [members]
  split
  · rename_i hs
    simp [hs, TakesMember]
  · rename_i t hs
    simp [hs, TakesMember, and_comm, eq_comm]
  · rename_i next hs
    refine (cons_eq_ok_iff (member lift value next) fun after =>
      furtherMembers lift value after.length after).trans ?_
    simp [hs, TakesMember]
  · rename_i hnil hclose hquote
    have hneClose : ∀ t, skipSpace s ≠ '}' :: t := hclose
    have hneQuote : ∀ t, skipSpace s ≠ '"' :: t := hquote
    simp [hneClose, hneQuote, TakesMember]

theorem readsBlock_members (lift : Fault → ε)
    (value : String → List Char → Except ε (α × List Char)) :
    ReadsBlock '}' (TakesMember lift value) (members lift value) (furtherMembers lift value) where
  noSpace := by decide
  all_iff := members_eq_ok_iff
  zero_ne := by
    intro _ _ _ h
    cases h
  succ_iff := furtherMembers_succ_eq_ok_iff

theorem exists_read_of_members {s rest : List Char} {as : List α}
    (h : members lift value s = .ok (as, rest)) :
    ∀ a ∈ as, ∃ name t r, value name t = .ok (a, r) := by
  intro a ha
  obtain ⟨_, next, _, _, hmember⟩ := (readsBlock_members lift value).exists_takes h a ha
  obtain ⟨name, _, t, _, _, hread⟩ := member_eq_ok_iff.1 hmember
  exact ⟨name, t, next, hread⟩

end Objects

/-! ### Two readers of one object -/

section Refinement

variable {ε ε' : Type} {α β : Type} {lift' : Fault → ε'}
  {value : String → List Char → Except ε (α × List Char)}
  {value' : String → List Char → Except ε' (β × List Char)} {R : α → β → Prop}

/-- The second reader reads what the first reads and what stands in the relation to it. -/
def Refines (value : String → List Char → Except ε (α × List Char))
    (value' : String → List Char → Except ε' (β × List Char)) (R : α → β → Prop) : Prop :=
  ∀ name s b rest, value' name s = .ok (b, rest) ↔ ∃ a, value name s = .ok (a, rest) ∧ R a b

theorem Refines.member_iff (h : Refines value value' R) (lift : Fault → ε) {s rest : List Char}
    {b : β} : member lift' value' s = .ok (b, rest) ↔ ∃ a, member lift value s = .ok (a, rest) ∧
    R a b := by
  simp only [member_eq_ok_iff]
  apply Iff.intro
  · intro hb
    obtain ⟨name, afterName, afterColon, hname, hcolon, hvalue⟩ := hb
    obtain ⟨a, ha, hab⟩ := (h ..).1 hvalue
    exact ⟨a, ⟨name, afterName, afterColon, hname, hcolon, ha⟩, hab⟩
  · intro ha
    obtain ⟨a, ⟨name, afterName, afterColon, hname, hcolon, ha⟩, hab⟩ := ha
    exact ⟨name, afterName, afterColon, hname, hcolon, (h ..).2 ⟨a, ha, hab⟩⟩

theorem Refines.members_iff (h : Refines value value' R) (lift : Fault → ε) {s rest : List Char}
    {bs : List β} :
    members lift' value' s = .ok (bs, rest) ↔
      ∃ as, members lift value s = .ok (as, rest) ∧ List.Forall₂ R as bs := by
  refine (readsBlock_members lift value).all_iff_of_takes (readsBlock_members lift' value') ?_
  intro s b next
  apply Iff.intro
  · intro hb
    obtain ⟨tail, hs, hb⟩ := hb
    obtain ⟨a, ha, hab⟩ := (h.member_iff lift).1 hb
    exact ⟨a, ⟨tail, hs, ha⟩, hab⟩
  · intro ha
    obtain ⟨a, ⟨tail, hs, ha⟩, hab⟩ := ha
    exact ⟨tail, hs, (h.member_iff lift).2 ⟨a, ha, hab⟩⟩

end Refinement

end SidecarIndex.Json

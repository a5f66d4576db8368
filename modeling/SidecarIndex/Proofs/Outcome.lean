import Mathlib.Data.List.Perm.Basic

/-! # Outcomes

When a computation that may fail gives a result: each of its steps gives one. -/

namespace SidecarIndex

variable {ε : Type u} {ε' : Type v} {α : Type w} {β : Type w}

theorem bind_eq_ok_iff {x : Except ε α} {f : α → Except ε β} {b : β} :
    (x >>= f) = .ok b ↔ ∃ a, x = .ok a ∧ f a = .ok b := by
  cases x with
  | error e =>
    apply Iff.intro
    · intro h
      cases h
    · rintro ⟨_, h, _⟩
      cases h
  | ok a =>
    apply Iff.intro
    · exact fun h => ⟨a, rfl, h⟩
    · rintro ⟨_, h, hf⟩
      cases h
      exact hf

theorem map_eq_ok_iff {x : Except ε α} {f : α → β} {b : β} :
    x.map f = .ok b ↔ ∃ a, x = .ok a ∧ f a = b := by
  cases x with
  | error e =>
    apply Iff.intro
    · intro h
      cases h
    · rintro ⟨_, h, _⟩
      cases h
  | ok a =>
    apply Iff.intro
    · intro h
      cases h
      exact ⟨a, rfl, rfl⟩
    · rintro ⟨_, h, rfl⟩
      cases h
      rfl

theorem exists_error_iff {x : Except ε α} : (∃ e, x = .error e) ↔ ∀ a, x ≠ .ok a := by
  cases x with
  | error e => simp
  | ok a => simp

theorem mapError_eq_ok_iff {x : Except ε α} {f : ε → ε'} {a : α} :
    x.mapError f = .ok a ↔ x = .ok a := by
  cases x with
  | error e => exact ⟨fun h => (nomatch h), fun h => (nomatch h)⟩
  | ok b => exact ⟨fun h => by cases h; rfl, fun h => by cases h; rfl⟩

theorem mapM_eq_ok_iff {f : α → Except ε β} {xs : List α} {ys : List β} :
    xs.mapM f = .ok ys ↔ List.Forall₂ (fun x y => f x = .ok y) xs ys := by
  induction xs generalizing ys with
  | nil =>
    rw [List.mapM_nil, List.forall₂_nil_left_iff]
    exact ⟨fun h => by cases h; rfl, fun h => by rw [h]; rfl⟩
  | cons x xs ih =>
    simp only [List.mapM_cons, List.forall₂_cons_left_iff, bind_eq_ok_iff]
    constructor
    · rintro ⟨y, hy, ys', hys, h⟩
      cases h
      exact ⟨y, ys', hy, ih.1 hys, rfl⟩
    · rintro ⟨y, ys', hy, hys, rfl⟩
      exact ⟨y, hy, ys', ih.2 hys, rfl⟩

theorem exists_of_forall₂_of_mem {R : α → β → Prop} {as : List α} {bs : List β}
    (h : List.Forall₂ R as bs) {b : β} (hb : b ∈ bs) : ∃ a ∈ as, R a b := by
  induction h with
  | nil => cases hb
  | cons hab _ ih =>
    rcases List.mem_cons.1 hb with rfl | hb
    · exact ⟨_, List.mem_cons_self .., hab⟩
    · obtain ⟨a, ha, hR⟩ := ih hb
      exact ⟨a, List.mem_cons_of_mem _ ha, hR⟩

theorem exists_forall₂ {R : α → β → Prop} {as : List α} (h : ∀ a ∈ as, ∃ b, R a b) :
    ∃ bs, List.Forall₂ R as bs := by
  induction as with
  | nil => exact ⟨[], .nil⟩
  | cons a as ih =>
    obtain ⟨b, hb⟩ := h a (List.mem_cons_self ..)
    obtain ⟨bs, hbs⟩ := ih fun a ha => h a (List.mem_cons_of_mem _ ha)
    exact ⟨b :: bs, .cons hb hbs⟩

theorem forall₂_imp_of_mem {R S : α → β → Prop} {as : List α} {bs : List β}
    (h : List.Forall₂ R as bs) (himp : ∀ a ∈ as, ∀ b, R a b → S a b) : List.Forall₂ S as bs := by
  induction h with
  | nil => exact .nil
  | cons hab _ ih =>
    exact .cons (himp _ (List.mem_cons_self ..) _ hab)
      (ih fun a ha => himp a (List.mem_cons_of_mem _ ha))

/-- What is computed from things in another order comes in another order. -/
theorem exists_mapM_of_perm {f : α → Except ε β} {xs others : List α} {ys : List β}
    (h : xs.Perm others) (hxs : xs.mapM f = .ok ys) :
    ∃ ys', others.mapM f = .ok ys' ∧ ys.Perm ys' := by
  obtain ⟨ys', hys, hperm⟩ := List.perm_comp_forall₂ h.symm (mapM_eq_ok_iff.1 hxs)
  exact ⟨ys', mapM_eq_ok_iff.2 hys, hperm.symm⟩

/-- Lists put together hold results only when each of them does. -/
theorem flatMap_eq_map_ok_iff {f : α → List (Except ε β)} {xs : List α} {ys : List β} :
    xs.flatMap f = ys.map .ok ↔
      ∃ lists, List.Forall₂ (fun x list => f x = list.map .ok) xs lists ∧ ys = lists.flatten := by
  induction xs generalizing ys with
  | nil => simp [List.forall₂_nil_left_iff]
  | cons x xs ih =>
    rw [List.flatMap_cons, eq_comm, List.map_eq_append_iff]
    apply Iff.intro
    · intro h
      obtain ⟨front, back, rfl, hfront, hback⟩ := h
      obtain ⟨lists, hlists, rfl⟩ := ih.1 hback.symm
      exact ⟨front :: lists, .cons hfront.symm hlists, rfl⟩
    · intro h
      obtain ⟨lists, hlists, rfl⟩ := h
      obtain ⟨front, rest, hfront, hrest, rfl⟩ := List.forall₂_cons_left_iff.1 hlists
      exact ⟨front, rest.flatten, rfl, hfront.symm, (ih.2 ⟨rest, hrest, rfl⟩).symm⟩

theorem map_ok_inj {xs ys : List α} :
    xs.map (Except.ok : α → Except ε α) = ys.map .ok ↔ xs = ys :=
  (List.map_injective_iff.2 fun _ _ => Except.ok.inj).eq_iff

theorem singleton_ok_eq_map_iff {x : α} {ys : List α} :
    [(Except.ok x : Except ε α)] = ys.map .ok ↔ ys = [x] := by
  rw [← List.map_singleton (f := Except.ok), map_ok_inj, eq_comm]

theorem exists_cons_eq_map_ok_iff {x : α} {rest : List (Except ε α)} {P : List α → Prop} :
    (∃ xs, .ok x :: rest = xs.map .ok ∧ P xs) ↔
      ∃ others, rest = others.map .ok ∧ P (x :: others) := by
  apply Iff.intro
  · intro h
    obtain ⟨xs, hxs, hP⟩ := h
    obtain ⟨other, others, rfl, hfirst, hrest⟩ := List.map_eq_cons_iff.1 hxs.symm
    cases hfirst
    exact ⟨others, hrest.symm, hP⟩
  · intro h
    obtain ⟨others, rfl, hP⟩ := h
    exact ⟨x :: others, rfl, hP⟩

theorem error_not_mem_map_ok {e : ε} {xs : List α} :
    Except.error e ∉ xs.map (Except.ok : α → Except ε α) := by
  intro h
  obtain ⟨x, _, heq⟩ := List.mem_map.1 h
  cases heq

theorem singleton_error_ne_map_ok {e : ε} {xs : List α} :
    [(Except.error e : Except ε α)] ≠ xs.map .ok :=
  fun h => error_not_mem_map_ok (h ▸ List.mem_singleton.2 rfl)

theorem filterMap_toOption_map_ok (xs : List α) :
    (xs.map (Except.ok : α → Except ε α)).filterMap Except.toOption = xs := by
  rw [List.filterMap_map]
  exact List.filterMap_some

/-- Results in another order are results. -/
theorem perm_map_ok {xs : List (Except ε α)} {ys : List α} (h : xs.Perm (ys.map .ok)) :
    xs = (xs.filterMap Except.toOption).map .ok ∧ (xs.filterMap Except.toOption).Perm ys := by
  apply And.intro
  · rw [List.map_filterMap]
    refine (List.filterMap_some.symm.trans (List.filterMap_congr fun x hx => ?_))
    obtain ⟨y, _, rfl⟩ := List.mem_map.1 (h.mem_iff.1 hx)
    rfl
  · have hperm := h.filterMap Except.toOption
    rwa [filterMap_toOption_map_ok] at hperm

/-- What a result satisfies, or else what the error does. -/
def Meets (P : α → Prop) (Q : ε → Prop) : Except ε α → Prop
  | .ok a => P a
  | .error e => Q e

theorem Meets.bind {P : α → Prop} {R : β → Prop} {Q : ε → Prop} {x : Except ε α}
    {f : α → Except ε β} (hx : Meets P Q x) (hf : ∀ a, P a → Meets R Q (f a)) :
    Meets R Q (x >>= f) := by
  cases x with
  | error e => exact hx
  | ok a => exact hf a hx

/-- A fold ends with what each of its steps keeps up, or with the error of one of them. -/
theorem Meets.foldlM {P : α → Prop} {Q : ε → Prop} {f : α → β → Except ε α} {xs : List β} {a : α}
    (ha : P a) (hstep : ∀ a, P a → ∀ x ∈ xs, Meets P Q (f a x)) : Meets P Q (xs.foldlM f a) := by
  induction xs generalizing a with
  | nil => exact ha
  | cons x xs ih =>
    rw [List.foldlM_cons]
    exact (hstep a ha x (List.mem_cons_self ..)).bind fun b hb =>
      ih hb fun c hc y hy => hstep c hc y (List.mem_cons_of_mem _ hy)

theorem getElem?_of_forall₂ {R : α → β → Prop} {as : List α} {bs : List β}
    (h : List.Forall₂ R as bs) {i : Nat} {a : α} (ha : as[i]? = some a) : ∃ b, bs[i]? = some b ∧
    R a b := by
  induction h generalizing i with
  | nil => cases ha
  | cons hab _ ih =>
    cases i with
    | zero =>
      cases ha
      exact ⟨_, rfl, hab⟩
    | succ i => exact ih ha

theorem forall₂_set {R S : α → β → Prop} {as : List α} {bs : List β} (h : List.Forall₂ R as bs)
    {i : Nat} {a : α} (ha : as[i]? = some a) {b : β} (hb : S a b)
    (hkeep : ∀ j a' b', j ≠ i → as[j]? = some a' → R a' b' → S a' b') :
    List.Forall₂ S as (bs.set i b) := by
  rw [List.forall₂_iff_get] at h ⊢
  obtain ⟨hlength, hget⟩ := h
  refine ⟨hlength.trans List.length_set.symm, fun j hj hset => ?_⟩
  have hold := hget j hj (hlength ▸ hj)
  simp only [List.get_eq_getElem, List.getElem_set] at hold ⊢
  by_cases heq : i = j
  · subst heq
    rw [if_pos rfl, ← Option.some.inj (ha.symm.trans (List.getElem?_eq_getElem hj))]
    exact hb
  · rw [if_neg heq]
    exact hkeep j _ _ (Ne.symm heq) (List.getElem?_eq_getElem hj) hold

/-- Two steps, of which the second is a function where it leads anywhere, are taken together. -/
theorem forall₂_iff_map {α : Type u} {β : Type v} {γ : Type w} {R : α → β → Prop} {S : β → γ → Prop}
    {f : α → γ} {P : α → Prop} (h : ∀ a b c, R a b → (S b c ↔ c = f a ∧ P a)) {as : List α}
    {bs : List β} (hR : List.Forall₂ R as bs) {cs : List γ} :
    List.Forall₂ S bs cs ↔ cs = as.map f ∧ ∀ a ∈ as, P a := by
  induction hR generalizing cs with
  | nil => simp [List.forall₂_nil_left_iff]
  | @cons a b as bs hab _ ih =>
    simp only [List.forall₂_cons_left_iff, h a b _ hab, ih, List.map_cons, List.forall_mem_cons]
    apply Iff.intro
    · intro hS
      obtain ⟨c, cs', ⟨rfl, ha⟩, ⟨rfl, has⟩, rfl⟩ := hS
      exact ⟨rfl, ha, has⟩
    · intro hS
      obtain ⟨rfl, ha, has⟩ := hS
      exact ⟨_, _, ⟨rfl, ha⟩, ⟨rfl, has⟩, rfl⟩

theorem forall₂_comp_iff {α : Type u} {β : Type v} {γ : Type w} {R : α → β → Prop}
    {S : β → γ → Prop} {as : List α} {cs : List γ} :
    (∃ bs, List.Forall₂ R as bs ∧ List.Forall₂ S bs cs) ↔
      List.Forall₂ (fun a c => ∃ b, R a b ∧ S b c) as cs := by
  induction as generalizing cs with
  | nil => simp [List.forall₂_nil_left_iff]
  | cons a as ih =>
    simp only [List.forall₂_cons_left_iff]
    apply Iff.intro
    · intro h
      obtain ⟨_, ⟨b, bs, hab, habs, rfl⟩, hcs⟩ := h
      obtain ⟨c, cs', hbc, hbcs, rfl⟩ := List.forall₂_cons_left_iff.1 hcs
      exact ⟨c, cs', ⟨b, hab, hbc⟩, ih.1 ⟨bs, habs, hbcs⟩, rfl⟩
    · intro h
      obtain ⟨c, cs', ⟨b, hab, hbc⟩, hrest, rfl⟩ := h
      obtain ⟨bs, habs, hbcs⟩ := ih.2 hrest
      exact ⟨b :: bs, ⟨b, bs, hab, habs, rfl⟩, .cons hbc hbcs⟩

end SidecarIndex

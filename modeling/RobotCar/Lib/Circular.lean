import Mathlib.Data.List.Chain
import Mathlib.Data.List.Nodup
import Mathlib.Logic.Function.Basic

namespace Circular
set_option autoImplicit true

/-- The links of a heap of nodes, each with one link in both directions. -/
structure Links (P : Type u) where
  next : P → P
  prev : P → P

def Links.Adjacent (k : Links P) (a b : P) : Prop := k.next a = b ∧ k.prev b = a

/-- The nodes `l`, in this order, on a circle with the marker `e`. -/
structure Links.Ring (k : Links P) (e : P) (l : List P) : Prop where
  nodup : (e :: l).Nodup
  links : ((e :: l) ++ [e]).IsChain k.Adjacent

theorem Links.ring_nil {k : Links P} (hn : k.next e = e) (hp : k.prev e = e) : k.Ring e [] :=
  ⟨List.nodup_singleton e, List.isChain_pair.2 ⟨hn, hp⟩⟩

theorem chain_congr {k k' : Links P} {l : List P} (h : l.IsChain k.Adjacent)
    (hn : ∀ a ∈ l.dropLast, k'.next a = k.next a) (hp : ∀ b ∈ l.tail, k'.prev b = k.prev b) :
    l.IsChain k'.Adjacent := by
  induction l with
  | nil => exact List.isChain_nil
  | cons a l ih =>
    cases l with
    | nil => exact List.isChain_singleton a
    | cons b l =>
      rw [List.isChain_cons_cons] at h ⊢
      rw [List.dropLast_cons_cons] at hn
      have ha := hn a List.mem_cons_self
      have hb := hp b List.mem_cons_self
      refine ⟨⟨ha.trans h.1.1, hb.trans h.1.2⟩, ih h.2 ?_ ?_⟩
      · exact fun x hx => hn x (List.mem_cons_of_mem a hx)
      · exact fun x hx => hp x (List.mem_cons_of_mem b hx)

theorem Links.Ring.congr {k k' : Links P} (h : k.Ring e l)
    (hn : ∀ a ∈ e :: l, k'.next a = k.next a) (hp : ∀ a ∈ e :: l, k'.prev a = k.prev a) :
    k'.Ring e l := by
  refine ⟨h.nodup, chain_congr h.links ?_ ?_⟩
  · intro a ha
    rw [List.dropLast_concat] at ha
    exact hn a ha
  · intro b hb
    rw [List.cons_append, List.tail_cons, List.mem_append, List.mem_singleton] at hb
    rcases hb with hb | rfl
    · exact hp b (List.mem_cons_of_mem e hb)
    · exact hp b List.mem_cons_self

/-! ### A place on a circle -/

/-- Between `p` and `q`, two neighbours on the circle, `l₁` ends and `l₂` begins. -/
structure Between (e : P) (l₁ l₂ : List P) (p q : P) : Prop where
  last : (e :: l₁).getLast? = some p
  first : (l₂ ++ [e]).head? = some q

theorem exists_between (e : P) (l₁ l₂ : List P) : ∃ p q, Between e l₁ l₂ p q := by
  cases l₂ with
  | nil => exact ⟨_, e, List.getLast?_eq_some_getLast (List.cons_ne_nil e l₁), rfl⟩
  | cons q l₂ => exact ⟨_, q, List.getLast?_eq_some_getLast (List.cons_ne_nil e l₁), rfl⟩

namespace Between

variable {e : P} {l₁ l₂ : List P}

theorem left_mem (h : Between e l₁ l₂ p q) : p ∈ e :: l₁ := List.mem_of_getLast? h.last

theorem right_mem (h : Between e l₁ l₂ p q) : q ∈ l₂ ++ [e] := List.mem_of_head? h.first

theorem right_mem_ring (h : Between e l₁ l₂ p q) : q ∈ e :: (l₁ ++ l₂) := by
  have hq := h.right_mem
  rw [List.mem_append, List.mem_singleton] at hq
  rw [List.mem_cons, List.mem_append]
  exact hq.elim (fun h => .inr (.inr h)) .inl

theorem left_mem_ring (h : Between e l₁ l₂ p q) : p ∈ e :: (l₁ ++ l₂) := by
  have hp := h.left_mem
  rw [List.mem_cons] at hp ⊢
  rw [List.mem_append]
  exact hp.imp_right .inl

theorem right_not_mem (h : Between e l₁ l₂ p q) (hn : (e :: (l₁ ++ l₂)).Nodup) : q ∉ l₁ := by
  intro hq
  have hm := h.right_mem
  rw [List.nodup_cons, List.nodup_append] at hn
  rw [List.mem_append, List.mem_singleton] at hm
  rcases hm with hm | rfl
  · exact hn.2.2.2 q hq q hm rfl
  · exact hn.1 (List.mem_append_left l₂ hq)

theorem left_not_mem (h : Between e l₁ l₂ p q) (hn : (e :: (l₁ ++ l₂)).Nodup) : p ∉ l₂ := by
  intro hp
  have hm := h.left_mem
  rw [List.nodup_cons, List.nodup_append] at hn
  rw [List.mem_cons] at hm
  rcases hm with rfl | hm
  · exact hn.1 (List.mem_append_right l₁ hp)
  · exact hn.2.2.2 p hm p hp rfl

theorem left_not_mem_dropLast (h : Between e l₁ l₂ p q) (hn : (e :: (l₁ ++ l₂)).Nodup) :
    p ∉ (e :: l₁).dropLast := by
  intro hp
  have hd : (e :: l₁).Nodup := hn.sublist ((List.sublist_append_left l₁ l₂).cons_cons e)
  rw [← List.dropLast_append_getLast? p h.last] at hd
  exact (List.nodup_append.1 hd).2.2 p hp p List.mem_cons_self rfl

theorem right_not_mem_tail (h : Between e l₁ l₂ p q) (hn : (e :: (l₁ ++ l₂)).Nodup) :
    q ∉ (l₂ ++ [e]).tail := by
  intro hq
  have hd : (l₂ ++ [e]).Nodup := by
    rw [List.nodup_cons, List.nodup_append] at hn
    rw [List.nodup_append]
    refine ⟨hn.2.2.1, List.nodup_singleton e, ?_⟩
    intro a ha b hb hab
    rw [List.mem_singleton] at hb
    exact hn.1 (List.mem_append_right l₁ (hb ▸ hab ▸ ha))
  rw [← List.cons_head?_tail h.first] at hd
  exact (List.nodup_cons.1 hd).1 hq

end Between

/-- A ring that is cut at a place: the chains to both sides of it, and the link over it. -/
theorem Links.ring_append_iff {k : Links P} (hb : Between e l₁ l₂ p q) :
    k.Ring e (l₁ ++ l₂) ↔ (e :: (l₁ ++ l₂)).Nodup ∧ (e :: l₁).IsChain k.Adjacent ∧
      (l₂ ++ [e]).IsChain k.Adjacent ∧ k.Adjacent p q := by
  have hcut : (e :: (l₁ ++ l₂)) ++ [e] = (e :: l₁) ++ (l₂ ++ [e]) := by
    rw [← List.cons_append, List.append_assoc]
  constructor
  · intro h
    have hl := h.links
    rw [hcut, List.isChain_append] at hl
    exact ⟨h.nodup, hl.1, hl.2.1, hl.2.2 p hb.last q hb.first⟩
  · intro ⟨hd, hl₁, hl₂, hpq⟩
    refine ⟨hd, ?_⟩
    rw [hcut, List.isChain_append]
    refine ⟨hl₁, hl₂, fun a ha b hb' => ?_⟩
    rw [hb.last] at ha
    rw [hb.first] at hb'
    exact Option.some.inj ha ▸ Option.some.inj hb' ▸ hpq

theorem Between.sides {k : Links P} (k' : Links P) (hb : Between e l₁ l₂ p q)
    (hd : (e :: (l₁ ++ l₂)).Nodup) (hl₁ : (e :: l₁).IsChain k.Adjacent)
    (hl₂ : (l₂ ++ [e]).IsChain k.Adjacent)
    (hn : ∀ a ∈ e :: (l₁ ++ l₂), a ≠ p → k'.next a = k.next a)
    (hp : ∀ a ∈ e :: (l₁ ++ l₂), a ≠ q → k'.prev a = k.prev a) :
    (e :: l₁).IsChain k'.Adjacent ∧ (l₂ ++ [e]).IsChain k'.Adjacent := by
  have hleft (a : P) (ha : a ∈ e :: l₁) : a ∈ e :: (l₁ ++ l₂) :=
    List.mem_append_left l₂ ha
  have hright (a : P) (ha : a ∈ l₂ ++ [e]) : a ∈ e :: (l₁ ++ l₂) := by
    rw [List.mem_append, List.mem_singleton] at ha
    rw [List.mem_cons, List.mem_append]
    exact ha.elim (fun h => .inr (.inr h)) .inl
  constructor
  · apply chain_congr hl₁
    · intro a ha
      refine hn a (hleft a (List.dropLast_subset _ ha)) ?_
      exact fun he => hb.left_not_mem_dropLast hd (he ▸ ha)
    · intro a ha
      rw [List.tail_cons] at ha
      refine hp a (hleft a (List.mem_cons_of_mem e ha)) ?_
      exact fun he => hb.right_not_mem hd (he ▸ ha)
  · apply chain_congr hl₂
    · intro a ha
      rw [List.dropLast_concat] at ha
      refine hn a (hright a (List.mem_append_left _ ha)) ?_
      exact fun he => hb.left_not_mem hd (he ▸ ha)
    · intro a ha
      refine hp a (hright a (List.mem_of_mem_tail ha)) ?_
      exact fun he => hb.right_not_mem_tail hd (he ▸ ha)

theorem Links.Ring.neighbours {k : Links P} (h : k.Ring e (l₁ ++ x :: l₂))
    (hb : Between e l₁ l₂ p q) : k.prev x = p ∧ k.next x = q := by
  obtain ⟨-, -, hl₂, hpx⟩ := (Links.ring_append_iff ⟨hb.last, rfl⟩).1 h
  rw [List.cons_append, List.isChain_cons] at hl₂
  exact ⟨hpx.2, (hl₂.1 q hb.first).1⟩

/-! ### The two edits -/

section Edits

variable [DecidableEq P]

def Links.join (k : Links P) (a b : P) : Links P :=
  ⟨Function.update k.next a b, Function.update k.prev b a⟩

theorem Links.join_adjacent (k : Links P) (a b : P) : (k.join a b).Adjacent a b := by
  constructor
  · simp only [Links.join, Function.update_self]
  · simp only [Links.join, Function.update_self]

theorem Links.join_next_of_ne (k : Links P) (b : P) (h : x ≠ a) :
    (k.join a b).next x = k.next x := by
  simp only [Links.join, Function.update_of_ne h]

theorem Links.join_prev_of_ne (k : Links P) (a : P) (h : x ≠ b) :
    (k.join a b).prev x = k.prev x := by
  simp only [Links.join, Function.update_of_ne h]

theorem Links.Ring.insert {k : Links P} (h : k.Ring e (l₁ ++ l₂)) (hb : Between e l₁ l₂ p q)
    (hx : x ∉ e :: (l₁ ++ l₂)) : ((k.join x q).join p x).Ring e (l₁ ++ x :: l₂) := by
  have hxp : x ≠ p := fun he => hx (he ▸ hb.left_mem_ring)
  have hxq : x ≠ q := fun he => hx (he ▸ hb.right_mem_ring)
  have hne (a : P) (ha : a ∈ e :: (l₁ ++ l₂)) : a ≠ x := fun he => hx (he ▸ ha)
  obtain ⟨hd, hl₁, hl₂, -⟩ := (Links.ring_append_iff hb).1 h
  obtain ⟨hl₁', hl₂'⟩ := hb.sides ((k.join x q).join p x) hd hl₁ hl₂
    (fun a ha hap => by rw [Links.join_next_of_ne _ _ hap, Links.join_next_of_ne _ _ (hne a ha)])
    (fun a ha haq => by rw [Links.join_prev_of_ne _ _ (hne a ha), Links.join_prev_of_ne _ _ haq])
  have hxq' : ((k.join x q).join p x).Adjacent x q := by
    constructor
    · rw [Links.join_next_of_ne _ _ hxp]
      exact (Links.join_adjacent k x q).1
    · rw [Links.join_prev_of_ne _ _ hxq.symm]
      exact (Links.join_adjacent k x q).2
  have hperm : (e :: (l₁ ++ x :: l₂)).Perm (x :: e :: (l₁ ++ l₂)) :=
    (List.perm_middle.cons e).trans (List.Perm.swap x e _)
  refine (Links.ring_append_iff (q := x) ⟨hb.last, rfl⟩).2 ⟨?_, hl₁', ?_, ?_⟩
  · rw [hperm.nodup_iff]
    exact List.nodup_cons.2 ⟨hx, hd⟩
  · rw [List.cons_append, List.isChain_cons]
    refine ⟨fun a ha => ?_, hl₂'⟩
    rw [hb.first] at ha
    exact Option.some.inj ha ▸ hxq'
  · exact Links.join_adjacent _ p x

theorem Links.Ring.unlink {k : Links P} (h : k.Ring e (l₁ ++ x :: l₂)) :
    (k.join (k.prev x) (k.next x)).Ring e (l₁ ++ l₂) := by
  obtain ⟨p, q, hb⟩ := exists_between e l₁ l₂
  obtain ⟨rfl, rfl⟩ := h.neighbours hb
  obtain ⟨hd, hl₁, hl₂, -⟩ := (Links.ring_append_iff (q := x) ⟨hb.last, rfl⟩).1 h
  have hd' : (e :: (l₁ ++ l₂)).Nodup :=
    hd.sublist (((List.Sublist.refl l₁).append (List.sublist_cons_self x l₂)).cons_cons e)
  obtain ⟨hl₁', hl₂'⟩ := hb.sides (k.join (k.prev x) (k.next x)) hd' hl₁
    (List.isChain_cons.1 hl₂).2 (fun a _ ha => Links.join_next_of_ne k _ ha)
    (fun a _ ha => Links.join_prev_of_ne k _ ha)
  exact (Links.ring_append_iff hb).2 ⟨hd', hl₁', hl₂', Links.join_adjacent k _ _⟩

end Edits

/-! ### Many rings in one heap -/

/-- Rings with markers of their own, which share no node. -/
structure Links.Rings (k : Links P) (marker : J → P) (items : J → List P) : Prop where
  ring : ∀ j, k.Ring (marker j) (items j)
  apart : ∀ j j', j ≠ j' → List.Disjoint (marker j :: items j) (marker j' :: items j')

section Collection

variable [DecidableEq J] {marker : J → P} {items : J → List P}

/-- An edit within one ring leaves the others alone. -/
theorem Links.Rings.edit {k k' : Links P} (h : k.Rings marker items) (hj : k'.Ring (marker j) l)
    (hn : ∀ j', j' ≠ j → ∀ a ∈ marker j' :: items j', k'.next a = k.next a)
    (hp : ∀ j', j' ≠ j → ∀ a ∈ marker j' :: items j', k'.prev a = k.prev a)
    (hl : ∀ j', j' ≠ j → ∀ a ∈ l, a ∉ marker j' :: items j') :
    k'.Rings marker (Function.update items j l) := by
  have hnew (j') (hne : j' ≠ j) : List.Disjoint (marker j :: l) (marker j' :: items j') := by
    intro a ha ha'
    rcases List.mem_cons.1 ha with rfl | ha
    · exact h.apart j j' hne.symm List.mem_cons_self ha'
    · exact hl j' hne a ha ha'
  constructor
  · intro j'
    by_cases hne : j' = j
    · subst hne
      rw [Function.update_self]
      exact hj
    · rw [Function.update_of_ne hne]
      exact (h.ring j').congr (hn j' hne) (hp j' hne)
  · intro j₁ j₂ hne
    by_cases h₁ : j₁ = j
    · subst h₁
      rw [Function.update_self, Function.update_of_ne hne.symm]
      exact hnew j₂ hne.symm
    · rw [Function.update_of_ne h₁]
      by_cases h₂ : j₂ = j
      · subst h₂
        rw [Function.update_self]
        exact List.disjoint_comm.1 (hnew j₁ h₁)
      · rw [Function.update_of_ne h₂]
        exact h.apart j₁ j₂ hne

variable [DecidableEq P]

theorem Links.Rings.insert {k : Links P} (h : k.Rings marker items) (hj : items j = l₁ ++ l₂)
    (hb : Between (marker j) l₁ l₂ p q) (hx : ∀ j', x ∉ marker j' :: items j') :
    ((k.join x q).join p x).Rings marker (Function.update items j (l₁ ++ x :: l₂)) := by
  have hr := h.ring j
  have hxj := hx j
  rw [hj] at hr hxj
  have hp : p ∈ marker j :: items j := hj ▸ hb.left_mem_ring
  have hq : q ∈ marker j :: items j := hj ▸ hb.right_mem_ring
  refine h.edit (hr.insert hb hxj) ?_ ?_ ?_
  · intro j' hne a ha
    have hap : a ≠ p := fun he => h.apart j j' hne.symm hp (he ▸ ha)
    have hax : a ≠ x := fun he => hx j' (he ▸ ha)
    rw [Links.join_next_of_ne _ _ hap, Links.join_next_of_ne _ _ hax]
  · intro j' hne a ha
    have haq : a ≠ q := fun he => h.apart j j' hne.symm hq (he ▸ ha)
    have hax : a ≠ x := fun he => hx j' (he ▸ ha)
    rw [Links.join_prev_of_ne _ _ hax, Links.join_prev_of_ne _ _ haq]
  · intro j' hne a ha ha'
    rw [List.mem_append, List.mem_cons, or_left_comm, ← List.mem_append, ← hj] at ha
    rcases ha with rfl | ha
    · exact hx j' ha'
    · exact h.apart j j' hne.symm (List.mem_cons_of_mem _ ha) ha'

theorem Links.Rings.unlink {k : Links P} (h : k.Rings marker items)
    (hj : items j = l₁ ++ x :: l₂) : (k.join (k.prev x) (k.next x)).Rings marker
      (Function.update items j (l₁ ++ l₂)) := by
  obtain ⟨p, q, hb⟩ := exists_between (marker j) l₁ l₂
  have hr := h.ring j
  rw [hj] at hr
  obtain ⟨hp, hq⟩ := hr.neighbours hb
  have hsub : marker j :: (l₁ ++ l₂) ⊆ marker j :: items j := by
    rw [hj]
    exact (((List.Sublist.refl l₁).append (List.sublist_cons_self x l₂)).cons_cons _).subset
  refine h.edit hr.unlink ?_ ?_ ?_
  · intro j' hne a ha
    refine Links.join_next_of_ne k _ fun he => ?_
    exact h.apart j j' hne.symm (hsub hb.left_mem_ring) (hp ▸ he ▸ ha)
  · intro j' hne a ha
    refine Links.join_prev_of_ne k _ fun he => ?_
    exact h.apart j j' hne.symm (hsub hb.right_mem_ring) (hq ▸ he ▸ ha)
  · intro j' hne a ha ha'
    exact h.apart j j' hne.symm (hsub (List.mem_cons_of_mem _ ha)) ha'

end Collection

end Circular

import Mathlib.Data.List.Nodup
import Mathlib.Data.List.TakeWhile

set_option autoImplicit true

/-- Members that take turns in a circle. -/
structure Carousel (α : Type u) where
  /-- Those that had their turn in this round, the last one first. -/
  served : List α
  /-- Those that are still to come in this round. -/
  waiting : List α

namespace Carousel

def items (c : Carousel α) : List α := c.served.reverse ++ c.waiting

def next (c : Carousel α) : Option (α × Carousel α) :=
  match c.waiting, c.served.reverse with
  | x :: waiting, _ => some (x, ⟨x :: c.served, waiting⟩)
  | [], x :: waiting => some (x, ⟨[x], waiting⟩)
  | [], [] => none

/-- A new member comes right before the one that had the last turn. -/
def insert (c : Carousel α) (x : α) : Carousel α :=
  match c.served with
  | [] => ⟨[], c.waiting ++ [x]⟩
  | a :: served => ⟨a :: x :: served, c.waiting⟩

def remove [DecidableEq α] (c : Carousel α) (x : α) : Carousel α :=
  ⟨c.served.erase x, c.waiting.erase x⟩

theorem mem_items {c : Carousel α} : x ∈ c.items ↔ x ∈ c.served ∨ x ∈ c.waiting := by
  rw [items, List.mem_append, List.mem_reverse]

theorem next_items {c : Carousel α} (h : c.next = some (x, c')) : c'.items = c.items := by
  obtain ⟨served, waiting⟩ := c
  cases waiting with
  | cons y waiting =>
    obtain ⟨rfl, rfl⟩ := Prod.mk.inj (Option.some.inj h)
    rw [items, items, List.reverse_cons, List.append_assoc, List.singleton_append]
  | nil =>
    cases hs : served.reverse with
    | nil => simp only [next, hs, reduceCtorEq] at h
    | cons y waiting =>
      simp only [next, hs, Option.some.injEq, Prod.mk.injEq] at h
      obtain ⟨rfl, rfl⟩ := h
      rw [items, items, hs, List.append_nil, List.reverse_singleton, List.singleton_append]

theorem next_mem {c : Carousel α} (h : c.next = some (x, c')) : x ∈ c.items := by
  rw [← next_items h, mem_items]
  obtain ⟨served, waiting⟩ := c
  cases waiting with
  | cons y waiting =>
    obtain ⟨rfl, rfl⟩ := Prod.mk.inj (Option.some.inj h)
    exact .inl List.mem_cons_self
  | nil =>
    cases hs : served.reverse with
    | nil => simp only [next, hs, reduceCtorEq] at h
    | cons y waiting =>
      simp only [next, hs, Option.some.injEq, Prod.mk.injEq] at h
      obtain ⟨rfl, rfl⟩ := h
      exact .inl List.mem_cons_self

theorem exists_next {c : Carousel α} (h : c.items ≠ []) : ∃ x c', c.next = some (x, c') := by
  obtain ⟨served, waiting⟩ := c
  cases waiting with
  | cons y waiting => exact ⟨y, _, rfl⟩
  | nil =>
    cases hs : served.reverse with
    | nil => exact absurd (by rw [items, hs]; rfl) h
    | cons y waiting =>
      refine ⟨y, ⟨[y], waiting⟩, ?_⟩
      simp only [next, hs]

theorem mem_insert {c : Carousel α} : x ∈ (c.insert y).items ↔ x = y ∨ x ∈ c.items := by
  obtain ⟨served, waiting⟩ := c
  cases served with
  | nil =>
    simp only [insert, mem_items, List.not_mem_nil, false_or, List.mem_append, List.mem_singleton]
    exact or_comm
  | cons a served =>
    simp only [insert, mem_items, List.mem_cons, or_assoc]
    exact or_left_comm

variable [DecidableEq α]

theorem remove_items {c : Carousel α} (h : c.items.Nodup) (x : α) :
    (c.remove x).items = c.items.erase x := by
  have hd : c.served.Nodup := List.nodup_reverse.1 (List.nodup_append.1 h).1
  rw [items, remove, items]
  by_cases hx : x ∈ c.served
  · have hw : x ∉ c.waiting := fun hw =>
      (List.nodup_append.1 h).2.2 x (List.mem_reverse.2 hx) x hw rfl
    rw [List.erase_append_left _ (List.mem_reverse.2 hx), List.erase_of_not_mem hw,
      hd.erase_eq_filter, (List.nodup_reverse.2 hd).erase_eq_filter, List.filter_reverse]
  · rw [List.erase_append_right _ (fun hr => hx (List.mem_reverse.1 hr)), List.erase_of_not_mem hx]

theorem remove_of_not_mem {c : Carousel α} (h : x ∉ c.items) : c.remove x = c := by
  rw [mem_items, not_or] at h
  rw [remove, List.erase_of_not_mem h.1, List.erase_of_not_mem h.2]

theorem remove_comm (c : Carousel α) (x y : α) :
    (c.remove x).remove y = (c.remove y).remove x := by
  have hs : (c.served.erase x).erase y = (c.served.erase y).erase x := List.erase_comm ..
  have hw : (c.waiting.erase x).erase y = (c.waiting.erase y).erase x := List.erase_comm ..
  simp only [remove, hs, hw]

/-- The number of turns that `u` can still have before the next turn of `t`: one in this round,
and one in the next round when the turn of `t` in this round is over. -/
def credit (c : Carousel α) (t u : α) : Nat :=
  (if t ∈ c.waiting then 0 else 1) + if u ∈ c.waiting.takeWhile (· ≠ t) then 1 else 0

theorem credit_le (c : Carousel α) (t u : α) : c.credit t u ≤ 2 := by
  rw [credit]
  split <;> split <;> omega

theorem credit_mono {c c' : Carousel α} (ht : t ∈ c.waiting → t ∈ c'.waiting)
    (hu : u ∈ c'.waiting.takeWhile (· ≠ t) → u ∈ c.waiting.takeWhile (· ≠ t)) :
    c'.credit t u ≤ c.credit t u := by
  apply Nat.add_le_add
  · by_cases h : t ∈ c.waiting
    · rw [if_pos (ht h)]
      exact Nat.zero_le _
    · rw [if_neg h]
      split <;> omega
  · split
    · rename_i h
      rw [if_pos (hu h)]
    · exact Nat.zero_le _

theorem credit_next {c : Carousel α} (hd : c.items.Nodup) (ht : t ∈ c.items)
    (h : c.next = some (x, c')) (hx : x ≠ t) :
    c'.credit t u + (if x = u then 1 else 0) ≤ c.credit t u := by
  obtain ⟨served, waiting⟩ := c
  cases waiting with
  | cons y waiting =>
    obtain ⟨rfl, rfl⟩ := Prod.mk.inj (Option.some.inj h)
    have hy : decide (y ≠ t) = true := decide_eq_true hx
    have hn : y ∉ waiting := (List.nodup_cons.1 (List.nodup_append.1 hd).2.1).1
    have hround : t ∈ y :: waiting → t ∈ waiting :=
      fun h => (List.mem_cons.1 h).resolve_left hx.symm
    have htake := List.takeWhile_cons_of_pos (p := (· ≠ t)) (l := waiting) hy
    by_cases hu : y = u
    · subst hu
      have hlate : (if t ∈ waiting then 0 else 1) ≤ if t ∈ y :: waiting then 0 else 1 := by
        by_cases ht : t ∈ y :: waiting
        · rw [if_pos (hround ht)]
          exact Nat.zero_le _
        · rw [if_neg ht]
          split <;> omega
      simp only [credit, htake]
      rw [if_neg (fun hm => hn (List.takeWhile_subset _ hm)), if_pos trivial,
        if_pos List.mem_cons_self]
      omega
    · rw [if_neg hu]
      refine credit_mono hround fun hm => ?_
      rw [htake]
      exact List.mem_cons_of_mem y hm
  | nil =>
    cases hs : served.reverse with
    | nil => simp only [next, hs, reduceCtorEq] at h
    | cons y waiting =>
      simp only [next, hs, Option.some.injEq, Prod.mk.injEq] at h
      obtain ⟨rfl, rfl⟩ := h
      rw [items, hs, List.append_nil] at hd ht
      have htw : t ∈ waiting := (List.mem_cons.1 ht).resolve_left hx.symm
      have hn : y ∉ waiting := (List.nodup_cons.1 hd).1
      rw [credit, credit, if_pos htw, if_neg List.not_mem_nil]
      by_cases hu : y = u
      · subst hu
        rw [if_neg (fun hm => hn (List.takeWhile_subset _ hm)), if_pos rfl]
        omega
      · rw [if_neg hu]
        split <;> omega

theorem credit_insert {c : Carousel α} (ht : t ∈ c.items) (x u : α) :
    (c.insert x).credit t u = c.credit t u := by
  obtain ⟨served, waiting⟩ := c
  cases served with
  | cons a served => rfl
  | nil =>
    have htw : t ∈ waiting := ht
    have hstop : (waiting ++ [x]).takeWhile (· ≠ t) = waiting.takeWhile (· ≠ t) := by
      obtain ⟨l₁, l₂, rfl⟩ := List.mem_iff_append.1 htw
      have hne : ¬decide (t ≠ t) = true := by simp
      rw [List.append_assoc, List.cons_append, List.takeWhile_append, List.takeWhile_append,
        List.takeWhile_cons_of_neg (p := (· ≠ t)) hne,
        List.takeWhile_cons_of_neg (p := (· ≠ t)) hne]
    rw [credit, credit]
    change (if t ∈ waiting ++ [x] then 0 else 1) +
      (if u ∈ (waiting ++ [x]).takeWhile (· ≠ t) then 1 else 0) = _
    rw [hstop, if_pos htw, if_pos (List.mem_append_left _ htw)]

theorem takeWhile_erase_subset (hx : x ≠ t) (l : List α) :
    (l.erase x).takeWhile (· ≠ t) ⊆ l.takeWhile (· ≠ t) := by
  induction l with
  | nil => exact List.Subset.refl _
  | cons a l ih =>
    by_cases ha : a = t
    · subst ha
      have hne : ¬decide (a ≠ a) = true := by simp
      rw [List.erase_cons_tail (by simpa using hx.symm),
        List.takeWhile_cons_of_neg (p := (· ≠ a)) hne]
      exact List.nil_subset _
    · rw [List.takeWhile_cons_of_pos (p := (· ≠ t)) (decide_eq_true ha)]
      by_cases hax : a = x
      · subst hax
        rw [List.erase_cons_head]
        exact List.subset_cons_self a _
      · rw [List.erase_cons_tail (by simpa using hax),
          List.takeWhile_cons_of_pos (p := (· ≠ t)) (decide_eq_true ha)]
        exact List.cons_subset_cons a ih

theorem credit_remove (c : Carousel α) (hx : x ≠ t) (u : α) :
    (c.remove x).credit t u ≤ c.credit t u := by
  refine credit_mono (fun h => ?_) fun h => takeWhile_erase_subset hx _ h
  exact (List.mem_erase_of_ne hx.symm).2 h

end Carousel

import Mathlib.Data.List.Basic

namespace Linked
set_option autoImplicit true

/-- Following `next` from `p` visits the cells `ps`, one after another, and then reaches `q`. -/
def Chain (next : P → P) : P → List P → P → Prop
  | p, [], q => p = q
  | p, x :: xs, q => p = x ∧ Chain next (next x) xs q

@[simp] theorem chain_nil {next : P → P} : Chain next p [] q ↔ p = q := Iff.rfl

@[simp] theorem chain_cons {next : P → P} :
    Chain next p (x :: xs) q ↔ p = x ∧ Chain next (next x) xs q := Iff.rfl

theorem chain_append {next : P → P} :
    Chain next p (xs ++ ys) r ↔ ∃ q, Chain next p xs q ∧ Chain next q ys r := by
  induction xs generalizing p with
  | nil =>
    constructor
    · intro h
      exact ⟨p, rfl, h⟩
    · intro ⟨q, hp, h⟩
      exact hp ▸ h
  | cons x xs ih =>
    rw [List.cons_append, chain_cons, ih]
    constructor
    · intro ⟨hp, q, hx, hy⟩
      exact ⟨q, ⟨hp, hx⟩, hy⟩
    · intro ⟨q, ⟨hp, hx⟩, hy⟩
      exact ⟨hp, q, hx, hy⟩

theorem chain_concat {next : P → P} :
    Chain next p (xs ++ [x]) q ↔ Chain next p xs x ∧ next x = q := by
  rw [chain_append]
  constructor
  · intro ⟨r, hxs, hr, hq⟩
    exact ⟨hr ▸ hxs, hq⟩
  · intro ⟨hxs, hq⟩
    exact ⟨x, hxs, rfl, hq⟩

theorem Chain.congr {next next' : P → P} (h : Chain next p ps q)
    (he : ∀ x ∈ ps, next' x = next x) : Chain next' p ps q := by
  induction ps generalizing p with
  | nil => exact h
  | cons x ps ih =>
    obtain ⟨hp, h⟩ := h
    have hx : next' x = next x := he x List.mem_cons_self
    refine ⟨hp, ?_⟩
    rw [hx]
    exact ih h fun y hy => he y (List.mem_cons_of_mem _ hy)

theorem Chain.start_eq {next next' : P → P} (h : Chain next p ps q) (h' : Chain next' p' ps q) :
    p' = p := by
  cases ps with
  | nil => exact Eq.trans h' (Eq.symm h)
  | cons x ps => exact h'.1.trans h.1.symm

theorem Chain.links_eq {next next' : P → P} (h : Chain next p ps q) (h' : Chain next' p' ps q) :
    ∀ x ∈ ps, next' x = next x := by
  induction ps generalizing p p' with
  | nil => exact List.forall_mem_nil _
  | cons x ps ih => exact List.forall_mem_cons.2 ⟨h.2.start_eq h'.2, ih h.2 h'.2⟩

/-- Redirecting the last link of a chain moves its end. -/
theorem Chain.relink [DecidableEq P] {next : P → P} (h : Chain next p (xs ++ [x]) q)
    (hx : x ∉ xs) (r : P) : Chain (Function.update next x r) p (xs ++ [x]) r := by
  rw [chain_concat] at h ⊢
  constructor
  · apply h.1.congr
    intro y hy
    have hne : y ≠ x := fun he => hx (he ▸ hy)
    exact Function.update_of_ne hne r next
  · exact Function.update_self x r next

end Linked

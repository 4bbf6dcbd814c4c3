import Mathlib.Algebra.Group.Fin.Basic
import Mathlib.Data.List.Basic
import Mathlib.Data.Nat.ModEq

namespace Ring
set_option autoImplicit true

variable {cap : Nat} [NeZero cap]

/-- The cell of a circular buffer that position `k` of a stream goes to. -/
def slot (cap k : Nat) [NeZero cap] : Fin cap := Fin.ofNat cap k

theorem slot_succ (k : Nat) : slot cap (k + 1) = slot cap k + 1 := by
  apply Fin.ext
  simp only [slot, Fin.ofNat_eq_cast, Fin.val_natCast, Fin.val_add, Fin.val_one', Nat.add_mod,
    Nat.mod_mod]

theorem slot_add (k i : Nat) : slot cap (k + i) = slot cap k + slot cap i := by
  induction i with
  | zero =>
    have hz : slot cap 0 = 0 := rfl
    rw [Nat.add_zero, hz, add_zero]
  | succ i ih => rw [← Nat.add_assoc, slot_succ, ih, slot_succ, add_assoc]

theorem slot_ne (h : r < m) (hlt : m < r + cap) : slot cap m ≠ slot cap r := by
  intro he
  have hmod : m % cap = r % cap := congrArg Fin.val he
  have hdvd : cap ∣ m - r := (Nat.modEq_iff_dvd' (Nat.le_of_lt h)).1 hmod.symm
  have hle := Nat.le_of_dvd (Nat.sub_pos_of_lt h) hdvd
  omega

theorem slot_eq_iff (h : r ≤ m) (hlt : m < r + cap) : slot cap r = slot cap m ↔ r = m := by
  constructor
  · intro he
    rcases Nat.lt_or_eq_of_le h with hr | hr
    · exact absurd he.symm (slot_ne hr hlt)
    · exact hr
  · exact fun he => congrArg _ he

theorem slot_sub (h : r ≤ m) (hlt : m < r + cap) : (slot cap m - slot cap r).val = m - r := by
  obtain ⟨d, rfl⟩ := Nat.exists_eq_add_of_le h
  rw [slot_add, add_sub_cancel_left, Nat.add_sub_cancel_left]
  exact Nat.mod_eq_of_lt (by omega)

/-- The cells hold the stream from position `r` on. -/
def Holds (cells : Fin cap → α) (stream : List α) (r : Nat) : Prop :=
  ∀ k (h : k < stream.length), r ≤ k → cells (slot cap k) = stream[k]

theorem holds_nil (cells : Fin cap → α) (r : Nat) : Holds cells [] r :=
  fun _ h _ => absurd h (Nat.not_lt_zero _)

theorem Holds.mono {cells : Fin cap → α} (h : Holds cells stream r) (hr : r ≤ r') :
    Holds cells stream r' := fun k hk hle => h k hk (Nat.le_trans hr hle)

/-- A new element overwrites none of those that are still to be read. -/
theorem Holds.push {cells : Fin cap → α} (h : Holds cells stream r)
    (hroom : stream.length < r + cap) (a : α) :
    Holds (Function.update cells (slot cap stream.length) a) (stream ++ [a]) r := by
  intro k hk hr
  rw [List.length_append, List.length_singleton] at hk
  rcases Nat.lt_or_eq_of_le (Nat.le_of_lt_succ hk) with hlt | rfl
  · have hne : slot cap k ≠ slot cap stream.length := (slot_ne hlt (by omega)).symm
    rw [Function.update_of_ne hne, List.getElem_append_left hlt]
    exact h k hlt hr
  · rw [Function.update_self, List.getElem_concat_length rfl]

/-- The contents from cell `head` up to, but not including, cell `pos`. -/
def window (cells : Fin cap → α) (head pos : Fin cap) : List α :=
  (List.range (pos - head).val).map fun i => cells (head + slot cap i)

theorem Holds.window_eq {cells : Fin cap → α} (h : Holds cells stream r)
    (hr : r ≤ stream.length) (hlt : stream.length < r + cap) :
    window cells (slot cap r) (slot cap stream.length) = stream.drop r := by
  apply List.ext_getElem
  · rw [window, List.length_map, List.length_range, slot_sub hr hlt, List.length_drop]
  · intro i hi hi'
    rw [List.length_drop] at hi'
    have hk : r + i < stream.length := by omega
    simp only [window, List.getElem_map, List.getElem_range, List.getElem_drop]
    rw [← slot_add]
    exact h (r + i) hk (Nat.le_add_right r i)

end Ring

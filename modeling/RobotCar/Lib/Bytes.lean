import Mathlib.Data.UInt

namespace Bytes
set_option autoImplicit true

theorem ofInt_natCast (n : Nat) : UInt8.ofInt n = UInt8.ofNat n := by
  apply UInt8.toNat_inj.1
  have h : ((n : Int) % 2 ^ 8).toNat = n % 2 ^ 8 := rfl
  rw [UInt8.ofInt, h, UInt8.toNat_ofNat', UInt8.toNat_ofNat', Nat.mod_mod]

/-! ### Checksums -/

/-- The byte that makes the sum of the bytes before it and itself `0xff`. -/
def complement (bytes : List UInt8) : UInt8 := ~~~bytes.sum

theorem add_not_self (x : UInt8) : x + ~~~x = 0xff := by
  rw [UInt8.not_eq_neg_sub]
  grind

theorem foldl_add (bytes : List UInt8) (x : UInt8) : bytes.foldl (· + ·) x = x + bytes.sum := by
  induction bytes generalizing x with
  | nil => exact (UInt8.add_zero x).symm
  | cons b bytes ih => rw [List.foldl_cons, ih, List.sum_cons, UInt8.add_assoc]

theorem sum_concat_complement (bytes : List UInt8) :
    (bytes ++ [complement bytes]).sum = 0xff := by
  rw [List.sum_append, List.sum_singleton]
  exact add_not_self _

/-- A sum is complete exactly when its last summand is the complement. -/
theorem sum_concat_eq_iff (bytes : List UInt8) (x : UInt8) :
    (bytes ++ [x]).sum = 0xff ↔ x = complement bytes := by
  rw [← sum_concat_complement bytes, List.sum_append, List.sum_append, List.sum_singleton,
    List.sum_singleton]
  exact UInt8.add_right_inj bytes.sum

/-! ### Markers of two equal elements -/

/-- No two elements `x` stand next to each other. -/
def NoDouble (x : α) (l : List α) : Prop := ¬[x, x] <:+: l

instance [DecidableEq α] (x : α) (l : List α) : Decidable (NoDouble x l) :=
  inferInstanceAs (Decidable (¬_))

theorem noDouble_cons_cons {x a b : α} {l : List α} :
    NoDouble x (a :: b :: l) ↔ ¬(a = x ∧ b = x) ∧ NoDouble x (b :: l) := by
  rw [NoDouble, NoDouble, List.infix_cons_iff, not_or, List.cons_prefix_cons,
    List.cons_prefix_cons]
  simp only [List.nil_prefix, and_true, eq_comm]

theorem noDouble_singleton (x a : α) : NoDouble x [a] := by
  intro h
  have hle := h.length_le
  simp at hle

/-- A marker can be told from what precedes it only if that does not end in half a marker. -/
theorem noDouble_concat_iff {x : α} {l : List α} :
    NoDouble x (l ++ [x]) ↔ NoDouble x l ∧ l.getLast? ≠ some x := by
  induction l with
  | nil => exact iff_of_true (noDouble_singleton x x) ⟨by simp [NoDouble], nofun⟩
  | cons a l ih =>
    cases l with
    | nil =>
      have hr := noDouble_singleton x a
      have hx := noDouble_singleton x x
      rw [List.cons_append, List.nil_append, noDouble_cons_cons, List.getLast?_singleton]
      simp [hr, hx]
    | cons b l =>
      rw [List.cons_append, List.cons_append, noDouble_cons_cons, noDouble_cons_cons,
        List.getLast?_cons_cons, and_assoc, ← ih, List.cons_append]

/-! ### Rows of equal length -/

/-- Cut bytes into rows of a key and `n` bytes, as many as there are. -/
def rows (n : Nat) : Nat → List UInt8 → List (UInt8 × List UInt8)
  | 0, _ => []
  | k + 1, bytes =>
    (bytes.headD 0, (bytes.drop 1).take n) :: rows n k (bytes.drop (n + 1))

def unrows (table : List (UInt8 × List UInt8)) : List UInt8 := table.flatMap fun r => r.1 :: r.2

theorem length_unrows {table : List (UInt8 × List UInt8)} (h : ∀ r ∈ table, r.2.length = n) :
    (unrows table).length = table.length * (n + 1) := by
  induction table with
  | nil => exact (Nat.zero_mul _).symm
  | cons r table ih =>
    have hr := h r List.mem_cons_self
    have ht := ih fun r hr => h r (List.mem_cons_of_mem _ hr)
    simp only [unrows, List.flatMap_cons, List.length_append, List.length_cons] at ht ⊢
    rw [ht, hr, Nat.succ_mul, Nat.add_comm]

theorem rows_unrows {table : List (UInt8 × List UInt8)} (h : ∀ r ∈ table, r.2.length = n) :
    rows n table.length (unrows table) = table := by
  induction table with
  | nil => rfl
  | cons r table ih =>
    have hr := h r List.mem_cons_self
    have ht := ih fun r hr => h r (List.mem_cons_of_mem _ hr)
    have hu : unrows (r :: table) = r.1 :: (r.2 ++ unrows table) := rfl
    rw [hu, List.length_cons, rows, List.drop_succ_cons, List.drop_succ_cons, List.drop_zero]
    rw [List.take_left' hr, List.drop_left' hr, ht]
    rfl

theorem length_flatten_le {l : List (List α)} (h : ∀ x ∈ l, x.length ≤ n) :
    l.flatten.length ≤ l.length * n := by
  induction l with
  | nil => exact Nat.zero_le _
  | cons x l ih =>
    obtain ⟨hx, hl⟩ := List.forall_mem_cons.1 h
    have hle := ih hl
    rw [List.flatten_cons, List.length_append, List.length_cons, Nat.succ_mul]
    omega

theorem take_take_append (n : Nat) (l l' : List α) :
    (l.take n ++ l').take n = (l ++ l').take n := by
  rw [List.take_append, List.take_append, List.take_take, Nat.min_self, List.length_take]
  rcases Nat.le_total n l.length with h | h
  · rw [Nat.min_eq_left h, Nat.sub_self, Nat.sub_eq_zero_of_le h]
  · rw [Nat.min_eq_right h]

end Bytes

import Mathlib.Data.Nat.Bitwise

namespace Words
set_option autoImplicit true

/-! Arithmetic on words of 32 bits, seen in the natural numbers. -/

theorem toNat_add_of_lt {a b : UInt32} (h : a.toNat + b.toNat < 2 ^ 32) :
    (a + b).toNat = a.toNat + b.toNat := by
  rw [UInt32.toNat_add, Nat.mod_eq_of_lt h]

theorem toNat_sub_of_le {a b : UInt32} (h : b.toNat ≤ a.toNat) :
    (a - b).toNat = a.toNat - b.toNat := UInt32.toNat_sub_of_le a b (UInt32.le_iff_toNat_le.2 h)

theorem toNat_ofInt (n : Int) : ((UInt32.ofInt n).toNat : Int) = n % 2 ^ 32 := by
  have hnonneg : 0 ≤ n % 2 ^ 32 := Int.emod_nonneg n (by decide)
  rw [UInt32.ofInt, UInt32.toNat_ofNat', Int.natCast_emod, Int.toNat_of_nonneg hnonneg]
  exact Int.emod_emod_of_dvd n (dvd_refl _)

theorem toNat_min (a b : UInt32) : (if a < b then a else b).toNat = min b.toNat a.toNat := by
  split
  · rename_i hlt
    exact (Nat.min_eq_right (UInt32.lt_iff_toNat_lt.1 hlt).le).symm
  · rename_i hle
    rw [UInt32.lt_iff_toNat_lt, not_lt] at hle
    exact (Nat.min_eq_left hle).symm

theorem toNat_and_mask {m : UInt32} (x : UInt32) (k : Nat) (hm : m.toNat = 2 ^ k - 1) :
    (x &&& m).toNat = x.toNat % 2 ^ k := by
  rw [UInt32.toNat_and, hm, Nat.and_two_pow_sub_one_eq_mod]

/-- Clearing bits subtracts them. -/
theorem toNat_and_not (x m : UInt32) : (x &&& ~~~m).toNat = x.toNat - (x &&& m).toNat := by
  have hz : (x &&& m).toBitVec &&& (x &&& ~~~m).toBitVec = 0#32 := by
    ext i hi
    simp only [UInt32.toBitVec_and, UInt32.toBitVec_not, BitVec.getElem_and, BitVec.getElem_not,
      BitVec.getElem_zero]
    cases x.toBitVec[i] <;> cases m.toBitVec[i] <;> rfl
  have hor : (x &&& m).toBitVec ||| (x &&& ~~~m).toBitVec = x.toBitVec := by
    ext i hi
    simp only [UInt32.toBitVec_and, UInt32.toBitVec_not, BitVec.getElem_or, BitVec.getElem_and,
      BitVec.getElem_not]
    cases x.toBitVec[i] <;> cases m.toBitVec[i] <;> rfl
  have hsum := BitVec.toNat_add_of_and_eq_zero hz
  rw [BitVec.add_eq_or_of_and_eq_zero _ _ hz, hor] at hsum
  simp only [UInt32.toNat_toBitVec] at hsum
  omega

theorem toNat_and_bit {m : UInt32} (x : UInt32) (k : Nat) (hm : m.toNat = 2 ^ k)
    (hx : x.toNat < 2 ^ (k + 1)) : (x &&& m).toNat = if x.toNat < 2 ^ k then 0 else 2 ^ k := by
  rw [UInt32.toNat_and, hm, Nat.and_two_pow, Nat.testBit_eq_decide_div_mod_eq]
  have hk := Nat.two_pow_pos k
  rw [Nat.pow_succ] at hx
  split
  · rename_i h
    rw [Nat.div_eq_of_lt h]
    exact Nat.zero_mul _
  · rename_i h
    have hdiv : x.toNat / 2 ^ k = 1 := Nat.div_eq_of_lt_le (by omega) (by omega)
    rw [hdiv]
    exact Nat.one_mul _

theorem toNat_or_bit {m : UInt32} (x : UInt32) (k : Nat) (hm : m.toNat = 2 ^ k)
    (hx : x.toNat < 2 ^ k) : (x ||| m).toNat = x.toNat + 2 ^ k := by
  have h := Nat.two_pow_add_eq_or_of_lt hx 1
  rw [UInt32.toNat_or, hm, Nat.lor_comm]
  rw [Nat.mul_one] at h
  rw [← h, Nat.add_comm]

end Words

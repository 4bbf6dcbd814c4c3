import Mathlib.Algebra.Order.Round
import Mathlib.Data.Int.Log
import Mathlib.Tactic.Linarith
import Mathlib.Tactic.Ring

namespace Rounding
set_option autoImplicit true

section
variable {K : Type} [Field K] [LinearOrder K] [FloorRing K]

/-- The nearest integer, and the even one of two. -/
def roundEven (x : K) : Int := if Int.fract x = 1 / 2 ∧ 2 ∣ ⌊x⌋ then ⌊x⌋ else round x

variable [IsStrictOrderedRing K]

/-- The last place of a floating-point number with `p` digits, of the size of `x`. -/
def ulp (p : Nat) (x : K) : K := 2 ^ (Int.log 2 |x| + 1 - p)

/-- Rounding to a binary floating-point number with `p` digits, without bounds on the exponent. -/
def roundTo (p : Nat) (x : K) : K := roundEven (x / ulp p x) * ulp p x

/-! ### Integers -/

theorem abs_roundEven_sub_le (x : K) : |(roundEven x : K) - x| ≤ 1 / 2 := by
  rw [roundEven]
  split
  · rename_i h
    have hfract : (⌊x⌋ : K) - x = -(1 / 2) := by rw [← h.1, ← Int.self_sub_floor, neg_sub]
    rw [hfract, abs_neg, abs_of_pos one_half_pos]
  · rw [abs_sub_comm]
    exact abs_sub_round x

theorem le_roundEven {n : Int} {x : K} (h : (n : K) ≤ x) : n ≤ roundEven x := by
  have hx := (abs_le.1 (abs_roundEven_sub_le x)).1
  have hlt : ((n - 1 : Int) : K) < roundEven x := by
    rw [Int.cast_sub, Int.cast_one]
    linarith
  have hn := Int.cast_lt.1 hlt
  omega

theorem roundEven_le {n : Int} {x : K} (h : x ≤ n) : roundEven x ≤ n := by
  have hx := (abs_le.1 (abs_roundEven_sub_le x)).2
  have hlt : (roundEven x : K) < ((n + 1 : Int) : K) := by
    rw [Int.cast_add, Int.cast_one]
    linarith
  have hn := Int.cast_lt.1 hlt
  omega

/-- What is half way below an even number is rounded up to it. -/
theorem roundEven_lt_iff {n : Int} {x : K} (hn : 2 ∣ n) : roundEven x < n ↔ x < n - 1 / 2 := by
  constructor
  · intro h
    by_contra hx
    have hround := abs_le.1 (abs_roundEven_sub_le x)
    have hle : (roundEven x : K) ≤ ((n - 1 : Int) : K) := Int.cast_le.2 (by omega)
    rw [Int.cast_sub, Int.cast_one] at hle
    have heq : x = n - 1 / 2 := by linarith
    have hfloor : ⌊x⌋ = n - 1 := by
      rw [Int.floor_eq_iff, heq, Int.cast_sub, Int.cast_one]
      constructor <;> linarith
    have hodd : ¬2 ∣ ⌊x⌋ := by omega
    rw [roundEven, if_neg fun h => hodd h.2, round_eq, heq, sub_add_cancel, Int.floor_intCast] at h
    exact lt_irrefl n h
  · intro h
    have hround := abs_le.1 (abs_roundEven_sub_le x)
    have hlt : (roundEven x : K) < n := by linarith
    exact Int.cast_lt.1 hlt

/-! ### The grid of the last place -/

theorem ulp_pos (p : Nat) (x : K) : 0 < ulp p x := zpow_pos zero_lt_two _

theorem half_ulp (p : Nat) (x : K) : ulp p x / 2 = 2 ^ (Int.log 2 |x| - p) := by
  rw [ulp, add_sub_right_comm, zpow_add₀ (zero_lt_two' K).ne', zpow_one]
  exact mul_div_cancel_right₀ _ two_ne_zero

theorem exists_mul_ulp {p : Nat} {x : K} {e : Int} (h : Int.log 2 |x| + 1 - p ≤ e) (n : Int) :
    (n : K) * 2 ^ e = ((n * 2 ^ (e - (Int.log 2 |x| + 1 - p)).toNat : Int) : K) * ulp p x := by
  have he : e = ((e - (Int.log 2 |x| + 1 - p)).toNat : Int) + (Int.log 2 |x| + 1 - p) := by omega
  rw [Int.cast_mul, Int.cast_pow, Int.cast_ofNat, mul_assoc, ulp, ← zpow_natCast,
    ← zpow_add₀ (zero_lt_two' K).ne', ← he]

theorem log_abs_zero : Int.log 2 |(0 : K)| = 0 := by rw [abs_zero, Int.log_zero_right]

theorem log_abs_lt {x : K} {e : Nat} (h : |x| < 2 ^ (e + 1)) : Int.log 2 |x| ≤ e := by
  rcases eq_or_ne x 0 with rfl | hx
  · rw [log_abs_zero]
    exact Int.natCast_nonneg e
  · have hpow : |x| < ((2 : Nat) : K) ^ ((e + 1 : Nat) : Int) := by
      rwa [zpow_natCast, Nat.cast_ofNat]
    have hlog := (Int.lt_zpow_iff_log_lt one_lt_two (abs_pos.2 hx)).1 hpow
    omega

theorem exists_intCast_mul_ulp {p q : Nat} {x : K} (hx : |x| < 2 ^ (q + 1)) (hq : q + 1 < p)
    (n : Int) : ∃ m : Int, 2 ∣ m ∧ (n : K) = m * ulp p x := by
  have hlog := log_abs_lt hx
  have hn := exists_mul_ulp (K := K) (p := p) (x := x) (e := 0) (by omega) n
  rw [zpow_zero, mul_one] at hn
  refine ⟨_, ?_, hn⟩
  exact (dvd_pow_self 2 (by omega)).mul_left n

theorem le_roundTo {n : Int} {x y : K} (hy : y = n * ulp p x) (h : y ≤ x) : y ≤ roundTo p x := by
  have hn : (n : K) ≤ x / ulp p x := by
    rw [le_div_iff₀ (ulp_pos p x), ← hy]
    exact h
  rw [hy, roundTo]
  exact mul_le_mul_of_nonneg_right (Int.cast_le.2 (le_roundEven hn)) (ulp_pos p x).le

theorem roundTo_le {n : Int} {x y : K} (hy : y = n * ulp p x) (h : x ≤ y) : roundTo p x ≤ y := by
  have hn : x / ulp p x ≤ n := by
    rw [div_le_iff₀ (ulp_pos p x), ← hy]
    exact h
  rw [hy, roundTo]
  exact mul_le_mul_of_nonneg_right (Int.cast_le.2 (roundEven_le hn)) (ulp_pos p x).le

theorem roundTo_eq_self {n : Int} {x : K} (h : x = n * ulp p x) : roundTo p x = x :=
  le_antisymm (roundTo_le h le_rfl) (le_roundTo h le_rfl)

theorem roundTo_lt_iff {n : Int} {x y : K} (hn : 2 ∣ n) (hy : y = n * ulp p x) :
    roundTo p x < y ↔ x < y - ulp p x / 2 := by
  have hpos := ulp_pos p x
  have hleft : roundTo p x < y ↔ roundEven (x / ulp p x) < n := by
    rw [hy, roundTo, mul_lt_mul_iff_left₀ hpos, Int.cast_lt]
  have hright : y - ulp p x / 2 = (n - 1 / 2) * ulp p x := by
    rw [hy]
    ring
  rw [hleft, roundEven_lt_iff hn, div_lt_iff₀ hpos, hright]

/-! ### Exact results and errors -/

theorem roundTo_zero (p : Nat) : roundTo p (0 : K) = 0 :=
  roundTo_eq_self (n := 0) (by rw [Int.cast_zero, zero_mul])

theorem roundTo_nonneg {x : K} (p : Nat) (h : 0 ≤ x) : 0 ≤ roundTo p x :=
  le_roundTo (n := 0) (by rw [Int.cast_zero, zero_mul]) h

/-- Rounding changes nothing when the significant digits fit. -/
theorem roundTo_exact {n : Int} (hn : |n| < 2 ^ p) (e : Int) :
    roundTo p ((n : K) * 2 ^ e) = n * 2 ^ e := by
  rcases eq_or_ne n 0 with rfl | hzero
  · rw [Int.cast_zero, zero_mul, roundTo_zero]
  · have hpos : 0 < |(n : K) * 2 ^ e| :=
      abs_pos.2 (mul_ne_zero (Int.cast_ne_zero.2 hzero) (zpow_ne_zero e two_ne_zero))
    have hlt : |(n : K) * 2 ^ e| < ((2 : Nat) : K) ^ ((p : Int) + e) := by
      have hcast : |(n : K)| < 2 ^ p := by
        rw [← Int.cast_abs]
        exact_mod_cast hn
      have he : |(2 : K) ^ e| = 2 ^ e := abs_of_pos (zpow_pos zero_lt_two e)
      rw [abs_mul, he, Nat.cast_ofNat, zpow_add₀ (zero_lt_two' K).ne', zpow_natCast]
      exact mul_lt_mul_of_pos_right hcast (zpow_pos zero_lt_two e)
    have hlog := (Int.lt_zpow_iff_log_lt one_lt_two hpos).1 hlt
    exact roundTo_eq_self (exists_mul_ulp (by omega) n)

theorem roundTo_div_two_pow {p : Nat} {n : Int} (h : |n| < 2 ^ p) (k : Nat) :
    roundTo p ((n : K) / 2 ^ k) = n / 2 ^ k := by
  have hk : (n : K) / 2 ^ k = n * 2 ^ (-k : Int) := by
    rw [zpow_neg, zpow_natCast, div_eq_mul_inv]
  rw [hk]
  exact roundTo_exact h (-k)

theorem abs_roundTo_sub_le (p : Nat) (x : K) : |roundTo p x - x| ≤ |x| / 2 ^ p := by
  rcases eq_or_ne x 0 with rfl | hx
  · rw [roundTo_zero, sub_zero, abs_zero, zero_div]
  have hpos := ulp_pos p x
  have hround : |roundTo p x - x| ≤ ulp p x / 2 := by
    have hmul : roundTo p x - x = (roundEven (x / ulp p x) - x / ulp p x) * ulp p x := by
      rw [roundTo, sub_mul, div_mul_cancel₀ _ hpos.ne']
    have hhalf : ulp p x / 2 = 1 / 2 * ulp p x := by ring
    rw [hmul, hhalf, abs_mul, abs_of_pos hpos]
    exact mul_le_mul_of_nonneg_right (abs_roundEven_sub_le _) hpos.le
  have hlog : (2 : K) ^ Int.log 2 |x| ≤ |x| := by
    have hle := Int.zpow_log_le_self one_lt_two (abs_pos.2 hx)
    rwa [Nat.cast_ofNat] at hle
  rw [half_ulp, zpow_sub₀ two_ne_zero, zpow_natCast] at hround
  exact hround.trans (div_le_div_of_nonneg_right hlog (pow_nonneg zero_le_two p))

/-- Rounding does not cross a power of two. -/
theorem zpow_le_roundTo {e : Int} {x : K} (hp : 0 < p) (h : 2 ^ e ≤ x) : 2 ^ e ≤ roundTo p x := by
  have hx : 0 < x := lt_of_lt_of_le (zpow_pos zero_lt_two e) h
  have hlog : e ≤ Int.log 2 |x| := by
    rw [abs_of_pos hx]
    apply (Int.zpow_le_iff_le_log one_lt_two hx).1
    rwa [Nat.cast_ofNat]
  have hself : (2 : K) ^ Int.log 2 |x| ≤ x := by
    rw [abs_of_pos hx]
    have hle := Int.zpow_log_le_self one_lt_two hx
    rwa [Nat.cast_ofNat] at hle
  have hgrid := exists_mul_ulp (K := K) (p := p) (x := x) (e := Int.log 2 |x|) (by omega) 1
  rw [Int.cast_one, one_mul] at hgrid
  calc (2 : K) ^ e ≤ 2 ^ Int.log 2 |x| := zpow_le_zpow_right₀ one_le_two hlog
    _ ≤ roundTo p x := le_roundTo hgrid hself

/-! ### Between the integers -/

section
variable {p q : Nat} {x : K}

theorem roundTo_lt_intCast_iff (hx : |x| < 2 ^ (q + 1)) (hq : q + 1 < p) (n : Int) :
    roundTo p x < n ↔ x < n - ulp p x / 2 := by
  obtain ⟨m, hm, hn⟩ := exists_intCast_mul_ulp hx hq n
  exact roundTo_lt_iff hm hn

theorem roundTo_le_intCast (hx : |x| < 2 ^ (q + 1)) (hq : q + 1 < p) {n : Int} (h : x ≤ n) :
    roundTo p x ≤ n := by
  obtain ⟨m, -, hn⟩ := exists_intCast_mul_ulp hx hq n
  exact roundTo_le hn h

theorem intCast_le_roundTo (hx : |x| < 2 ^ (q + 1)) (hq : q + 1 < p) {n : Int} (h : (n : K) ≤ x) :
    (n : K) ≤ roundTo p x := by
  obtain ⟨m, -, hn⟩ := exists_intCast_mul_ulp hx hq n
  exact le_roundTo hn h

/-- The integral part is what it was, unless the number is so near below an integer that it is
rounded up to it. -/
theorem floor_roundTo_eq_iff (hx : |x| < 2 ^ (q + 1)) (hq : q + 1 < p) :
    ⌊roundTo p x⌋ = ⌊x⌋ ↔ Int.fract x < 1 - ulp p x / 2 := by
  have hle := intCast_le_roundTo hx hq (Int.floor_le x)
  have hlt := roundTo_lt_intCast_iff hx hq (⌊x⌋ + 1)
  rw [Int.cast_add, Int.cast_one] at hlt
  have hfloor : ⌊roundTo p x⌋ = ⌊x⌋ ↔ roundTo p x < ⌊x⌋ + 1 :=
    Int.floor_eq_iff.trans (and_iff_right hle)
  rw [hfloor, hlt, ← Int.self_sub_floor]
  constructor <;> intro h <;> linarith

/-- For an integer between two powers of two the last place is that of the lower one. -/
theorem roundTo_lt_intCast_iff_of_le (hx : 0 ≤ x) (hq : q + 1 < p) {n : Int} (hlow : 2 ^ q < n)
    (hhigh : n ≤ 2 ^ (q + 1)) : roundTo p x < n ↔ x < n - 2 ^ ((q : Int) - p) := by
  have hplace : (2 : K) ^ ((q : Int) - p) ≤ 1 := zpow_le_one_of_nonpos₀ one_le_two (by omega)
  have hlow' : (2 : K) ^ q + 1 ≤ n := by exact_mod_cast hlow
  have hhigh' : (n : K) ≤ 2 ^ (q + 1) := by exact_mod_cast hhigh
  rcases lt_or_ge x (2 ^ (q + 1)) with htop | htop
  · have habs : |x| < 2 ^ (q + 1) := by rwa [abs_of_nonneg hx]
    rcases lt_or_ge x (2 ^ q) with hbot | hbot
    · have hround : roundTo p x ≤ ((2 ^ q : Int) : K) :=
        roundTo_le_intCast habs hq (by exact_mod_cast hbot.le)
      rw [Int.cast_pow, Int.cast_ofNat] at hround
      constructor <;> intro _ <;> linarith
    · have hpos : 0 < x := lt_of_lt_of_le (pow_pos zero_lt_two q) hbot
      have hlog : Int.log 2 |x| = q := by
        apply le_antisymm (log_abs_lt habs)
        rw [abs_of_pos hpos]
        apply (Int.zpow_le_iff_le_log one_lt_two hpos).1
        rwa [Nat.cast_ofNat, zpow_natCast]
      rw [roundTo_lt_intCast_iff habs hq, half_ulp, hlog]
  · have hround : (2 : K) ^ ((q + 1 : Nat) : Int) ≤ roundTo p x :=
      zpow_le_roundTo (by omega) (by rwa [zpow_natCast])
    rw [zpow_natCast] at hround
    have hpos : (0 : K) < 2 ^ ((q : Int) - p) := zpow_pos zero_lt_two _
    constructor <;> intro _ <;> linarith

end

end

end Rounding

import Mathlib.Algebra.Order.Floor.Ring
import Mathlib.Algebra.Order.Field.Basic
import Mathlib.Tactic.Linarith
import Mathlib.Tactic.SplitIfs
import RobotCar.Lib.Rounding

namespace CArith
open Rounding
set_option autoImplicit true

/-! Literals: their side condition under one name, where each definition would make its own -/

instance atLeastTwo_two : Nat.AtLeastTwo 2 := inferInstance
instance atLeastTwo_three : Nat.AtLeastTwo 3 := inferInstance
instance atLeastTwo_four : Nat.AtLeastTwo 4 := inferInstance
instance atLeastTwo_10000 : Nat.AtLeastTwo 10000 := inferInstance
instance atLeastTwo_100000 : Nat.AtLeastTwo 100000 := inferInstance
instance neZero_four : NeZero 4 := inferInstance
instance neZero_ten : NeZero 10 := inferInstance

/-- Conversion of a floating-point value to an integer: truncation towards zero. -/
def trunc [Field K] [LinearOrder K] [FloorRing K] (x : K) : Int := if 0 ≤ x then ⌊x⌋ else ⌈x⌉

theorem trunc_neg [Field K] [LinearOrder K] [IsStrictOrderedRing K] [FloorRing K] (x : K) :
    trunc (-x) = -trunc x := by
  rcases lt_trichotomy x 0 with h | h | h
  · have hneg : ¬0 ≤ x := not_le.2 h
    rw [trunc, trunc, if_pos (neg_nonneg.2 h.le), if_neg hneg, Int.floor_neg]
  · rw [h, neg_zero, trunc, if_pos le_rfl, Int.floor_zero, neg_zero]
  · have hneg : ¬0 ≤ -x := not_le.2 (neg_neg_of_pos h)
    rw [trunc, trunc, if_neg hneg, if_pos h.le, Int.ceil_neg]

theorem abs_trunc_sub_lt_one [Field K] [LinearOrder K] [IsStrictOrderedRing K] [FloorRing K]
    (x : K) : |(trunc x : K) - x| < 1 := by
  rw [trunc, abs_lt]
  split
  · have hle := Int.floor_le x
    have hlt := Int.lt_floor_add_one x
    constructor <;> linarith
  · have hle := Int.le_ceil x
    have hlt := Int.ceil_lt_add_one x
    constructor <;> linarith

theorem trunc_intCast [Field K] [LinearOrder K] [IsStrictOrderedRing K] [FloorRing K] (n : Int) :
    trunc (n : K) = n := by
  rw [trunc]
  split
  · exact Int.floor_intCast n
  · exact Int.ceil_intCast n

/-- The quotient of integers in C. -/
theorem trunc_intCast_div [Field K] [LinearOrder K] [IsStrictOrderedRing K] [FloorRing K] (n : Int)
    (d : Nat) : trunc ((n : K) / d) = n.tdiv d := by
  have hnonneg (m : Nat) : trunc (((m : Int) : K) / d) = (m : Int).tdiv d := by
    have hm : (0 : K) ≤ ((m : Int) : K) / d := by
      rw [Int.cast_natCast]
      exact div_nonneg m.cast_nonneg d.cast_nonneg
    rw [trunc, if_pos hm, Int.floor_div_natCast, Int.floor_intCast,
      Int.tdiv_eq_ediv_of_nonneg (Int.natCast_nonneg m)]
  rcases Int.eq_nat_or_neg n with ⟨m, rfl | rfl⟩
  · exact hnonneg m
  · rw [Int.cast_neg, neg_div, trunc_neg, hnonneg, Int.neg_tdiv]

theorem abs_trunc_le [Field K] [LinearOrder K] [IsStrictOrderedRing K] [FloorRing K] (x : K) :
    |(trunc x : K)| ≤ |x| := by
  rw [trunc]
  split
  · rename_i hx
    have hfloor : (0 : K) ≤ ⌊x⌋ := Int.cast_nonneg (Int.floor_nonneg.2 hx)
    rw [abs_of_nonneg hfloor, abs_of_nonneg hx]
    exact Int.floor_le x
  · rename_i hx
    have hceil : (⌈x⌉ : K) ≤ 0 :=
      Int.cast_nonpos.2 (Int.ceil_le.2 (by simpa using (not_le.1 hx).le))
    rw [abs_of_nonpos hceil, abs_of_neg (not_le.1 hx)]
    exact neg_le_neg (Int.le_ceil x)

theorem trunc_nonneg_iff [Field K] [LinearOrder K] [IsStrictOrderedRing K] [FloorRing K] {x : K} :
    0 ≤ trunc x ↔ -1 < x := by
  rw [trunc]
  split
  · rename_i hx
    exact iff_of_true (Int.floor_nonneg.2 hx) (lt_of_lt_of_le (by norm_num) hx)
  · rw [Int.le_ceil_iff, Int.cast_zero, zero_sub]

theorem le_trunc_iff [Field K] [LinearOrder K] [IsStrictOrderedRing K] [FloorRing K] {x : K}
    (hx : x ≤ -1) (n : Int) : n ≤ trunc x ↔ (n : K) < x + 1 := by
  have hneg : ¬0 ≤ x := by linarith
  rw [trunc, if_neg hneg, Int.le_ceil_iff, sub_lt_iff_lt_add]

theorem le_trunc [Field K] [LinearOrder K] [IsStrictOrderedRing K] [FloorRing K] {n : Int} {x : K}
    (h : (n : K) ≤ x) : n ≤ trunc x := by
  rw [trunc]
  split
  · exact Int.le_floor.2 h
  · exact Int.cast_le.1 (h.trans (Int.le_ceil x))

theorem trunc_le [Field K] [LinearOrder K] [IsStrictOrderedRing K] [FloorRing K] {n : Int} {x : K}
    (h : x ≤ n) : trunc x ≤ n := by
  rw [trunc]
  split
  · exact Int.cast_le.1 ((Int.floor_le x).trans h)
  · exact Int.ceil_le.2 h

theorem clamp_neg [CommRing K] [LinearOrder K] [IsStrictOrderedRing K] {b v x : K} (hb : 0 ≤ b)
    (hv : -b ≤ v) :
    (let y := if -x > b then v else -x
      if y < -b then -v else y) =
    -(let y := if x > b then v else x
      if y < -b then -v else y) := by
  dsimp only
  split_ifs <;> linarith

/-- The value of a 32-bit signed expression. -/
def wrap32 (n : Int) : Int := n.bmod (2 ^ 32)

theorem wrap32_eq_self_iff {n : Int} : wrap32 n = n ↔ -2147483648 ≤ n ∧ n < 2147483648 := by
  rw [wrap32, Int.bmod_eq_iff (by decide)]
  constructor
  · rintro ⟨hle, hlt, -⟩
    exact ⟨hle, hlt⟩
  · rintro ⟨hle, hlt⟩
    exact ⟨hle, hlt, by rw [Int.sub_self]; exact Int.dvd_zero _⟩

/-- The conversion to a 32-bit signed integer that the target makes: it saturates. -/
def toInt32 [Field K] [LinearOrder K] [FloorRing K] (x : K) : Int :=
  max (-2147483648) (min 2147483647 (trunc x))

/-- A result of type `float`. No use of it needs the bounds on the exponent. -/
def toFloat {K : Type} [Field K] [LinearOrder K] [IsStrictOrderedRing K] [FloorRing K]
    (x : K) : K :=
  roundTo 24 x

/-- A result of type `double`. -/
def toDouble {K : Type} [Field K] [LinearOrder K] [IsStrictOrderedRing K] [FloorRing K] (x : K) :
    K :=
  roundTo 53 x

/-- The conversion of a quotient of type `double`, which may be infinite or undefined. -/
def quotientToInt32 {K : Type} [Field K] [LinearOrder K] [IsStrictOrderedRing K] [FloorRing K]
    (x y : K) : Int :=
  if y ≠ 0 then toInt32 (toDouble (x / y))
  else if x = 0 then 0 else if 0 < x then 2147483647 else -2147483648

theorem toInt32_eq_trunc [Field K] [LinearOrder K] [IsStrictOrderedRing K] [FloorRing K] {x : K}
    (h : |x| ≤ 2147483647) : toInt32 x = trunc x := by
  have hlow : -2147483647 ≤ trunc x := le_trunc (by exact_mod_cast (abs_le.1 h).1)
  have hhigh : trunc x ≤ 2147483647 := trunc_le (by exact_mod_cast (abs_le.1 h).2)
  rw [toInt32]
  omega

theorem toInt32_range [Field K] [LinearOrder K] [FloorRing K] (x : K) :
    -2147483648 ≤ toInt32 x ∧ toInt32 x < 2147483648 := by
  rw [toInt32]
  omega

theorem quotientToInt32_range {K : Type} [Field K] [LinearOrder K] [IsStrictOrderedRing K]
    [FloorRing K] (x y : K) :
    -2147483648 ≤ quotientToInt32 x y ∧ quotientToInt32 x y < 2147483648 := by
  unfold quotientToInt32
  split
  · exact toInt32_range _
  split
  · decide
  split
  · decide
  · decide

/-- The conversion to a 32-bit unsigned integer that the target makes. -/
def toUInt32 [Field K] [LinearOrder K] [FloorRing K] (x : K) : UInt32 :=
  UInt32.ofNat (min 4294967295 (trunc x).toNat)

end CArith

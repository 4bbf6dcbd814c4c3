import RobotCar.ControlSteps
import RobotCar.PoseUnits

namespace RobotCar
open Concurrent CArith Rounding
set_option autoImplicit true
set_option linter.unusedSectionVars false

/-! ### The change of the mode and the tick, as they are rounded

Here every operation on `float` and `double` rounds, and the operations on `long int` and the
conversions to it have 32 bits. -/

section
variable {K : Type} [Field K] [LinearOrder K] [IsStrictOrderedRing K] [FloorRing K]

/-- The motor part of `Control`, however it rounds. It has no part in the targets. -/
structure MotorPart (K : Type) where
  run : Car K → Car K
  command : ∀ s, (run s).command = s.command
  hardware : ∀ s, (run s).hardware = s.hardware
  Target : ∀ s, (run s).Target = s.Target

def MotorPart.exact [Libm K] : MotorPart K where
  run := Control_motors
  command := Control_motors_command
  hardware := Control_motors_hardware
  Target := Control_motors_Target

namespace Rounded

def a_PARAMETER : K := toFloat RobotCar.a_PARAMETER
def b_PARAMETER : K := toFloat RobotCar.b_PARAMETER

def a_b_PARAMETER : K := toFloat (a_PARAMETER + b_PARAMETER)

def Kinematic_Analysis (V : Vec K) (s : Car K) : Car K :=
  { s with
    Target :=
      { A := toInt32 (toFloat (toFloat (-V.X + V.Y) - toFloat (V.Z * a_b_PARAMETER)))
        B := toInt32 (toFloat (toFloat (V.X + V.Y) - toFloat (V.Z * a_b_PARAMETER)))
        C := toInt32 (toFloat (toFloat (-V.X + V.Y) + toFloat (V.Z * a_b_PARAMETER)))
        D := toInt32 (toFloat (toFloat (V.X + V.Y) + toFloat (V.Z * a_b_PARAMETER))) } }

/-- `Position-Vx+Vy` of a wheel, or the same with other signs. -/
def relative_sum (Position : Int) (Vx Vy : K) : K :=
  toFloat (toFloat (toFloat (Position : K) + Vx) + Vy)

def Kinematic_Analysis_Relative (V : Vec K) (s : Car K) : Car K :=
  { s with
    Target :=
      { A := toInt32 (toFloat (relative_sum s.Position.A (-V.X) V.Y -
          toFloat (V.Z * a_b_PARAMETER)))
        B := toInt32 (toFloat (relative_sum s.Position.B V.X V.Y -
          toFloat (V.Z * a_b_PARAMETER)))
        C := toInt32 (toFloat (relative_sum s.Position.C (-V.X) V.Y +
          toFloat (V.Z * a_b_PARAMETER)))
        D := toInt32 (toFloat (relative_sum s.Position.D V.X V.Y +
          toFloat (V.Z * a_b_PARAMETER))) } }

def Control_targets (s : Car K) : Car K :=
  match Control_positioning s with
  | .relative =>
    if s.pending_flag = 1 then
      { Kinematic_Analysis_Relative s.Move s with pending_flag := 0 }
    else s
  | .absolute => Kinematic_Analysis s.Move s

def Control (motors : MotorPart K) (s : Car K) : Car K :=
  let s := Control_targets s
  let s := Control_encoders s
  let s := motors.run s
  let s := Xianfu_Pwm 11999 s
  Set_Pwm s.Motor.A s.Motor.B s.Motor.C s.Motor.D s

/-- The arguments of `Set_Move`, which are of type `float`. -/
def Move_arguments (V : Vec K) : Vec K := ⟨toFloat V.X, toFloat V.Y, toFloat V.Z⟩

def Set_Move (V : Vec K) : Task (ControlCall K) (Car K) Unit :=
  Task.update .Set_Move fun s => { s with Move := Move_arguments V }

def Position_NOW (s : Car K) : Vec K where
  X := toDouble ((wrap32 (s.Position.B - s.Position.A) : K) / 2)
  Y := toDouble ((wrap32 (s.Position.B + s.Position.C) : K) / 2)
  Z := toDouble (toDouble ((wrap32 (s.Position.C - s.Position.A + s.Position.D - s.Position.B) :
    K) / 4) / a_b_PARAMETER)

def Get_Position_NOW : Task (ControlCall K) (Car K) (Vec K) :=
  Task.read .Get_Position_NOW Position_NOW

def callback_mode_entry : Task (ControlCall K) (Car K) Unit := do
  let flag ← Get_Run_Flag
  if flag = 1 then
    let rel ← Get_relative
    if rel = 1 then
      let NOW ← Get_Position_NOW
      Set_Last_Target NOW
      Set_Move NOW

def callback_mode_change (data : UInt8) : Task (ControlCall K) (Car K) Unit := do
  let rel ← Get_relative
  if rel ≠ data then
    callback_mode_entry
    Set_relative data

def callback_mode [Libm K] (data : UInt8) : Task (ControlCall K) (Car K) Unit := do
  callback_mode_change data
  publish_car_status

/-- The ROS task as far as it changes the mode. -/
def modeClient [Libm K] (motors : MotorPart K) :
    Client (ControlCall K) (Car K) UInt8 CarEvent where
  handler := callback_mode
  env
    | .Control => Control motors
    | .encoders counters => fun s => { s with counters := counters }

/-! ### What a tick keeps -/

theorem Control_targets_hardware (s : Car K) : (Control_targets s).hardware = s.hardware := by
  unfold Control_targets
  split
  · split <;> rfl
  · rfl

theorem Control_targets_command (s : Car K) :
    (Control_targets s).Run_Flag = s.Run_Flag ∧ (Control_targets s).Move = s.Move ∧
      (Control_targets s).relative = s.relative := by
  unfold Control_targets
  split
  · split <;> exact ⟨rfl, rfl, rfl⟩
  · exact ⟨rfl, rfl, rfl⟩

theorem Control_command (motors : MotorPart K) (s : Car K) :
    (Control motors s).Run_Flag = s.Run_Flag ∧ (Control motors s).Move = s.Move ∧
      (Control motors s).relative = s.relative := by
  have hmotors := motors.command (Control_encoders (Control_targets s))
  obtain ⟨hflag, hmove, hrel⟩ := Control_targets_command s
  refine ⟨?_, ?_, ?_⟩
  · exact (congrArg (·.1) hmotors).trans hflag
  · exact (congrArg (·.2.1) hmotors).trans hmove
  · exact (congrArg (·.2.2.1) hmotors).trans hrel

theorem Control_Target (motors : MotorPart K) (s : Car K) :
    (Control motors s).Target = (Control_targets s).Target :=
  motors.Target (Control_encoders (Control_targets s))

theorem Control_at_rest (motors : MotorPart K) {s : Car K} (h : s.counters = {}) :
    (Control motors s).Position = s.Position ∧ (Control motors s).counters = {} := by
  have htargets := Control_targets_hardware s
  have hmotors := motors.hardware (Control_encoders (Control_targets s))
  have hP : (Control_targets s).Position = s.Position := congrArg (·.1) htargets
  have hc : (Control_targets s).counters = {} := (congrArg (·.2.1) htargets).trans h
  constructor
  · apply (congrArg (·.1) hmotors).trans
    change Wheels.mk ((Control_targets s).Position.A + -(Control_targets s).counters.value .A)
      ((Control_targets s).Position.B + -(Control_targets s).counters.value .B)
      ((Control_targets s).Position.C + (Control_targets s).counters.value .C)
      ((Control_targets s).Position.D + (Control_targets s).counters.value .D) = _
    rw [hc, hP]
    change Wheels.mk (s.Position.A + 0) (s.Position.B + 0) (s.Position.C + 0)
      (s.Position.D + 0) = _
    simp only [Int.add_zero]
  · exact congrArg (·.2.1) hmotors

/-! ### How far the rounded targets are from the exact ones -/

/-- Rounding adds a part of the value to the error that it already has. -/
theorem toFloat_near {x y E : K} (h : |x - y| ≤ E) :
    |toFloat x - y| ≤ E + (|y| + E) / 2 ^ 24 := by
  have hround : |toFloat x - x| ≤ |x| / 2 ^ 24 := abs_roundTo_sub_le 24 x
  have hx : |x| ≤ |y| + E := by
    have htriangle := abs_sub_abs_le_abs_sub x y
    linarith
  have hdiv := div_le_div_of_nonneg_right hx (pow_nonneg zero_le_two 24 : (0 : K) ≤ 2 ^ 24)
  have hsum := abs_sub_le (toFloat x) x y
  linarith

theorem half_le_toFloat {x : K} (h : 1 / 2 ≤ x) : 1 / 2 ≤ toFloat x := by
  have hhalf : (1 / 2 : K) = 2 ^ (-1 : Int) := by rw [zpow_neg_one, one_div]
  rw [hhalf] at h ⊢
  exact zpow_le_roundTo (by decide) h

theorem a_b_PARAMETER_pos : (0 : K) < a_b_PARAMETER := by
  have ha : (1 / 2 : K) ≤ a_PARAMETER := half_le_toFloat (by norm_num [RobotCar.a_PARAMETER])
  have hb : (1 / 2 : K) ≤ b_PARAMETER := half_le_toFloat (by norm_num [RobotCar.b_PARAMETER])
  have hsum : (1 / 2 : K) ≤ a_b_PARAMETER := half_le_toFloat (by linarith)
  linarith

theorem roundTo_half {n : Int} (h : |n| < 2 ^ p) : roundTo p ((n : K) / 2) = n / 2 := by
  have hround : roundTo p ((n : K) / 2 ^ 1) = (n : K) / 2 ^ 1 := roundTo_div_two_pow h 1
  rwa [pow_one] at hround

/-- The turn is divided by the parameter, stored as a `float` and multiplied by it again. -/
theorem turn_near (x : K) :
    |toFloat (toFloat (toDouble (x / a_b_PARAMETER)) * a_b_PARAMETER) - x| ≤
      |x| * (1 / 2 ^ 23 + 1 / 2 ^ 47) := by
  have hpos : (0 : K) < a_b_PARAMETER := a_b_PARAMETER_pos
  have hdouble : |toDouble (x / a_b_PARAMETER) - x / a_b_PARAMETER| ≤
      |x / a_b_PARAMETER| / 2 ^ 53 := abs_roundTo_sub_le 53 _
  have hstored := mul_le_mul_of_nonneg_right (toFloat_near hdouble) hpos.le
  have hleft : |toFloat (toDouble (x / a_b_PARAMETER)) - x / a_b_PARAMETER| * a_b_PARAMETER =
      |toFloat (toDouble (x / a_b_PARAMETER)) * a_b_PARAMETER - x| := by
    rw [← abs_of_pos hpos, ← abs_mul, abs_of_pos hpos, sub_mul, div_mul_cancel₀ _ hpos.ne']
  have habs : |x / a_b_PARAMETER| * a_b_PARAMETER = |x| := by
    rw [abs_div, abs_of_pos hpos, div_mul_cancel₀ _ hpos.ne']
  have hright : (|x / a_b_PARAMETER| / 2 ^ 53 + (|x / a_b_PARAMETER| +
      |x / a_b_PARAMETER| / 2 ^ 53) / 2 ^ 24) * a_b_PARAMETER =
      |x| * (1 / 2 ^ 53 + (1 + 1 / 2 ^ 53) / 2 ^ 24) := by
    rw [← habs]
    ring
  rw [hleft, hright] at hstored
  have hx := abs_nonneg x
  have hproduct := toFloat_near hstored
  linarith

/-- The wheel counts of a pose as they are computed, before they are converted. -/
def counts (V : Vec K) : Wheels K where
  A := toFloat (toFloat (-V.X + V.Y) - toFloat (V.Z * a_b_PARAMETER))
  B := toFloat (toFloat (V.X + V.Y) - toFloat (V.Z * a_b_PARAMETER))
  C := toFloat (toFloat (-V.X + V.Y) + toFloat (V.Z * a_b_PARAMETER))
  D := toFloat (toFloat (V.X + V.Y) + toFloat (V.Z * a_b_PARAMETER))

theorem Kinematic_Analysis_get (V : Vec K) (s : Car K) (w : Wheel) :
    (Kinematic_Analysis V s).Target.get w = toInt32 ((counts V).get w) := by cases w <;> rfl

theorem count_near {u u' z z' E F : K} (hu : |u' - u| ≤ E) (hz : |z' - z| ≤ F) :
    |toFloat (u' + z') - (u + z)| ≤ E + F + (|u + z| + (E + F)) / 2 ^ 24 := by
  apply toFloat_near
  have hsplit : u' + z' - (u + z) = (u' - u) + (z' - z) := by ring
  rw [hsplit]
  exact (abs_add_le _ _).trans (add_le_add hu hz)

theorem counts_near {V : Vec K} {x y z E F : K}
    (hminus : |toFloat (-V.X + V.Y) - (-x + y)| ≤ E) (hplus : |toFloat (V.X + V.Y) - (x + y)| ≤ E)
    (hturn : |toFloat (V.Z * a_b_PARAMETER) - z| ≤ F) (w : Wheel) :
    let n : Wheels K := ⟨-x + y - z, x + y - z, -x + y + z, x + y + z⟩
    |(counts V).get w - n.get w| ≤ E + F + (|n.get w| + (E + F)) / 2 ^ 24 := by
  have hneg : |-toFloat (V.Z * a_b_PARAMETER) - -z| ≤ F := by
    rw [← abs_neg, neg_sub, sub_neg_eq_add, add_comm, ← sub_eq_add_neg]
    exact hturn
  intro n
  cases w with
  | A =>
    have hA := count_near hminus hneg
    rw [← sub_eq_add_neg, ← sub_eq_add_neg] at hA
    exact hA
  | B =>
    have hB := count_near hplus hneg
    rw [← sub_eq_add_neg, ← sub_eq_add_neg] at hB
    exact hB
  | C => exact count_near hminus hturn
  | D => exact count_near hplus hturn

/-- The wheel positions are not so great that their sums overflow. -/
theorem Position_NOW_eq {s : Car K} {M : Int} (hM : ∀ w, |s.Position.get w| ≤ M)
    (hlt : M < 2 ^ 29) :
    Position_NOW s =
      { X := ((s.Position.B - s.Position.A : Int) : K) / 2
        Y := ((s.Position.B + s.Position.C : Int) : K) / 2
        Z := toDouble (((s.Position.C - s.Position.A + s.Position.D - s.Position.B : Int) : K) / 4 /
          a_b_PARAMETER) } := by
  have hA : |s.Position.A| ≤ M := hM .A
  have hB : |s.Position.B| ≤ M := hM .B
  have hC : |s.Position.C| ≤ M := hM .C
  have hD : |s.Position.D| ≤ M := hM .D
  rw [abs_le] at hA hB hC hD
  have hX : wrap32 (s.Position.B - s.Position.A) = s.Position.B - s.Position.A :=
    wrap32_eq_self_iff.2 (by omega)
  have hY : wrap32 (s.Position.B + s.Position.C) = s.Position.B + s.Position.C :=
    wrap32_eq_self_iff.2 (by omega)
  have hZ : wrap32 (s.Position.C - s.Position.A + s.Position.D - s.Position.B) =
      s.Position.C - s.Position.A + s.Position.D - s.Position.B :=
    wrap32_eq_self_iff.2 (by omega)
  have hhalf {n : Int} (h : -2 ^ 53 < n ∧ n < 2 ^ 53) : toDouble ((n : K) / 2) = n / 2 :=
    roundTo_half (abs_lt.2 h)
  have hquarter {n : Int} (h : -2 ^ 53 < n ∧ n < 2 ^ 53) : toDouble ((n : K) / 4) = n / 4 := by
    have hfour : (4 : K) = 2 ^ 2 := by norm_num
    rw [hfour]
    exact roundTo_div_two_pow (abs_lt.2 h) 2
  rw [Position_NOW, hX, hY, hZ, hhalf (by omega), hhalf (by omega), hquarter (by omega)]

theorem Position_bounds {s : Car K} {M : Int} (hM : ∀ w, |s.Position.get w| ≤ M) (w : Wheel) :
    -(M : K) ≤ s.Position.get w ∧ (s.Position.get w : K) ≤ M := by
  obtain ⟨hlow, hhigh⟩ := abs_le.1 (hM w)
  exact ⟨by exact_mod_cast hlow, by exact_mod_cast hhigh⟩

theorem Position_NOW_turn (s : Car K) :
    (RobotCar.Position_NOW s).Z * (RobotCar.a_PARAMETER + RobotCar.b_PARAMETER) =
      ((s.Position.C - s.Position.A + s.Position.D - s.Position.B : Int) : K) / 4 :=
  div_mul_cancel₀ _ (ne_of_gt parameter_pos)

theorem Position_NOW_bounds {s : Car K} {M : Int} (hM : ∀ w, |s.Position.get w| ≤ M) :
    |(RobotCar.Position_NOW s).X| ≤ M ∧ |(RobotCar.Position_NOW s).Y| ≤ M ∧
      |(RobotCar.Position_NOW s).Z * (RobotCar.a_PARAMETER + RobotCar.b_PARAMETER)| ≤ M := by
  have hA : -(M : K) ≤ s.Position.A ∧ (s.Position.A : K) ≤ M := Position_bounds hM .A
  have hB : -(M : K) ≤ s.Position.B ∧ (s.Position.B : K) ≤ M := Position_bounds hM .B
  have hC : -(M : K) ≤ s.Position.C ∧ (s.Position.C : K) ≤ M := Position_bounds hM .C
  have hD : -(M : K) ≤ s.Position.D ∧ (s.Position.D : K) ≤ M := Position_bounds hM .D
  rw [Position_NOW_turn]
  dsimp only [RobotCar.Position_NOW]
  push_cast
  refine ⟨abs_le.2 ⟨?_, ?_⟩, abs_le.2 ⟨?_, ?_⟩, abs_le.2 ⟨?_, ?_⟩⟩ <;> linarith

theorem abs_wheel_counts_le {V : Vec K} {m : K} (hX : |V.X| ≤ m) (hY : |V.Y| ≤ m)
    (hZ : |V.Z * (RobotCar.a_PARAMETER + RobotCar.b_PARAMETER)| ≤ m) (w : Wheel) :
    |(wheel_counts V).get w| ≤ 3 * m := by
  rw [abs_le] at hX hY hZ ⊢
  cases w <;> dsimp only [wheel_counts, Wheels.get] <;> constructor <;> linarith

theorem Move_Position_NOW {s : Car K} {M : Int} (hM : ∀ w, |s.Position.get w| ≤ M)
    (hlt : M < 2 ^ 29) :
    (Move_arguments (Position_NOW s)).X = toFloat (RobotCar.Position_NOW s).X ∧
      (Move_arguments (Position_NOW s)).Y = toFloat (RobotCar.Position_NOW s).Y := by
  rw [Position_NOW_eq hM hlt]
  exact ⟨rfl, rfl⟩

theorem turn_Position_NOW_near {s : Car K} {M : Int} (hM : ∀ w, |s.Position.get w| ≤ M)
    (hlt : M < 2 ^ 29) :
    |toFloat ((Move_arguments (Position_NOW s)).Z * a_b_PARAMETER) -
      (RobotCar.Position_NOW s).Z * (RobotCar.a_PARAMETER + RobotCar.b_PARAMETER)| ≤
        M * (1 / 2 ^ 23 + 1 / 2 ^ 47) := by
  have hbound := (Position_NOW_bounds (K := K) hM).2.2
  rw [Position_NOW_turn] at hbound ⊢
  rw [Position_NOW_eq hM hlt]
  exact (turn_near _).trans (mul_le_mul_of_nonneg_right hbound (by positivity))

theorem sum_near {x x' y y' M : K} (hx : |x| ≤ M) (hy : |y| ≤ M) (hx' : |x' - x| ≤ M / 2 ^ 24)
    (hy' : |y' - y| ≤ M / 2 ^ 24) : |toFloat (x' + y') - (x + y)| ≤ 5 * M / 2 ^ 24 := by
  have hM : 0 ≤ M := (abs_nonneg x).trans hx
  have hsplit : x' + y' - (x + y) = (x' - x) + (y' - y) := by ring
  have hsum : |x' + y' - (x + y)| ≤ M / 2 ^ 24 + M / 2 ^ 24 := by
    rw [hsplit]
    exact (abs_add_le _ _).trans (add_le_add hx' hy')
  have habs := (abs_add_le x y).trans (add_le_add hx hy)
  have hround := toFloat_near hsum
  linarith

/-- For every four positions the rounding costs at most one part in 2^20 of the greatest. -/
theorem counts_close {s : Car K} {M : Int} (hM : ∀ w, |s.Position.get w| ≤ M) (hlt : M < 2 ^ 29)
    (w : Wheel) :
    |(counts (Move_arguments (Position_NOW s))).get w -
      (wheel_counts (RobotCar.Position_NOW s)).get w| ≤ M / 2 ^ 20 := by
  obtain ⟨hX, hY, hZ⟩ := Position_NOW_bounds hM
  obtain ⟨hVX, hVY⟩ := Move_Position_NOW hM hlt
  have hturn := turn_Position_NOW_near (K := K) hM hlt
  generalize Move_arguments (Position_NOW s) = V at hVX hVY hturn ⊢
  generalize (M : K) = m at hX hY hZ hturn ⊢
  have hm : 0 ≤ m := (abs_nonneg _).trans hX
  have hround {x : K} (hx : |x| ≤ m) : |toFloat x - x| ≤ m / 2 ^ 24 :=
    (abs_roundTo_sub_le 24 x).trans (div_le_div_of_nonneg_right hx (by positivity))
  have hX' : |V.X - (RobotCar.Position_NOW s).X| ≤ m / 2 ^ 24 := hVX ▸ hround hX
  have hY' : |V.Y - (RobotCar.Position_NOW s).Y| ≤ m / 2 ^ 24 := hVY ▸ hround hY
  have hplus := sum_near hX hY hX' hY'
  have hXneg : |-(RobotCar.Position_NOW s).X| ≤ m := by rwa [abs_neg]
  have hXneg' : |-V.X - -(RobotCar.Position_NOW s).X| ≤ m / 2 ^ 24 := by
    rwa [← neg_sub', abs_neg]
  have hminus := sum_near hXneg hY hXneg' hY'
  have hcounts := counts_near hminus hplus hturn w
  change |(counts V).get w - (wheel_counts (RobotCar.Position_NOW s)).get w| ≤
    _ + (|(wheel_counts (RobotCar.Position_NOW s)).get w| + _) / _ at hcounts
  have hbound := abs_wheel_counts_le hX hY hZ w
  linarith

/-- Up to 2^20 counts the coordinates and their sums have at most 24 digits. -/
theorem sums_exact {s : Car K} {M : Int} (hM : ∀ w, |s.Position.get w| ≤ M) (hle : M ≤ 2 ^ 20) :
    toFloat (-(Move_arguments (Position_NOW s)).X + (Move_arguments (Position_NOW s)).Y) =
        -(RobotCar.Position_NOW s).X + (RobotCar.Position_NOW s).Y ∧
      toFloat ((Move_arguments (Position_NOW s)).X + (Move_arguments (Position_NOW s)).Y) =
        (RobotCar.Position_NOW s).X + (RobotCar.Position_NOW s).Y := by
  have hA : |s.Position.A| ≤ M := hM .A
  have hB : |s.Position.B| ≤ M := hM .B
  have hC : |s.Position.C| ≤ M := hM .C
  rw [abs_le] at hA hB hC
  have hexact {n : Int} {x : K} (hx : x = n / 2) (h : -2 ^ 24 < n ∧ n < 2 ^ 24) :
      toFloat x = x := by
    rw [hx]
    exact roundTo_half (abs_lt.2 h)
  have hX : (RobotCar.Position_NOW s).X = ((s.Position.B - s.Position.A : Int) : K) / 2 := rfl
  have hY : (RobotCar.Position_NOW s).Y = ((s.Position.B + s.Position.C : Int) : K) / 2 := rfl
  have hminus : -(RobotCar.Position_NOW s).X + (RobotCar.Position_NOW s).Y =
      ((s.Position.A + s.Position.C : Int) : K) / 2 := by
    rw [hX, hY]
    push_cast
    ring
  have hplus : (RobotCar.Position_NOW s).X + (RobotCar.Position_NOW s).Y =
      ((2 * s.Position.B + s.Position.C - s.Position.A : Int) : K) / 2 := by
    rw [hX, hY]
    push_cast
    ring
  obtain ⟨hVX, hVY⟩ := Move_Position_NOW (K := K) hM (lt_of_le_of_lt hle (by decide))
  rw [hexact hX (by omega)] at hVX
  rw [hexact hY (by omega)] at hVY
  rw [hVX, hVY]
  exact ⟨hexact hminus (by omega), hexact hplus (by omega)⟩

/-- Up to 2^20 counts only the turn and the last operation round. -/
theorem counts_closer {s : Car K} {M : Int} (hM : ∀ w, |s.Position.get w| ≤ M) (hle : M ≤ 2 ^ 20)
    (w : Wheel) :
    |(counts (Move_arguments (Position_NOW s))).get w -
      (wheel_counts (RobotCar.Position_NOW s)).get w| ≤
        1 / 7 + |(wheel_counts (RobotCar.Position_NOW s)).get w| / 2 ^ 24 := by
  have hturn := turn_Position_NOW_near (K := K) hM (lt_of_le_of_lt hle (by decide))
  obtain ⟨hminus, hplus⟩ := sums_exact (K := K) hM hle
  have hcounts := counts_near (E := 0) (by rw [hminus, sub_self, abs_zero])
    (by rw [hplus, sub_self, abs_zero]) hturn w
  change |_ - (wheel_counts (RobotCar.Position_NOW s)).get w| ≤
    _ + (|(wheel_counts (RobotCar.Position_NOW s)).get w| + _) / _ at hcounts
  have hle' : (M : K) ≤ 2 ^ 20 := by exact_mod_cast hle
  have hF := mul_le_mul_of_nonneg_right hle' (by positivity : (0 : K) ≤ 1 / 2 ^ 23 + 1 / 2 ^ 47)
  linarith

end Rounded

end

end RobotCar

import Mathlib.Algebra.Order.Group.Unbundled.Int
import RobotCar.ControlSteps
import RobotCar.PoseUnits

namespace RobotCar
open Concurrent CArith
set_option autoImplicit true
set_option linter.unusedSectionVars false

/-! ### The mirror image of a state -/

def Wheels.map (f : α → β) (v : Wheels α) : Wheels β := ⟨f v.A, f v.B, f v.C, f v.D⟩

def Vec.mirror [Neg K] (V : Vec K) : Vec K := ⟨-V.X, -V.Y, -V.Z⟩

def IncrementalPI.mirror (c : IncrementalPI) : IncrementalPI := ⟨-c.Bias, -c.Pwm, -c.Last_bias⟩

def PositionPID.mirror [Neg K] (c : PositionPID K) : PositionPID K :=
  ⟨-c.Bias, -c.Pwm, -c.Integral_bias, -c.Last_Bias⟩

def Counters.mirror (c : Counters) : Counters := ⟨-c.htim2, -c.htim3, -c.htim4, -c.htim5⟩

/-- The same car the other way round: each bridge has its sides exchanged. -/
def Car.mirror [Neg K] (s : Car K) : Car K :=
  { s with
    Encoder := s.Encoder.map (-·)
    Position := s.Position.map (-·)
    Rate := s.Rate.map (-·)
    Motor := s.Motor.map (-·)
    Target := s.Target.map (-·)
    Move := s.Move.mirror
    Incremental := s.Incremental.map IncrementalPI.mirror
    PositionPID := s.PositionPID.map PositionPID.mirror
    Last_Target := s.Last_Target.mirror
    counters := s.counters.mirror
    compare := fun c => s.compare c.partner }

/-- Counters whose values have an opposite. -/
structure Readings where
  counters : Counters
  opposite : ∀ w, 2 * counters.value w ≠ -w.period

theorem bmod_neg {n : Int} {m : Nat} (hle : -m ≤ 2 * n) (hlt : 2 * n < m) (h : 2 * n ≠ -m) :
    (-n).bmod m = -n := by
  apply Int.bmod_eq_of_le_mul_two <;> omega

theorem Counters.value_bounds (c : Counters) (w : Wheel) :
    -(w.period : Int) ≤ 2 * c.value w ∧ 2 * c.value w < w.period := by
  cases w
  · have hle := c.htim2.toInt32.le_toInt
    have hlt := c.htim2.toInt32.toInt_lt
    simp only [value, Wheel.period]
    omega
  · have hle := c.htim4.toInt16.le_toInt
    have hlt := c.htim4.toInt16.toInt_lt
    simp only [value, Wheel.period]
    omega
  · have hle := c.htim5.toInt32.le_toInt
    have hlt := c.htim5.toInt32.toInt_lt
    simp only [value, Wheel.period]
    omega
  · have hle := c.htim3.toInt16.le_toInt
    have hlt := c.htim3.toInt16.toInt_lt
    simp only [value, Wheel.period]
    omega

theorem Counters.value_mirror (c : Counters) (w : Wheel) :
    c.mirror.value w = (-c.value w).bmod w.period := by
  cases w <;> simp [mirror, value, Wheel.period]

theorem Readings.value_mirror (r : Readings) (w : Wheel) :
    r.counters.mirror.value w = -r.counters.value w := by
  obtain ⟨hle, hlt⟩ := r.counters.value_bounds w
  rw [Counters.value_mirror]
  exact bmod_neg hle hlt (r.opposite w)

/-- The readings of wheels that turn the other way. -/
def Readings.mirror (r : Readings) : Readings where
  counters := r.counters.mirror
  opposite w := by
    have hlt := (r.counters.value_bounds w).2
    rw [r.value_mirror]
    omega

section
variable {K : Type} [Field K] [LinearOrder K] [IsStrictOrderedRing K] [FloorRing K]

/-! ### The parts of a tick that have no direction -/

theorem wheel_counts_mirror (V : Vec K) :
    wheel_counts V.mirror = (wheel_counts V).map (-·) := by
  simp only [wheel_counts, Vec.mirror, Wheels.map, Wheels.mk.injEq]
  refine ⟨by ring, by ring, by ring, by ring⟩

theorem trunc_wheel_counts_mirror (V : Vec K) :
    (wheel_counts V.mirror).map trunc = ((wheel_counts V).map trunc).map (-·) := by
  rw [wheel_counts_mirror]
  simp only [Wheels.map, trunc_neg]

theorem Kinematic_Analysis_mirror (V : Vec K) (s : Car K) :
    Kinematic_Analysis V.mirror s.mirror = (Kinematic_Analysis V s).mirror := by
  change { s.mirror with Target := (wheel_counts V.mirror).map trunc } = _
  rw [trunc_wheel_counts_mirror]
  rfl

theorem Kinematic_Analysis2_mirror (V : Vec K) (s : Car K) :
    Kinematic_Analysis2 V.mirror s.mirror = (Kinematic_Analysis2 V s).mirror := by
  change { s.mirror with Rate := (wheel_counts V.mirror).map trunc } = _
  rw [trunc_wheel_counts_mirror]
  rfl

theorem Kinematic_Analysis_Relative_mirror (V : Vec K) (s : Car K) :
    Kinematic_Analysis_Relative V.mirror s.mirror =
      (Kinematic_Analysis_Relative V s).mirror := by
  have hA (p x y z : K) : -p - -x + -y - -z = -(p - x + y - z) := by ring
  have hB (p x y z : K) : -p + -x + -y - -z = -(p + x + y - z) := by ring
  have hC (p x y z : K) : -p - -x + -y + -z = -(p - x + y + z) := by ring
  have hD (p x y z : K) : -p + -x + -y + -z = -(p + x + y + z) := by ring
  simp only [Kinematic_Analysis_Relative, Car.mirror, Wheels.map, Vec.mirror, Int.cast_neg,
    neg_mul, hA, hB, hC, hD, trunc_neg]

theorem Control_targets_mirror (s : Car K) :
    Control_targets s.mirror = (Control_targets s).mirror := by
  have hpos : Control_positioning s.mirror = Control_positioning s := rfl
  rw [Control_targets, Control_targets, hpos]
  cases Control_positioning s with
  | absolute => exact Kinematic_Analysis_mirror s.Move s
  | relative =>
    by_cases hp : s.pending_flag = 1
    · have hp' : s.mirror.pending_flag = 1 := hp
      simp only [if_pos hp, if_pos hp']
      exact congrArg (fun s : Car K => { s with pending_flag := 0 })
        (Kinematic_Analysis_Relative_mirror s.Move s)
    · have hp' : ¬s.mirror.pending_flag = 1 := hp
      simp only [if_neg hp, if_neg hp']

theorem Control_encoders_mirror (r : Readings) (s : Car K) (h : s.counters = r.counters) :
    Control_encoders s.mirror = (Control_encoders s).mirror := by
  have hA := r.value_mirror .A
  have hB := r.value_mirror .B
  have hC := r.value_mirror .C
  have hD := r.value_mirror .D
  have heq (s : Car K) : Control_encoders s =
      { s with
        Encoder := ⟨-s.counters.value .A, -s.counters.value .B, s.counters.value .C,
          s.counters.value .D⟩
        Position := ⟨s.Position.A + -s.counters.value .A, s.Position.B + -s.counters.value .B,
          s.Position.C + s.counters.value .C, s.Position.D + s.counters.value .D⟩
        counters := {} } := rfl
  have hc : s.mirror.counters = r.counters.mirror := congrArg Counters.mirror h
  rw [heq, heq s, hc, h, hA, hB, hC, hD]
  simp only [Car.mirror, Wheels.map, Int.neg_add]
  rfl

theorem Incremental_PI_mirror (c : IncrementalPI) (Encoder Target : Int) :
    Incremental_PI K c.mirror (-Encoder) (-Target) =
      (-(Incremental_PI K c Encoder Target).1, (Incremental_PI K c Encoder Target).2.mirror) := by
  have hbias : -Encoder - -Target = -(Encoder - Target) := by omega
  have hlast (b : Int) : -b - -c.Last_bias = -(b - c.Last_bias) := by omega
  have hsum (b : Int) : ((-c.Pwm : Int) : K) + (Velocity_KP * ((-(b - c.Last_bias) : Int) : K) +
      Velocity_KI * ((-b : Int) : K)) =
      -((c.Pwm : K) + (Velocity_KP * ((b - c.Last_bias : Int) : K) + Velocity_KI * (b : K))) := by
    rw [Int.cast_neg, Int.cast_neg, Int.cast_neg]
    ring
  have hclamp := clamp_neg (b := 11999) (v := 11999) (x := trunc ((c.Pwm : K) +
    (Velocity_KP * ((Encoder - Target - c.Last_bias : Int) : K) +
      Velocity_KI * ((Encoder - Target : Int) : K)))) (by decide) (by decide)
  simp only [Incremental_PI, IncrementalPI.mirror, hbias, hlast, hsum, trunc_neg, hclamp]

theorem Position_PID_mirror (c : PositionPID K) (flag_clear_i Encoder Target : Int) :
    Position_PID c.mirror flag_clear_i (-Encoder) (-Target) =
      (-(Position_PID c flag_clear_i Encoder Target).1,
        (Position_PID c flag_clear_i Encoder Target).2.1.mirror, 0) := by
  have hbias : ((-Encoder - -Target : Int) : K) = -((Encoder - Target : Int) : K) := by
    rw [← Int.cast_neg]
    congr 1
    omega
  have hzero : (if flag_clear_i ≠ 0 then 0 else -c.Integral_bias) =
      -(if flag_clear_i ≠ 0 then 0 else c.Integral_bias) := by
    split
    · exact neg_zero.symm
    · rfl
  have hclamp := clamp_neg (b := (100000 : K)) (v := 10000)
    (x := (if flag_clear_i ≠ 0 then 0 else c.Integral_bias) + ((Encoder - Target : Int) : K))
    (by norm_num) (by norm_num)
  have hsum (i b l : K) : Position_KP * -b + Position_KI / 100 * -i + Position_KD * (-b - -l) =
      -(Position_KP * b + Position_KI / 100 * i + Position_KD * (b - l)) := by ring
  simp only [Position_PID, PositionPID.mirror, hbias, hzero, ← neg_add, hclamp, hsum, trunc_neg]

def speed_controllers (Target : Wheels Int) (s : Car K) : Wheels (Int × IncrementalPI) where
  A := Incremental_PI K s.Incremental.A s.Encoder.A Target.A
  B := Incremental_PI K s.Incremental.B s.Encoder.B Target.B
  C := Incremental_PI K s.Incremental.C s.Encoder.C Target.C
  D := Incremental_PI K s.Incremental.D s.Encoder.D Target.D

def with_speeds (Target : Wheels Int) (s : Car K) : Car K :=
  { s with
    Incremental := (speed_controllers Target s).map (·.2)
    Motor := (speed_controllers Target s).map (·.1) }

theorem Control_speed_eq (s : Car K) : Control_speed s = with_speeds s.Target s := rfl

theorem Control_inner_eq (s : Car K) : Control_inner s = with_speeds (s.Motor.map (-·)) s := rfl

theorem with_speeds_mirror (Target : Wheels Int) (s : Car K) :
    with_speeds (Target.map (-·)) s.mirror = (with_speeds Target s).mirror := by
  have h : speed_controllers (Target.map (-·)) s.mirror =
      (speed_controllers Target s).map fun r => (-r.1, r.2.mirror) := by
    simp only [speed_controllers, Wheels.map, Car.mirror, Incremental_PI_mirror]
  rw [with_speeds, h]
  rfl

/-- The four position controllers at once; the first one has reset `flag_clear_i`. -/
def position_controllers (s : Car K) : Wheels (Int × PositionPID K × Int) where
  A := Position_PID s.PositionPID.A s.flag_clear_i s.Position.A s.Target.A
  B := Position_PID s.PositionPID.B 0 s.Position.B s.Target.B
  C := Position_PID s.PositionPID.C 0 s.Position.C s.Target.C
  D := Position_PID s.PositionPID.D 0 s.Position.D s.Target.D

/-- What the position controllers ask for, before it is shifted. -/
def demand (s : Car K) : Wheels Int := (position_controllers s).map (·.1)

theorem Control_outer_eq (s : Car K) :
    Control_outer s =
      { s with
        PositionPID := (position_controllers s).map (·.2.1)
        flag_clear_i := 0
        Motor := (demand s).map fun out : Int => out >>> (8 : Nat) } := rfl

theorem position_controllers_mirror (s : Car K) :
    position_controllers s.mirror =
      (position_controllers s).map fun r => (-r.1, r.2.1.mirror, 0) := by
  simp only [position_controllers, Wheels.map, Car.mirror, Position_PID_mirror]

theorem demand_mirror (s : Car K) : demand s.mirror = (demand s).map (-·) := by
  rw [demand, position_controllers_mirror]
  rfl

/-- The shift is what has a direction: it rounds down. -/
theorem Control_outer_mirror (s : Car K) :
    Control_outer s.mirror =
      { (Control_outer s).mirror with
        Motor := (demand s).map fun out : Int => (-out) >>> (8 : Nat) } := by
  rw [Control_outer_eq, demand_mirror, position_controllers_mirror]
  rfl

section
variable [Libm K]

/-- The first part of `Count_Velocity`: the direction of travel. -/
def travel (s : Car K) : Car K :=
  let Bias := Count_Velocity_Bias s
  if Bias.X ≠ 0 ∨ Bias.Y ≠ 0 ∨ Bias.Z ≠ 0 then
    Kinematic_Analysis2 Bias
      { s with
        Divider := Libm.sqrt (Bias.X * Bias.X + Bias.Y * Bias.Y + Bias.Z * Bias.Z) }
  else s

def speed_limits (s : Car K) : Wheels Int :=
  (travel s).Rate.map fun rate => trunc ((travel s).RC_Velocity * myabs rate / (travel s).Divider)

def limited (amplitude motor : Wheels Int) : Wheels Int where
  A := limit amplitude.A motor.A
  B := limit amplitude.B motor.B
  C := limit amplitude.C motor.C
  D := limit amplitude.D motor.D

theorem Count_Velocity_eq (s : Car K) :
    Count_Velocity s =
      { travel s with
        Motor := limited (speed_limits s) s.Motor
        Last_Target := if s.relative = 0 then s.Move else s.Last_Target } := by
  have htravel : (travel s).Motor = s.Motor ∧ (travel s).relative = s.relative ∧
      (travel s).Move = s.Move ∧ (travel s).Last_Target = s.Last_Target := by
    unfold travel
    dsimp only
    split <;> exact ⟨rfl, rfl, rfl, rfl⟩
  obtain ⟨hmotor, hrel, hmove, hlast⟩ := htravel
  have heq : Count_Velocity s =
      let t := { travel s with Motor := limited (speed_limits s) (travel s).Motor }
      if t.relative = 0 then { t with Last_Target := t.Move } else t := rfl
  rw [heq]
  dsimp only
  rw [hrel, hmotor, hmove]
  split
  · rfl
  · rw [← hlast]

theorem Count_Velocity_Bias_mirror (s : Car K) :
    Count_Velocity_Bias s.mirror = (Count_Velocity_Bias s).mirror := by
  have hpos : Count_Velocity_positioning s.mirror = Count_Velocity_positioning s := rfl
  rw [Count_Velocity_Bias, Count_Velocity_Bias, hpos]
  cases Count_Velocity_positioning s with
  | absolute => simp only [Car.mirror, Vec.mirror, neg_sub_neg, neg_sub]
  | relative => rfl

theorem travel_mirror (s : Car K) : travel s.mirror = (travel s).mirror := by
  have hzero (x : K) : -x ≠ 0 ↔ x ≠ 0 := neg_ne_zero
  unfold travel
  rw [Count_Velocity_Bias_mirror]
  dsimp only
  generalize Count_Velocity_Bias s = Bias
  have hsqrt : Bias.mirror.X * Bias.mirror.X + Bias.mirror.Y * Bias.mirror.Y +
      Bias.mirror.Z * Bias.mirror.Z = Bias.X * Bias.X + Bias.Y * Bias.Y + Bias.Z * Bias.Z := by
    simp only [Vec.mirror, neg_mul_neg]
  have hmoves : (Bias.mirror.X ≠ 0 ∨ Bias.mirror.Y ≠ 0 ∨ Bias.mirror.Z ≠ 0) ↔
      (Bias.X ≠ 0 ∨ Bias.Y ≠ 0 ∨ Bias.Z ≠ 0) := by
    simp only [Vec.mirror, hzero]
  rw [hsqrt]
  by_cases h : Bias.X ≠ 0 ∨ Bias.Y ≠ 0 ∨ Bias.Z ≠ 0
  · rw [if_pos h, if_pos (hmoves.2 h)]
    exact Kinematic_Analysis2_mirror Bias
      { s with Divider := Libm.sqrt (Bias.X * Bias.X + Bias.Y * Bias.Y + Bias.Z * Bias.Z) }
  · rw [if_neg h, if_neg fun hn => h (hmoves.1 hn)]

theorem myabs_neg (a : Int) : myabs (-a) = myabs a := by
  unfold myabs
  split <;> split <;> omega

theorem speed_limits_mirror (s : Car K) : speed_limits s.mirror = speed_limits s := by
  rw [speed_limits, travel_mirror]
  simp only [speed_limits, Car.mirror, Wheels.map, myabs_neg]

theorem travel_with_Motor (s : Car K) (motor : Wheels Int) :
    travel { s with Motor := motor } = { travel s with Motor := motor } := by
  have hbias : Count_Velocity_Bias { s with Motor := motor } = Count_Velocity_Bias s := rfl
  unfold travel
  rw [hbias]
  dsimp only
  split <;> rfl

theorem speed_limits_outer (s : Car K) : speed_limits (Control_outer s) = speed_limits s := by
  have hbias : Count_Velocity_Bias (Control_outer s) = Count_Velocity_Bias s := rfl
  unfold speed_limits travel
  rw [hbias]
  dsimp only
  split <;> rfl

theorem Count_Velocity_with_Motor (s : Car K) (motor : Wheels Int) :
    Count_Velocity { s with Motor := motor } =
      { Count_Velocity s with Motor := limited (speed_limits s) motor } := by
  rw [Count_Velocity_eq, Count_Velocity_eq, speed_limits, travel_with_Motor]
  rfl

theorem Count_Velocity_mirror_Motor (s : Car K) (motor : Wheels Int) :
    Count_Velocity { s.mirror with Motor := motor } =
      { (Count_Velocity s).mirror with Motor := limited (speed_limits s) motor } := by
  have hlast : (if s.mirror.relative = 0 then s.mirror.Move else s.mirror.Last_Target) =
      (if s.relative = 0 then s.Move else s.Last_Target).mirror := by
    change (if s.relative = 0 then s.Move.mirror else s.Last_Target.mirror) = _
    split <;> rfl
  rw [Count_Velocity_with_Motor, Count_Velocity_eq, travel_mirror, speed_limits_mirror, hlast,
    Count_Velocity_eq]
  rfl

theorem Count_Velocity_outer_mirror (s : Car K) :
    Count_Velocity (Control_outer s.mirror) =
      { (Count_Velocity (Control_outer s)).mirror with
        Motor := limited (speed_limits s)
          ((demand s).map fun out : Int => (-out) >>> (8 : Nat)) } := by
  rw [Control_outer_mirror, Count_Velocity_mirror_Motor, speed_limits_outer]

theorem Count_Velocity_outer_Motor (s : Car K) :
    (Count_Velocity (Control_outer s)).Motor =
      limited (speed_limits s) ((demand s).map fun out : Int => out >>> (8 : Nat)) := by
  rw [Count_Velocity_eq, speed_limits_outer]
  rfl

/-- A limit that acts alike in both directions on a value that is shifted. -/
def LimitsEvenly (amplitude out : Int) : Prop :=
  0 ≤ amplitude ∧ (256 ∣ out ∨ 256 * amplitude ≤ out.natAbs)

instance (amplitude out : Int) : Decidable (LimitsEvenly amplitude out) :=
  inferInstanceAs (Decidable (_ ∧ _))

theorem limit_shift_neg (amplitude out : Int) :
    limit amplitude ((-out) >>> (8 : Nat)) = -limit amplitude (out >>> (8 : Nat)) ↔
      LimitsEvenly amplitude out := by
  have hshift (n : Int) : n >>> (8 : Nat) = n / 256 := Int.shiftRight_eq_div_pow n 8
  rw [hshift, hshift, LimitsEvenly]
  simp only [limit]
  split_ifs <;> omega

/-- A tick that limits the speeds evenly, in the state that its second part leaves. -/
def LimitsAllEvenly (s : Car K) : Prop :=
  s.Run_Flag = 0 ∨ ∀ w, LimitsEvenly ((speed_limits s).get w) ((demand s).get w)

theorem limited_shift_neg (amplitude out : Wheels Int) :
    limited amplitude (out.map fun out : Int => (-out) >>> (8 : Nat)) =
        (limited amplitude (out.map fun out : Int => out >>> (8 : Nat))).map (-·) ↔
      ∀ w, LimitsEvenly (amplitude.get w) (out.get w) := by
  simp only [limited, Wheels.map, Wheels.mk.injEq, limit_shift_neg]
  constructor
  · rintro ⟨hA, hB, hC, hD⟩ w
    cases w <;> assumption
  · exact fun h => ⟨h .A, h .B, h .C, h .D⟩

theorem motors_of_Incremental (s : Car K) (motor : Wheels Int)
    (h : (Control_inner { s.mirror with Motor := motor }).Incremental =
      (Control_inner s).Incremental.map IncrementalPI.mirror) : motor = s.Motor.map (-·) := by
  have hA : -s.Encoder.A - -motor.A = -(s.Encoder.A - -s.Motor.A) :=
    congrArg (fun c => c.A.Bias) h
  have hB : -s.Encoder.B - -motor.B = -(s.Encoder.B - -s.Motor.B) :=
    congrArg (fun c => c.B.Bias) h
  have hC : -s.Encoder.C - -motor.C = -(s.Encoder.C - -s.Motor.C) :=
    congrArg (fun c => c.C.Bias) h
  have hD : -s.Encoder.D - -motor.D = -(s.Encoder.D - -s.Motor.D) :=
    congrArg (fun c => c.D.Bias) h
  have heta : motor = ⟨motor.A, motor.B, motor.C, motor.D⟩ := rfl
  rw [heta, Wheels.map, Wheels.mk.injEq]
  omega

theorem Control_motors_mirror (s : Car K) (h : LimitsAllEvenly s) :
    Control_motors s.mirror = (Control_motors s).mirror := by
  have hflag : s.mirror.Run_Flag = s.Run_Flag := rfl
  rw [Control_motors, Control_motors, hflag]
  by_cases hz : s.Run_Flag = 0
  · rw [if_pos hz, if_pos hz, Control_speed_eq, Control_speed_eq]
    exact with_speeds_mirror s.Target s
  · have hmotor := (limited_shift_neg (speed_limits s) (demand s)).2 (h.resolve_left hz)
    rw [if_neg hz, if_neg hz, Control_position, Control_position, Count_Velocity_outer_mirror,
      hmotor, ← Count_Velocity_outer_Motor, Control_inner_eq, Control_inner_eq]
    exact with_speeds_mirror _ (Count_Velocity (Control_outer s))

theorem limitsAllEvenly_of_Incremental (s : Car K)
    (h : (Control_motors s.mirror).Incremental =
      (Control_motors s).Incremental.map IncrementalPI.mirror) : LimitsAllEvenly s := by
  have hflag : s.mirror.Run_Flag = s.Run_Flag := rfl
  by_cases hz : s.Run_Flag = 0
  · exact .inl hz
  · rw [Control_motors, Control_motors, hflag, if_neg hz, if_neg hz, Control_position,
      Control_position, Count_Velocity_outer_mirror] at h
    have hmotor := motors_of_Incremental _ _ h
    rw [Count_Velocity_outer_Motor] at hmotor
    exact .inr ((limited_shift_neg (speed_limits s) (demand s)).1 hmotor)

/-! ### The outputs -/

theorem limit_neg (h : 0 ≤ amplitude) (motor : Int) :
    limit amplitude (-motor) = -limit amplitude motor := by
  simp only [limit]
  split_ifs <;> omega

theorem Xianfu_Pwm_mirror (s : Car K) :
    Xianfu_Pwm 11999 s.mirror = (Xianfu_Pwm 11999 s).mirror := by
  have h (motor : Int) : limit 11999 (-motor) = -limit 11999 motor := limit_neg (by decide) motor
  simp only [Xianfu_Pwm, Car.mirror, Wheels.map, h]

theorem foldl_forward (regs : Compare → Int) (c c' : Compare) (motor : Int) :
    (if motor > 0 then [(c, motor), (c', 0)] else [(c, 0), (c', -motor)]).foldl
        (fun regs w => Function.update regs w.1 w.2) regs =
      Function.update (Function.update regs c (max motor 0)) c' (max (-motor) 0) := by
  split
  · rw [max_eq_left (by omega), max_eq_right (by omega)]
    rfl
  · rw [max_eq_right (by omega), max_eq_left (by omega)]
    rfl

theorem foldl_backward (regs : Compare → Int) (c c' : Compare) (motor : Int) :
    (if motor > 0 then [(c, 0), (c', motor)] else [(c, -motor), (c', 0)]).foldl
        (fun regs w => Function.update regs w.1 w.2) regs =
      Function.update (Function.update regs c (max (-motor) 0)) c' (max motor 0) := by
  split
  · rw [max_eq_right (by omega), max_eq_left (by omega)]
    rfl
  · rw [max_eq_left (by omega), max_eq_right (by omega)]
    rfl

/-- One side of a bridge takes the positive part of the motor value, the other one the negative. -/
theorem Set_Pwm_compare (a b c d : Int) (s : Car K) :
    (Set_Pwm a b c d s).compare = fun
      | .htim1 0 => max a 0
      | .htim1 1 => max (-a) 0
      | .htim1 2 => max (-d) 0
      | .htim1 3 => max d 0
      | .htim8 0 => max b 0
      | .htim8 1 => max (-b) 0
      | .htim8 2 => max (-c) 0
      | .htim8 3 => max c 0 := by
  simp only [Set_Pwm, Set_Pwm_writes, List.foldl_append, foldl_forward, foldl_backward]
  funext r
  match r with
  | .htim1 0 | .htim1 1 | .htim1 2 | .htim1 3 | .htim8 0 | .htim8 1 | .htim8 2 | .htim8 3 => rfl

theorem Set_Pwm_mirror (s : Car K) :
    Set_Pwm s.mirror.Motor.A s.mirror.Motor.B s.mirror.Motor.C s.mirror.Motor.D s.mirror =
      (Set_Pwm s.Motor.A s.Motor.B s.Motor.C s.Motor.D s).mirror := by
  have heq (a b c d : Int) (s : Car K) :
      Set_Pwm a b c d s = { s with compare := (Set_Pwm a b c d s).compare } := rfl
  rw [heq, heq s.Motor.A, Set_Pwm_compare, Set_Pwm_compare]
  simp only [Car.mirror, Wheels.map, Car.mk.injEq, true_and]
  funext r
  match r with
  | .htim1 0 | .htim1 1 | .htim1 2 | .htim1 3 | .htim8 0 | .htim8 1 | .htim8 2 | .htim8 3 =>
    simp only [Compare.partner, neg_neg]

/-- A tick of the mirrored car is the mirrored tick exactly when the limits act evenly in it. -/
theorem Control_mirror_iff (r : Readings) (s : Car K) (h : s.counters = r.counters) :
    Control s.mirror = (Control s).mirror ↔
      LimitsAllEvenly (Control_encoders (Control_targets s)) := by
  have hcounters : (Control_targets s).counters = r.counters :=
    (congrArg (fun o => o.2.1) (Control_targets_hardware s)).trans h
  have hentry : Control_encoders (Control_targets s.mirror) =
      (Control_encoders (Control_targets s)).mirror := by
    rw [Control_targets_mirror, Control_encoders_mirror r _ hcounters]
  have heq (s : Car K) : Control s =
      let s := Xianfu_Pwm 11999 (Control_motors (Control_encoders (Control_targets s)))
      Set_Pwm s.Motor.A s.Motor.B s.Motor.C s.Motor.D s := rfl
  constructor
  · intro hc
    rw [heq, hentry] at hc
    exact limitsAllEvenly_of_Incremental _ (congrArg (fun s : Car K => s.Incremental) hc)
  · intro hm
    rw [heq, hentry, Control_motors_mirror _ hm, Xianfu_Pwm_mirror]
    exact Set_Pwm_mirror _

/-! ### Two runs -/

def ControlJob.mirror : ControlJob K → ControlJob K
  | .Set_Move V => .Set_Move V.mirror
  | .Set_Last_Target V => .Set_Last_Target V.mirror
  | job => job

/-- A tick or a store, with what the encoders read when it runs. -/
def drive (s : Car K) (e : ControlJob K × Readings) : Car K :=
  ((controlClient K).handler e.1).exec { s with counters := e.2.counters }

def EvenTick (s : Car K) (e : ControlJob K × Readings) : Prop :=
  match e.1 with
  | .Control =>
    LimitsAllEvenly (Control_encoders (Control_targets { s with counters := e.2.counters }))
  | _ => True

theorem drive_mirror_iff (s : Car K) (e : ControlJob K × Readings) :
    drive s.mirror (e.1.mirror, e.2.mirror) = (drive s e).mirror ↔ EvenTick s e := by
  obtain ⟨job, r⟩ := e
  cases job with
  | Control =>
    have hrun (s : Car K) (r : Readings) :
        drive s (.Control, r) = Control { s with counters := r.counters } := by
      change (Option.map _ (Control_steps.run _)).getD _ = _
      rw [run_Control_steps]
      rfl
    change drive s.mirror (.Control, r.mirror) = _ ↔ _
    rw [hrun, hrun]
    exact Control_mirror_iff r { s with counters := r.counters } rfl
  | Set_Move V => exact iff_of_true rfl trivial
  | Set_Run_Flag flag => exact iff_of_true rfl trivial
  | Set_relative flag => exact iff_of_true rfl trivial
  | Set_pending_flag flag => exact iff_of_true rfl trivial
  | Set_RC_Velocity vol => exact iff_of_true rfl trivial
  | Set_Last_Target V => exact iff_of_true rfl trivial

theorem initial_mirror : (Car.initial : Car K).mirror = Car.initial := by
  have hcounters : ({} : Counters).mirror = {} := rfl
  simp only [Car.mirror, Car.initial, Wheels.map, Vec.mirror, IncrementalPI.mirror,
    PositionPID.mirror, hcounters, neg_zero]

/-- A run from power-up whose ticks limit the speeds evenly has a mirror image, with the opposite
motor values. No other run is mirrored as a whole. -/
theorem forward_backward (es : List (ControlJob K × Readings)) :
    let mirrored := es.map fun e => (e.1.mirror, e.2.mirror)
    (Transition.StepsMeet drive EvenTick Car.initial es →
      ∀ n, (Transition.run drive Car.initial (mirrored.take n)).Motor =
        (Transition.run drive Car.initial (es.take n)).Motor.map (-·)) ∧
    ((∀ n, Transition.run drive Car.initial (mirrored.take n) =
        (Transition.run drive Car.initial (es.take n)).mirror) ↔
      Transition.StepsMeet drive EvenTick Car.initial es) := by
  have hiff := Transition.run_map_iff_stepsMeet drive_mirror_iff (Car.initial : Car K) es
  rw [initial_mirror] at hiff
  exact ⟨fun hm n => congrArg Car.Motor (hiff.2 hm n), hiff⟩

end

end

def standing : Readings where
  counters := {}
  opposite w := by cases w <;> decide

def turning : Readings where
  counters := ⟨7, 3, 65530, 9⟩
  opposite w := by cases w <;> decide

/-- A tick in speed mode, and two of a move that is long enough to be limited on every wheel. -/
def longMove : List (ControlJob ℚ × Readings) :=
  [(.Set_Move ⟨40, 25, 0⟩, standing), (.Control, turning), (.Set_Run_Flag 1, standing),
    (.Set_Move ⟨30000, 0, 0⟩, standing), (.Set_pending_flag 1, standing), (.Control, standing),
    (.Control, turning)]

theorem longMove_mirrored :
    (Transition.run drive Car.initial
        ((longMove.map fun e => (e.1.mirror, e.2.mirror)).take 7)).Motor =
      (Transition.run drive Car.initial (longMove.take 7)).Motor.map (-·) := by
  have hlimits (s : Car ℚ) (h : ∀ w ∈ [Wheel.A, .B, .C, .D],
      LimitsEvenly ((speed_limits s).get w) ((demand s).get w)) : LimitsAllEvenly s :=
    .inr fun w => h w (by cases w <;> decide)
  refine (forward_backward longMove).1 ?_ 7
  refine ⟨trivial, .inl rfl, trivial, trivial, trivial, hlimits _ ?_, hlimits _ ?_, trivial⟩
  · decide +kernel
  · decide +kernel

/-- The first tick of a short move rounds the speeds of two wheels down, away from zero. -/
theorem backward_faster :
    ¬∀ (es : List (ControlJob ℚ × Readings)) (n : Nat),
      (Transition.run drive Car.initial
          ((es.map fun e => (e.1.mirror, e.2.mirror)).take n)).Motor =
        (Transition.run drive Car.initial (es.take n)).Motor.map (-·) := by
  intro h
  have hmotor := h [(.Set_Run_Flag 1, standing), (.Set_Move ⟨100, 0, 0⟩, standing),
    (.Set_pending_flag 1, standing), (.Control, standing)] 4
  revert hmotor
  decide +kernel

end RobotCar

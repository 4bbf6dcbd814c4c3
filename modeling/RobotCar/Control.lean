import Mathlib.Data.Rat.Floor
import RobotCar.Lib.CArith
import RobotCar.Lib.Client

namespace RobotCar
open Concurrent CArith
set_option autoImplicit true

/-- What the controller uses of the C mathematics library. -/
class Libm (K : Type) where
  sqrt : K → K

/-- Square roots to six decimal places. -/
instance : Libm ℚ where
  sqrt x := (Nat.sqrt ⌊x * 1000000000000⌋.toNat : ℚ) / 1000000

structure Vec (K : Type) where
  X : K
  Y : K
  Z : K
  deriving DecidableEq, Repr

/-- One value for each wheel. -/
structure Wheels (α : Type) where
  A : α
  B : α
  C : α
  D : α
  deriving DecidableEq, Repr

/-- The counter registers of the encoder timers: TIM2 and TIM5 have 32 bits, TIM3 and TIM4 16. -/
structure Counters where
  htim2 : UInt32 := 0
  htim3 : UInt16 := 0
  htim4 : UInt16 := 0
  htim5 : UInt32 := 0
  deriving DecidableEq, Repr

/-- The compare registers of the four H-bridges. -/
inductive Compare where
  | htim1 (TIM_CHANNEL : Fin 4)
  | htim8 (TIM_CHANNEL : Fin 4)
  deriving DecidableEq, Repr

/-- The static variables of an `Incremental_PI` function. -/
structure IncrementalPI where
  Bias : Int := 0
  Pwm : Int := 0
  Last_bias : Int := 0
  deriving DecidableEq, Repr

/-- The static variables of a `Position_PID` function. -/
structure PositionPID (K : Type) where
  Bias : K
  Pwm : K
  Integral_bias : K
  Last_Bias : K
  deriving DecidableEq, Repr

/-- The variables of `Control.c` and the timer registers it uses. -/
structure Car (K : Type) where
  /-- 0 is speed mode, 1 is position mode -/
  Run_Flag : UInt8
  Encoder : Wheels Int
  Position : Wheels Int
  Rate : Wheels Int
  Motor : Wheels Int
  Target : Wheels Int
  RC_Velocity : K
  Move : Vec K
  pending_flag : UInt8
  flag_clear_i : Int
  /-- positioning mode, 0 absolute and 1 relative -/
  relative : UInt8
  Incremental : Wheels IncrementalPI
  PositionPID : Wheels (PositionPID K)
  Last_Target : Vec K
  Divider : K
  counters : Counters
  compare : Compare → Int

section
variable {K : Type} [Field K] [LinearOrder K] [FloorRing K]

def Car.initial : Car K where
  Run_Flag := 0
  Encoder := ⟨0, 0, 0, 0⟩
  Position := ⟨0, 0, 0, 0⟩
  Rate := ⟨0, 0, 0, 0⟩
  Motor := ⟨0, 0, 0, 0⟩
  Target := ⟨0, 0, 0, 0⟩
  RC_Velocity := 160
  Move := ⟨0, 0, 0⟩
  pending_flag := 0
  flag_clear_i := 0
  relative := 1
  Incremental := ⟨{}, {}, {}, {}⟩
  PositionPID := ⟨⟨0, 0, 0, 0⟩, ⟨0, 0, 0, 0⟩, ⟨0, 0, 0, 0⟩, ⟨0, 0, 0, 0⟩⟩
  Last_Target := ⟨0, 0, 0⟩
  Divider := 0
  counters := {}
  compare := fun _ => 0

def Position_KP : K := 25
def Position_KI : K := 4
def Position_KD : K := 15
def Velocity_KP : K := 50
def Velocity_KI : K := 3

def a_PARAMETER : K := 7384854 / 10000000
def b_PARAMETER : K := 6742698 / 10000000

/-! ### Kinematics -/

def Kinematic_Analysis (V : Vec K) (s : Car K) : Car K :=
  { s with
    Target :=
      { A := trunc (-V.X + V.Y - V.Z * (a_PARAMETER + b_PARAMETER))
        B := trunc (V.X + V.Y - V.Z * (a_PARAMETER + b_PARAMETER))
        C := trunc (-V.X + V.Y + V.Z * (a_PARAMETER + b_PARAMETER))
        D := trunc (V.X + V.Y + V.Z * (a_PARAMETER + b_PARAMETER)) } }

def Kinematic_Analysis_Relative (V : Vec K) (s : Car K) : Car K :=
  { s with
    Target :=
      { A := trunc (s.Position.A - V.X + V.Y - V.Z * (a_PARAMETER + b_PARAMETER))
        B := trunc (s.Position.B + V.X + V.Y - V.Z * (a_PARAMETER + b_PARAMETER))
        C := trunc (s.Position.C - V.X + V.Y + V.Z * (a_PARAMETER + b_PARAMETER))
        D := trunc (s.Position.D + V.X + V.Y + V.Z * (a_PARAMETER + b_PARAMETER)) } }

def Kinematic_Analysis2 (V : Vec K) (s : Car K) : Car K :=
  { s with
    Rate :=
      { A := trunc (-V.X + V.Y - V.Z * (a_PARAMETER + b_PARAMETER))
        B := trunc (V.X + V.Y - V.Z * (a_PARAMETER + b_PARAMETER))
        C := trunc (-V.X + V.Y + V.Z * (a_PARAMETER + b_PARAMETER))
        D := trunc (V.X + V.Y + V.Z * (a_PARAMETER + b_PARAMETER)) } }

/-! ### Registers -/

def Read_Encoder (TIMX : Nat) (s : Car K) : Int × Car K :=
  match TIMX with
  | 2 => (s.counters.htim2.toInt32.toInt, { s with counters := { s.counters with htim2 := 0 } })
  | 3 => (s.counters.htim3.toInt16.toInt, { s with counters := { s.counters with htim3 := 0 } })
  | 4 => (s.counters.htim4.toInt16.toInt, { s with counters := { s.counters with htim4 := 0 } })
  | 5 => (s.counters.htim5.toInt32.toInt, { s with counters := { s.counters with htim5 := 0 } })
  | _ => (0, s)

/-- The register writes of `Set_Pwm`, in program order. -/
def Set_Pwm_writes (motor_a motor_b motor_c motor_d : Int) : List (Compare × Int) :=
  (if motor_a > 0 then [(.htim1 0, motor_a), (.htim1 1, 0)]
    else [(.htim1 0, 0), (.htim1 1, -motor_a)]) ++
  (if motor_d > 0 then [(.htim1 2, 0), (.htim1 3, motor_d)]
    else [(.htim1 2, -motor_d), (.htim1 3, 0)]) ++
  (if motor_b > 0 then [(.htim8 0, motor_b), (.htim8 1, 0)]
    else [(.htim8 0, 0), (.htim8 1, -motor_b)]) ++
  (if motor_c > 0 then [(.htim8 2, 0), (.htim8 3, motor_c)]
    else [(.htim8 2, -motor_c), (.htim8 3, 0)])

def Set_Pwm (motor_a motor_b motor_c motor_d : Int) (s : Car K) : Car K :=
  { s with
    compare := (Set_Pwm_writes motor_a motor_b motor_c motor_d).foldl
      (fun regs w => Function.update regs w.1 w.2) s.compare }

/-! ### Limits -/

def limit (amplitude motor : Int) : Int :=
  let motor := if motor < -amplitude then -amplitude else motor
  if motor > amplitude then amplitude else motor

def Xianfu_Pwm (amplitude : Int) (s : Car K) : Car K :=
  { s with
    Motor :=
      { A := limit amplitude s.Motor.A
        B := limit amplitude s.Motor.B
        C := limit amplitude s.Motor.C
        D := limit amplitude s.Motor.D } }

def Xianfu_Velocity (amplitude_A amplitude_B amplitude_C amplitude_D : Int) (s : Car K) : Car K :=
  { s with
    Motor :=
      { A := limit amplitude_A s.Motor.A
        B := limit amplitude_B s.Motor.B
        C := limit amplitude_C s.Motor.C
        D := limit amplitude_D s.Motor.D } }

def myabs (a : Int) : Nat := if a < 0 then (-a).toNat else a.toNat

/-! ### Wheel controllers -/

/-- The body that the four incremental controllers share. -/
def Incremental_PI (K : Type) [Field K] [LinearOrder K] [FloorRing K] (c : IncrementalPI)
    (Encoder Target : Int) : Int × IncrementalPI :=
  let Bias := Encoder - Target
  let Pwm := trunc ((c.Pwm : K) +
    (Velocity_KP * ((Bias - c.Last_bias : Int) : K) + Velocity_KI * (Bias : K)))
  let Pwm := if Pwm > 11999 then 11999 else Pwm
  let Pwm := if Pwm < -11999 then -11999 else Pwm
  (Pwm, { Bias := Bias, Pwm := Pwm, Last_bias := Bias })

def Incremental_PI_A (Encoder Target : Int) (s : Car K) : Int × Car K :=
  let r := Incremental_PI K s.Incremental.A Encoder Target
  (r.1, { s with Incremental := { s.Incremental with A := r.2 } })

def Incremental_PI_B (Encoder Target : Int) (s : Car K) : Int × Car K :=
  let r := Incremental_PI K s.Incremental.B Encoder Target
  (r.1, { s with Incremental := { s.Incremental with B := r.2 } })

def Incremental_PI_C (Encoder Target : Int) (s : Car K) : Int × Car K :=
  let r := Incremental_PI K s.Incremental.C Encoder Target
  (r.1, { s with Incremental := { s.Incremental with C := r.2 } })

def Incremental_PI_D (Encoder Target : Int) (s : Car K) : Int × Car K :=
  let r := Incremental_PI K s.Incremental.D Encoder Target
  (r.1, { s with Incremental := { s.Incremental with D := r.2 } })

/-- The body that the four position controllers share. The first one that finds
`flag_clear_i` set resets it. -/
def Position_PID (c : PositionPID K) (flag_clear_i : Int) (Encoder Target : Int) :
    Int × PositionPID K × Int :=
  let Integral_bias := if flag_clear_i ≠ 0 then 0 else c.Integral_bias
  let Bias : K := ((Encoder - Target : Int) : K)
  let Integral_bias := Integral_bias + Bias
  let Integral_bias := if Integral_bias > 100000 then 10000 else Integral_bias
  let Integral_bias := if Integral_bias < -100000 then -10000 else Integral_bias
  let Pwm := Position_KP * Bias + Position_KI / 100 * Integral_bias +
    Position_KD * (Bias - c.Last_Bias)
  (trunc Pwm, ⟨Bias, Pwm, Integral_bias, Bias⟩, 0)

def Position_PID_A (Encoder Target : Int) (s : Car K) : Int × Car K :=
  let r := Position_PID s.PositionPID.A s.flag_clear_i Encoder Target
  (r.1, { s with PositionPID := { s.PositionPID with A := r.2.1 }, flag_clear_i := r.2.2 })

def Position_PID_B (Encoder Target : Int) (s : Car K) : Int × Car K :=
  let r := Position_PID s.PositionPID.B s.flag_clear_i Encoder Target
  (r.1, { s with PositionPID := { s.PositionPID with B := r.2.1 }, flag_clear_i := r.2.2 })

def Position_PID_C (Encoder Target : Int) (s : Car K) : Int × Car K :=
  let r := Position_PID s.PositionPID.C s.flag_clear_i Encoder Target
  (r.1, { s with PositionPID := { s.PositionPID with C := r.2.1 }, flag_clear_i := r.2.2 })

def Position_PID_D (Encoder Target : Int) (s : Car K) : Int × Car K :=
  let r := Position_PID s.PositionPID.D s.flag_clear_i Encoder Target
  (r.1, { s with PositionPID := { s.PositionPID with D := r.2.1 }, flag_clear_i := r.2.2 })

/-! ### The control loop -/

/-- The two ways in which parts of the controller read `Move` as a position. -/
inductive Positioning where
  | absolute
  | relative
  deriving DecidableEq, Repr

/-- The test at the head of `Control`: anything but relative position mode is absolute. -/
def Control_positioning (s : Car K) : Positioning :=
  if s.Run_Flag = 1 ∧ s.relative = 1 then .relative else .absolute

/-- The first part of `Control`: the wheel targets. -/
def Control_targets (s : Car K) : Car K :=
  match Control_positioning s with
  | .relative =>
    if s.pending_flag = 1 then
      { Kinematic_Analysis_Relative s.Move s with pending_flag := 0 }
    else s
  | .absolute => Kinematic_Analysis s.Move s

/-- The second part of `Control`: the encoders, integrated to positions. -/
def Control_encoders (s : Car K) : Car K :=
  let (n, s) := Read_Encoder 2 s
  let s := { s with Encoder := { s.Encoder with A := -n } }
  let s := { s with Position := { s.Position with A := s.Position.A + s.Encoder.A } }
  let (n, s) := Read_Encoder 4 s
  let s := { s with Encoder := { s.Encoder with B := -n } }
  let s := { s with Position := { s.Position with B := s.Position.B + s.Encoder.B } }
  let (n, s) := Read_Encoder 5 s
  let s := { s with Encoder := { s.Encoder with C := n } }
  let s := { s with Position := { s.Position with C := s.Position.C + s.Encoder.C } }
  let (n, s) := Read_Encoder 3 s
  let s := { s with Encoder := { s.Encoder with D := n } }
  { s with Position := { s.Position with D := s.Position.D + s.Encoder.D } }

/-- The test in `Count_Velocity`: anything but absolute mode is relative. -/
def Count_Velocity_positioning (s : Car K) : Positioning :=
  if s.relative = 0 then .absolute else .relative

/-- The displacement that `Count_Velocity` works with. -/
def Count_Velocity_Bias (s : Car K) : Vec K :=
  match Count_Velocity_positioning s with
  | .absolute =>
    ⟨s.Move.X - s.Last_Target.X, s.Move.Y - s.Last_Target.Y, s.Move.Z - s.Last_Target.Z⟩
  | .relative => s.Move

def Count_Velocity [Libm K] (s : Car K) : Car K :=
  let Bias := Count_Velocity_Bias s
  let s :=
    if Bias.X ≠ 0 ∨ Bias.Y ≠ 0 ∨ Bias.Z ≠ 0 then
      Kinematic_Analysis2 Bias
        { s with
          Divider := Libm.sqrt (Bias.X * Bias.X + Bias.Y * Bias.Y + Bias.Z * Bias.Z) }
    else s
  let s := Xianfu_Velocity
    (trunc (s.RC_Velocity * myabs s.Rate.A / s.Divider))
    (trunc (s.RC_Velocity * myabs s.Rate.B / s.Divider))
    (trunc (s.RC_Velocity * myabs s.Rate.C / s.Divider))
    (trunc (s.RC_Velocity * myabs s.Rate.D / s.Divider)) s
  if s.relative = 0 then { s with Last_Target := s.Move } else s

/-- Speed mode: the targets are wheel speeds. -/
def Control_speed (s : Car K) : Car K :=
  let (a, s) := Incremental_PI_A s.Encoder.A s.Target.A s
  let (b, s) := Incremental_PI_B s.Encoder.B s.Target.B s
  let (c, s) := Incremental_PI_C s.Encoder.C s.Target.C s
  let (d, s) := Incremental_PI_D s.Encoder.D s.Target.D s
  { s with Motor := ⟨a, b, c, d⟩ }

/-- Position mode, outer loop: the position controllers ask for wheel speeds. -/
def Control_outer (s : Car K) : Car K :=
  let (a, s) := Position_PID_A s.Position.A s.Target.A s
  let (b, s) := Position_PID_B s.Position.B s.Target.B s
  let (c, s) := Position_PID_C s.Position.C s.Target.C s
  let (d, s) := Position_PID_D s.Position.D s.Target.D s
  { s with Motor := ⟨a >>> (8 : Nat), b >>> (8 : Nat), c >>> (8 : Nat), d >>> (8 : Nat)⟩ }

/-- Position mode, inner loop: the limited speeds are the targets of the speed controllers. -/
def Control_inner (s : Car K) : Car K :=
  let (a, s) := Incremental_PI_A s.Encoder.A (-s.Motor.A) s
  let (b, s) := Incremental_PI_B s.Encoder.B (-s.Motor.B) s
  let (c, s) := Incremental_PI_C s.Encoder.C (-s.Motor.C) s
  let (d, s) := Incremental_PI_D s.Encoder.D (-s.Motor.D) s
  { s with Motor := ⟨a, b, c, d⟩ }

def Control_position [Libm K] (s : Car K) : Car K :=
  Control_inner (Count_Velocity (Control_outer s))

/-- The third part of `Control`: the motor values. -/
def Control_motors [Libm K] (s : Car K) : Car K :=
  if s.Run_Flag = 0 then Control_speed s else Control_position s

/-- One tick of the 100 Hz loop, under `Control_Lock` as a whole. -/
def Control [Libm K] (s : Car K) : Car K :=
  let s := Control_targets s
  let s := Control_encoders s
  let s := Control_motors s
  let s := Xianfu_Pwm 11999 s
  Set_Pwm s.Motor.A s.Motor.B s.Motor.C s.Motor.D s

/-! ### What a tick does to the command -/

/-- The part of the state through which the callbacks command the controller. -/
def Car.command (s : Car K) : UInt8 × Vec K × UInt8 × UInt8 :=
  (s.Run_Flag, s.Move, s.relative, s.pending_flag)

/-- `Control` executes `Kinematic_Analysis_Relative` in exactly these states. -/
def TakesRelative (s : Car K) : Prop := s.Run_Flag = 1 ∧ s.relative = 1 ∧ s.pending_flag = 1

instance (s : Car K) : Decidable (TakesRelative s) := inferInstanceAs (Decidable (_ ∧ _))

theorem Control_targets_command (s : Car K) :
    (Control_targets s).command =
      (s.Run_Flag, s.Move, s.relative, if TakesRelative s then 0 else s.pending_flag) := by
  unfold Control_targets Control_positioning
  by_cases h : s.Run_Flag = 1 ∧ s.relative = 1
  · rw [if_pos h]
    by_cases hp : s.pending_flag = 1
    · have ht : TakesRelative s := ⟨h.1, h.2, hp⟩
      simp only [if_pos hp, if_pos ht]
      rfl
    · have ht : ¬TakesRelative s := fun ht => hp ht.2.2
      simp only [if_neg hp, if_neg ht]
      rfl
  · have ht : ¬TakesRelative s := fun ht => h ⟨ht.1, ht.2.1⟩
    rw [if_neg h, if_neg ht]
    rfl

theorem Count_Velocity_command [Libm K] (s : Car K) : (Count_Velocity s).command = s.command := by
  unfold Count_Velocity
  dsimp only
  split <;> split <;> rfl

theorem Control_position_command [Libm K] (s : Car K) :
    (Control_position s).command = s.command := by
  have hi (s : Car K) : (Control_inner s).command = s.command := rfl
  have ho : (Control_outer s).command = s.command := rfl
  rw [Control_position, hi, Count_Velocity_command, ho]

theorem Control_motors_command [Libm K] (s : Car K) : (Control_motors s).command = s.command := by
  unfold Control_motors
  split
  · rfl
  · exact Control_position_command s

/-- A tick consumes a pending relative move and changes nothing else of the command. -/
theorem Control_command [Libm K] (s : Car K) :
    (Control s).command =
      (s.Run_Flag, s.Move, s.relative, if TakesRelative s then 0 else s.pending_flag) := by
  have he (s : Car K) : (Control_encoders s).command = s.command := rfl
  have ho (s : Car K) : (Set_Pwm s.Motor.A s.Motor.B s.Motor.C s.Motor.D s).command =
    s.command := rfl
  have hx (s : Car K) : (Xianfu_Pwm 11999 s).command = s.command := rfl
  unfold Control
  rw [ho, hx, Control_motors_command, he, Control_targets_command]

@[simp] theorem Control_Run_Flag [Libm K] (s : Car K) : (Control s).Run_Flag = s.Run_Flag :=
  congrArg (·.1) (Control_command s)

@[simp] theorem Control_Move [Libm K] (s : Car K) : (Control s).Move = s.Move :=
  congrArg (·.2.1) (Control_command s)

@[simp] theorem Control_relative [Libm K] (s : Car K) : (Control s).relative = s.relative :=
  congrArg (·.2.2.1) (Control_command s)

theorem Control_pending_flag [Libm K] (s : Car K) :
    (Control s).pending_flag = if TakesRelative s then 0 else s.pending_flag :=
  congrArg (·.2.2.2) (Control_command s)

theorem Control_motors_Target [Libm K] (s : Car K) : (Control_motors s).Target = s.Target := by
  have hv (s : Car K) : (Count_Velocity s).Target = s.Target := by
    unfold Count_Velocity
    dsimp only
    split <;> split <;> rfl
  rw [Control_motors]
  split
  · rfl
  · exact hv (Control_outer s)

theorem Control_Target [Libm K] (s : Car K) : (Control s).Target = (Control_targets s).Target :=
  Control_motors_Target (Control_encoders (Control_targets s))

end

/-! ### Lock-protected access from other tasks -/

/-- The critical sections of `Control_Lock`, and the message that is published. -/
inductive ControlCall (K : Type) where
  | Set_Move
  | Set_Run_Flag
  | Get_Run_Flag
  | Set_relative
  | Get_relative
  | Set_pending_flag
  | Set_RC_Velocity
  | Get_Error
  | Set_Last_Target
  | Get_Position_NOW
  | rcl_publish (car_status : K)

section
variable {K : Type} [Field K] [LinearOrder K] [FloorRing K]

def Set_Move (V : Vec K) : Task (ControlCall K) (Car K) Unit :=
  Task.update .Set_Move fun s => { s with Move := V }

def Set_Run_Flag (flag : UInt8) : Task (ControlCall K) (Car K) Unit :=
  Task.update .Set_Run_Flag fun s => { s with Run_Flag := flag }

def Get_Run_Flag : Task (ControlCall K) (Car K) UInt8 := Task.read .Get_Run_Flag Car.Run_Flag

def Set_relative (flag : UInt8) : Task (ControlCall K) (Car K) Unit :=
  Task.update .Set_relative fun s => { s with relative := flag }

def Get_relative : Task (ControlCall K) (Car K) UInt8 := Task.read .Get_relative Car.relative

def Set_pending_flag (flag : UInt8) : Task (ControlCall K) (Car K) Unit :=
  Task.update .Set_pending_flag fun s => { s with pending_flag := flag }

def Set_RC_Velocity (vol : K) : Task (ControlCall K) (Car K) Unit :=
  Task.update .Set_RC_Velocity fun s => { s with RC_Velocity := vol }

/-- The sum is a `long int`, which has 32 bits on the target. -/
def Error_squared (s : Car K) : Int :=
  wrap32 ((s.Position.A - s.Target.A) * (s.Position.A - s.Target.A) +
    (s.Position.B - s.Target.B) * (s.Position.B - s.Target.B) +
    (s.Position.C - s.Target.C) * (s.Position.C - s.Target.C) +
    (s.Position.D - s.Target.D) * (s.Position.D - s.Target.D))

def Get_Error [Libm K] : Task (ControlCall K) (Car K) K :=
  Task.read .Get_Error fun s => Libm.sqrt ((Error_squared s : Int) : K)

def Set_Last_Target (V : Vec K) : Task (ControlCall K) (Car K) Unit :=
  Task.update .Set_Last_Target fun s => { s with Last_Target := V }

def Position_NOW (s : Car K) : Vec K where
  X := ((s.Position.B - s.Position.A : Int) : K) / 2
  Y := ((s.Position.B + s.Position.C : Int) : K) / 2
  Z := ((s.Position.C - s.Position.A + s.Position.D - s.Position.B : Int) : K) / 4 /
    (a_PARAMETER + b_PARAMETER)

def Get_Position_NOW : Task (ControlCall K) (Car K) (Vec K) :=
  Task.read .Get_Position_NOW Position_NOW

end

end RobotCar

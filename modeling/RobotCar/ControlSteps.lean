import RobotCar.Control

namespace RobotCar
open Concurrent
set_option autoImplicit true
set_option linter.unusedSectionVars false

/-! ### Wheels, encoder timers and bridges -/

inductive Wheel where
  | A
  | B
  | C
  | D
  deriving DecidableEq, Repr

namespace Wheel

/-- The argument with which `Control` calls `Read_Encoder`. -/
def TIMX : Wheel → Nat
  | .A => 2
  | .B => 4
  | .C => 5
  | .D => 3

def period : Wheel → Nat
  | .A | .C => 2 ^ 32
  | .B | .D => 2 ^ 16

/-- The sign with which `Control` takes the reading. -/
def sign : Wheel → Int
  | .A | .B => -1
  | .C | .D => 1

end Wheel

namespace Wheels

def get (v : Wheels α) : Wheel → α
  | .A => v.A
  | .B => v.B
  | .C => v.C
  | .D => v.D

def set (v : Wheels α) (x : α) : Wheel → Wheels α
  | .A => { v with A := x }
  | .B => { v with B := x }
  | .C => { v with C := x }
  | .D => { v with D := x }

@[simp] theorem get_set (v : Wheels α) (x : α) (w : Wheel) : (v.set x w).get w = x := by
  cases w <;> rfl

theorem get_set_of_ne (v : Wheels α) (x : α) (h : w' ≠ w) : (v.set x w).get w' = v.get w' := by
  cases w <;> cases w' <;> first | rfl | exact absurd rfl h

end Wheels

namespace Counters

def value (c : Counters) : Wheel → Int
  | .A => c.htim2.toInt32.toInt
  | .B => c.htim4.toInt16.toInt
  | .C => c.htim5.toInt32.toInt
  | .D => c.htim3.toInt16.toInt

def pulse (c : Counters) (up : Bool) : Wheel → Counters
  | .A => { c with htim2 := if up then c.htim2 + 1 else c.htim2 - 1 }
  | .B => { c with htim4 := if up then c.htim4 + 1 else c.htim4 - 1 }
  | .C => { c with htim5 := if up then c.htim5 + 1 else c.htim5 - 1 }
  | .D => { c with htim3 := if up then c.htim3 + 1 else c.htim3 - 1 }

end Counters

namespace Compare

/-- The other register of the same H-bridge. -/
def partner : Compare → Compare
  | .htim1 0 => .htim1 1
  | .htim1 1 => .htim1 0
  | .htim1 2 => .htim1 3
  | .htim1 3 => .htim1 2
  | .htim8 0 => .htim8 1
  | .htim8 1 => .htim8 0
  | .htim8 2 => .htim8 3
  | .htim8 3 => .htim8 2

theorem partner_partner : ∀ c : Compare, c.partner.partner = c
  | .htim1 0 | .htim1 1 | .htim1 2 | .htim1 3 | .htim8 0 | .htim8 1 | .htim8 2 | .htim8 3 => rfl

theorem partner_ne : ∀ c : Compare, c.partner ≠ c
  | .htim1 0 | .htim1 1 | .htim1 2 | .htim1 3 | .htim8 0 | .htim8 1 | .htim8 2 | .htim8 3 => by
    decide

end Compare

/-! ### A tick as a sequence of accesses -/

/-- The accesses of a tick of `Control` to the timers, its computations between them, and the
critical sections of the other tasks. -/
inductive ControlAccess (K : Type) where
  | targets
  | read_counter (w : Wheel)
  | reset_counter (w : Wheel)
  | integrate (w : Wheel)
  | motors
  | Set_Pwm
  | set_compare (channel : Compare) (value : Int)
  | call (c : ControlCall K)

section
variable {K : Type} [Field K] [LinearOrder K] [FloorRing K]

def Read_Encoder_steps (w : Wheel) : Task (ControlAccess K) (Car K) Int := do
  let n ← Task.read (.read_counter w) fun s => (Read_Encoder w.TIMX s).1
  Task.update (.reset_counter w) fun s => (Read_Encoder w.TIMX s).2
  pure n

/-- A reading is the speed of its wheel and is added to its position. -/
def integrate (w : Wheel) (n : Int) (s : Car K) : Car K :=
  { s with
    Encoder := s.Encoder.set (w.sign * n) w
    Position := s.Position.set (s.Position.get w + w.sign * n) w }

def Encoder_steps (w : Wheel) : Task (ControlAccess K) (Car K) Unit := do
  let n ← Read_Encoder_steps w
  Task.update (.integrate w) (integrate w n)

def compare_steps : List (Compare × Int) → Task (ControlAccess K) (Car K) Unit
  | [] => pure ()
  | w :: ws => do
    Task.update (.set_compare w.1 w.2) fun s =>
      { s with compare := Function.update s.compare w.1 w.2 }
    compare_steps ws

def Set_Pwm_steps : Task (ControlAccess K) (Car K) Unit := do
  let motor ← Task.read .Set_Pwm Car.Motor
  compare_steps (Set_Pwm_writes motor.A motor.B motor.C motor.D)

/-- `Control`, with every access to a timer a step of its own. -/
def Control_steps [Libm K] : Task (ControlAccess K) (Car K) Unit := do
  Task.update .targets Control_targets
  Encoder_steps .A
  Encoder_steps .B
  Encoder_steps .C
  Encoder_steps .D
  Task.update .motors fun s => Xianfu_Pwm 11999 (Control_motors s)
  Set_Pwm_steps

/-- What these steps come to when nothing intervenes. -/
def encoder (w : Wheel) (s : Car K) : Car K :=
  integrate w (Read_Encoder w.TIMX s).1 (Read_Encoder w.TIMX s).2

theorem run_Encoder_steps (w : Wheel) (s : Car K) :
    (Encoder_steps w).run s = some ((), encoder w s) := rfl

theorem run_compare_steps (ws : List (Compare × Int)) (s : Car K) :
    (compare_steps ws).run s =
      some ((), { s with
        compare := ws.foldl (fun regs w => Function.update regs w.1 w.2) s.compare }) := by
  induction ws generalizing s with
  | nil => rfl
  | cons w ws ih =>
    rw [compare_steps, Task.run_bind, Task.run_update, Option.bind_some, ih]
    rfl

theorem run_Set_Pwm_steps (s : Car K) :
    Set_Pwm_steps.run s =
      some ((), Set_Pwm s.Motor.A s.Motor.B s.Motor.C s.Motor.D s) := by
  rw [Set_Pwm_steps, Task.run_bind, Task.run_read, Option.bind_some, run_compare_steps]
  rfl

/-- The wheels one after another are the second part of `Control`. -/
theorem Control_encoders_eq (s : Car K) :
    Control_encoders s = encoder .D (encoder .C (encoder .B (encoder .A s))) := by
  simp only [encoder, integrate, Wheel.sign, neg_one_mul, one_mul]
  rfl

theorem run_Control_steps [Libm K] (s : Car K) :
    Control_steps.run s = some ((), Control s) := by
  simp only [Control_steps, Task.run_bind, Task.run_update, Option.bind_some, run_Encoder_steps,
    run_Set_Pwm_steps, ← Control_encoders_eq]
  rfl

/-! ### What the computations of a tick leave alone -/

def Car.hardware (s : Car K) : Wheels Int × Counters × (Compare → Int) :=
  (s.Position, s.counters, s.compare)

theorem Control_targets_hardware (s : Car K) : (Control_targets s).hardware = s.hardware := by
  unfold Control_targets
  split
  · split <;> rfl
  · rfl

theorem Control_motors_hardware [Libm K] (s : Car K) :
    (Xianfu_Pwm 11999 (Control_motors s)).hardware = s.hardware := by
  have hv (s : Car K) : (Count_Velocity s).hardware = s.hardware := by
    unfold Count_Velocity
    dsimp only
    split <;> split <;> rfl
  have hi (s : Car K) : (Control_inner s).hardware = s.hardware := rfl
  have ho (s : Car K) : (Control_outer s).hardware = s.hardware := rfl
  have hx (s : Car K) : (Xianfu_Pwm 11999 s).hardware = s.hardware := rfl
  rw [hx, Control_motors]
  split
  · rfl
  · rw [Control_position, hi, hv, ho]

/-! ### Ticks and commands -/

/-- What runs under `Control_Lock`: ticks, and the stores of the other tasks. -/
inductive ControlJob (K : Type) where
  | Control
  | Set_Move (V : Vec K)
  | Set_Run_Flag (flag : UInt8)
  | Set_relative (flag : UInt8)
  | Set_pending_flag (flag : UInt8)
  | Set_RC_Velocity (vol : K)
  | Set_Last_Target (V : Vec K)

def critical (t : Task (ControlCall K) (Car K) Unit) : Task (ControlAccess K) (Car K) Unit :=
  t.zoom .call Task.Part.whole

/-- The lock admits one job after another, while the encoders keep counting. -/
def controlClient (K : Type) [Field K] [LinearOrder K] [FloorRing K] [Libm K] :
    Client (ControlAccess K) (Car K) (ControlJob K) (Wheel × Bool) where
  handler
    | .Control => Control_steps
    | .Set_Move V => critical (RobotCar.Set_Move V)
    | .Set_Run_Flag flag => critical (RobotCar.Set_Run_Flag flag)
    | .Set_relative flag => critical (RobotCar.Set_relative flag)
    | .Set_pending_flag flag => critical (RobotCar.Set_pending_flag flag)
    | .Set_RC_Velocity vol => critical (RobotCar.Set_RC_Velocity vol)
    | .Set_Last_Target V => critical (RobotCar.Set_Last_Target V)
  env p s := { s with counters := s.counters.pulse p.2 p.1 }

theorem ControlJob.tick_or_store [Libm K] (job : ControlJob K) :
    job = .Control ∨ ∃ t : Task (ControlCall K) (Car K) Unit,
      (controlClient K).handler job = critical t ∧
        t.Only fun _ s s' => s'.hardware = s.hardware := by
  cases job with
  | Control => exact .inl rfl
  | Set_Move V => exact .inr ⟨_, rfl, Task.only_access _ fun _ => rfl⟩
  | Set_Run_Flag flag => exact .inr ⟨_, rfl, Task.only_access _ fun _ => rfl⟩
  | Set_relative flag => exact .inr ⟨_, rfl, Task.only_access _ fun _ => rfl⟩
  | Set_pending_flag flag => exact .inr ⟨_, rfl, Task.only_access _ fun _ => rfl⟩
  | Set_RC_Velocity vol => exact .inr ⟨_, rfl, Task.only_access _ fun _ => rfl⟩
  | Set_Last_Target V => exact .inr ⟨_, rfl, Task.only_access _ fun _ => rfl⟩

end

end RobotCar

import RobotCar.Lib.Client

namespace RobotCar
open Concurrent
set_option autoImplicit true

/-- The variables of one axis in `StepperMotor.cpp`: the atomics, the static variables of its
interrupt routine, and the levels of its two output pins. -/
structure Axis where
  current_speed : Int := 2
  current_halfstep_left : Int := 0
  current_halfstep_total : Int := 0
  clear_count : Int := 0
  clear_flag : Bool := false
  counter : Int := 0
  state : Bool := false
  DIR : Bool := false
  STEP : Bool := false
  deriving DecidableEq, Repr

/-- The single accesses of the tasks to the atomics of one axis. -/
inductive AxisAccess where
  | load_total
  | store_left
  | store_speed
  deriving DecidableEq, Repr

namespace Axis

/-- `-2*steps` is taken relative to the total that was loaded one access before. -/
def set_stepper (steps : Int) : Task AxisAccess Axis Unit := do
  let total ← Task.read .load_total current_halfstep_total
  Task.update .store_left fun a => { a with current_halfstep_left := -2 * steps - total }

def set_speed (speed : Int) : Task AxisAccess Axis Unit :=
  Task.update .store_speed fun a => { a with current_speed := speed }

def get_steps (a : Axis) : Int := (-a.current_halfstep_total).tdiv 2

/-- One half-step towards `current_halfstep_left = 0`, as the two branches of the routine. -/
def halfstep (a : Axis) : Axis :=
  let a :=
    if a.current_halfstep_left > 0 then
      { a with
        DIR := true
        current_halfstep_left := a.current_halfstep_left - 1
        current_halfstep_total := a.current_halfstep_total + 1 }
    else
      { a with
        DIR := false
        current_halfstep_left := a.current_halfstep_left + 1
        current_halfstep_total := a.current_halfstep_total - 1 }
  { a with STEP := a.state, state := !a.state }

/-- The first half of the routine: count, and move when the count reaches the speed. -/
def drive (a : Axis) : Axis :=
  let a := { a with counter := a.counter + 1 }
  if a.counter ≥ a.current_speed then
    let a := if a.current_halfstep_left ≠ 0 then a.halfstep else a
    { a with counter := 0 }
  else a

/-- The routine finds the limit switch closed (`sw` is the level of its pin) after an edge. -/
def Clears (sw : Bool) (a : Axis) : Prop :=
  a.clear_flag = true ∧ a.clear_count + 1 ≥ 1 ∧ sw = false

instance (sw : Bool) (a : Axis) : Decidable (a.Clears sw) :=
  inferInstanceAs (Decidable (_ ∧ _))

/-- The second half of the routine: homing after an edge of the limit switch. -/
def home (sw : Bool) (a : Axis) : Axis :=
  if a.clear_flag then
    let a := { a with clear_count := a.clear_count + 1 }
    if a.clear_count ≥ 1 then
      if sw = false then
        (set_stepper 450).exec
          { a with
            current_halfstep_left := 0
            current_halfstep_total := 0
            clear_count := 0
            clear_flag := false }
      else { a with clear_count := 0, clear_flag := false }
    else a
  else a

def stepper_ISR (sw : Bool) (a : Axis) : Axis := a.drive.home sw

@[simp] theorem exec_set_stepper (steps : Int) (a : Axis) :
    (set_stepper steps).exec a =
      { a with current_halfstep_left := -2 * steps - a.current_halfstep_total } := rfl

theorem home_of_clears {a : Axis} (h : a.Clears sw) :
    a.home sw =
      { a with
        current_halfstep_left := -900
        current_halfstep_total := 0
        clear_count := 0
        clear_flag := false } := by
  obtain ⟨hf, hc, hs⟩ := h
  simp only [home, hf, hc, hs, ↓reduceIte, exec_set_stepper]
  rfl

theorem home_of_not_clears {a : Axis} (h : ¬a.Clears sw) :
    ∃ count flag, a.home sw = { a with clear_count := count, clear_flag := flag } := by
  unfold home
  split
  · rename_i hf
    dsimp only
    split
    · rename_i hc
      split
      · rename_i hs
        exact (h ⟨hf, hc, hs⟩).elim
      · exact ⟨_, _, rfl⟩
    · exact ⟨_, _, rfl⟩
  · exact ⟨_, _, rfl⟩

@[simp] theorem halfstep_sum (a : Axis) :
    a.halfstep.current_halfstep_left + a.halfstep.current_halfstep_total =
      a.current_halfstep_left + a.current_halfstep_total := by
  simp only [halfstep]
  split <;> dsimp only <;> omega

theorem drive_sum (a : Axis) :
    a.drive.current_halfstep_left + a.drive.current_halfstep_total =
      a.current_halfstep_left + a.current_halfstep_total := by
  simp only [drive]
  split
  · split
    · exact halfstep_sum _
    · rfl
  · rfl

@[simp] theorem drive_clear_flag (a : Axis) : a.drive.clear_flag = a.clear_flag := by
  simp only [drive, halfstep]
  split <;> (try split) <;> (try split) <;> rfl

@[simp] theorem drive_clear_count (a : Axis) : a.drive.clear_count = a.clear_count := by
  simp only [drive, halfstep]
  split <;> (try split) <;> (try split) <;> rfl

@[simp] theorem drive_clears (a : Axis) : a.drive.Clears sw ↔ a.Clears sw := by
  simp only [Clears, drive_clear_flag, drive_clear_count]

end Axis

structure Steppers where
  axis1 : Axis := {}
  axis2 : Axis := {}
  deriving DecidableEq, Repr

namespace Steppers

def part1 : Task.Part Steppers Axis where
  get := axis1
  set a s := { s with axis1 := a }
  get_set _ _ := rfl
  set_get _ := rfl
  set_set _ _ _ := rfl

def part2 : Task.Part Steppers Axis where
  get := axis2
  set a s := { s with axis2 := a }
  get_set _ _ := rfl
  set_get _ := rfl
  set_set _ _ _ := rfl

end Steppers

def set_stepper_1 (steps : Int) : Task AxisAccess Steppers Unit :=
  (Axis.set_stepper steps).zoom id Steppers.part1

def set_stepper_2 (steps : Int) : Task AxisAccess Steppers Unit :=
  (Axis.set_stepper steps).zoom id Steppers.part2

def set_speed_1 (speed : Int) : Task AxisAccess Steppers Unit :=
  (Axis.set_speed speed).zoom id Steppers.part1

def set_speed_2 (speed : Int) : Task AxisAccess Steppers Unit :=
  (Axis.set_speed speed).zoom id Steppers.part2

def get_steps_1 (s : Steppers) : Int := s.axis1.get_steps

def get_steps_2 (s : Steppers) : Int := s.axis2.get_steps

def stepper1_ISR (sw : Bool) (s : Steppers) : Steppers :=
  { s with axis1 := s.axis1.stepper_ISR sw }

def stepper2_ISR (sw : Bool) (s : Steppers) : Steppers :=
  { s with axis2 := s.axis2.stepper_ISR sw }

def SW_STEP1_Pin : UInt16 := 0x1000

def SW_STEP2_Pin : UInt16 := 0x0200

def HAL_GPIO_EXTI_Callback (GPIO_Pin : UInt16) (s : Steppers) : Steppers :=
  let s :=
    if GPIO_Pin = SW_STEP1_Pin then { s with axis1 := { s.axis1 with clear_flag := true } } else s
  if GPIO_Pin = SW_STEP2_Pin then { s with axis2 := { s.axis2 with clear_flag := true } } else s

/-- `TIM7_IRQHandler` runs both routines, each with the level of its limit switch. -/
def TIM7_IRQHandler (sw1 sw2 : Bool) (s : Steppers) : Steppers :=
  stepper2_ISR sw2 (stepper1_ISR sw1 s)

end RobotCar

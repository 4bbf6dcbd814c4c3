import Mathlib.Data.Rat.Floor
import RobotCar.Lib.CArith
import RobotCar.Scs
import RobotCar.Stepper

namespace RobotCar
open Concurrent CArith
set_option autoImplicit true

structure act where
  id : UInt32
  value : UInt32
  deriving DecidableEq, Repr

/-- A node of the queue; `Next` is an address, and 0 the null pointer. -/
structure action_servo where
  Next : Nat
  acts : List act
  time : UInt32
  speed : Int
  deriving DecidableEq, Repr

/-- The variables of `Servo.cpp`, the nodes on the heap, and the actuators it drives. -/
structure Servo where
  heap : Nat → Option action_servo := fun _ => none
  Current : Nat := 0
  Last : Nat := 0
  time_start : UInt32 := 0
  stepper_lastvalue1 : Int := 0
  stepper_lastvalue2 : Int := 0
  servo_speed : Fin 10 → ℚ := fun i => if i = 0 then 0 else 1
  servo_lastvalue : Fin 10 → Int := fun _ => 0
  /-- the mutex is taken -/
  Servo_Lock : Bool := false
  steppers : Steppers := {}
  bus : Bus := {}

namespace Servo

def steppersPart : Task.Part Servo Steppers where
  get := steppers
  set a s := { s with steppers := a }
  get_set _ _ := rfl
  set_get _ := rfl
  set_set _ _ _ := rfl

def busPart : Task.Part Servo Bus where
  get := bus
  set a s := { s with bus := a }
  get_set _ _ := rfl
  set_get _ := rfl
  set_set _ _ _ := rfl

end Servo

/-- The single accesses of the tasks that use the servos. -/
inductive ServoAccess where
  | xSemaphoreTake
  | xSemaphoreGive
  /-- the variables of the queue, which are used under the lock only -/
  | queue
  /-- a new node is linked into the queue -/
  | enqueue (action : act)
  /-- the actuator function for an action is called -/
  | command (action : act) (time : UInt32)
  | axis (access : AxisAccess)
  | scs (access : BusAccess)

def xSemaphoreTake : Task ServoAccess Servo Unit :=
  Task.await .xSemaphoreTake fun s =>
    if s.Servo_Lock then none else some { s with Servo_Lock := true }

def xSemaphoreGive : Task ServoAccess Servo Unit :=
  Task.update .xSemaphoreGive fun s => { s with Servo_Lock := false }

/-- What the source leaves undefined: a task that gets here does not go on. -/
def undefinedBehavior : Task ServoAccess Servo Unit := Task.await .queue fun _ => none

def get_array_seq (id : UInt32) : UInt32 := id

def is_STS (i : Fin 10) : Bool := i = 1 ∨ i = 3 ∨ i = 4

/-! ### Commands to the actuators -/

def WritePos (ID : UInt8) (Position Time Speed : UInt16) : Task ServoAccess Servo Unit := do
  let s ← Task.read .queue id
  if h : (get_array_seq ID.toUInt32).toNat < 10 then
    let i : Fin 10 := ⟨_, h⟩
    if ¬is_STS i then
      let _ ← (WritePosSCS ID Position Time Speed).zoom .scs Servo.busPart
    else if Speed ≠ 0 then
      let _ ← (WritePosSTS ID Position.toInt16 Speed 50).zoom .scs Servo.busPart
    else
      let Speed := (toUInt32 (toDouble (s.servo_speed i * 1250))).toUInt16
      let _ ← (WritePosSTS ID Position.toInt16 Speed 50).zoom .scs Servo.busPart
  else undefinedBehavior

/-- One turn of the dispatch loops: `time` and `speed` are those of the head of the queue. -/
def command (time : UInt32) (speed : Int) (action : act) : Task ServoAccess Servo Unit := do
  Task.update (.command action time) id
  if action.id < 0xFFF0 then
    WritePos action.id.toUInt8 action.value.toUInt16 time.toUInt16 0
  else if action.id = 0xFFF0 then
    (set_speed_1 speed).zoom .axis Servo.steppersPart
    (set_stepper_1 action.value.toInt32.toInt).zoom .axis Servo.steppersPart
  else if action.id = 0xFFF1 then
    (set_speed_2 speed).zoom .axis Servo.steppersPart
    (set_stepper_2 action.value.toInt32.toInt).zoom .axis Servo.steppersPart

/-- `Current->acts.erase(Current->acts.begin())` -/
def erase_first (s : Servo) : Servo :=
  { s with
    heap := Function.update s.heap s.Current
      ((s.heap s.Current).map fun node => { node with acts := node.acts.tail }) }

def dispatch (time : UInt32) (speed : Int) : List act → Task ServoAccess Servo Unit
  | [] => pure ()
  | action :: acts => do
    command time speed action
    Task.update .queue erase_first
    dispatch time speed acts

def dispatch_Current : Task ServoAccess Servo Unit := do
  match ← Task.read .queue fun s => s.heap s.Current with
  | none => undefinedBehavior
  | some node => dispatch node.time node.speed node.acts

/-! ### The queue -/

def retire (Next : Nat) (s : Servo) : Servo :=
  { s with
    heap := Function.update s.heap s.Current none
    Current := Next
    Last := if Next = 0 then 0 else s.Last }

def Servo_Server_body (now now' : UInt32) : Task ServoAccess Servo Unit := do
  let s ← Task.read .queue id
  if s.Current ≠ 0 then
    match s.heap s.Current with
    | none => undefinedBehavior
    | some node =>
      if now - s.time_start ≥ node.time then
        Task.update .queue (retire node.Next)
        if node.Next ≠ 0 then
          dispatch_Current
          Task.update .queue fun s => { s with time_start := now' }

/-- `now` and `now'` are the two readings of `HAL_GetTick`, in program order. -/
def Servo_Server (now now' : UInt32) : Task ServoAccess Servo Unit := do
  xSemaphoreTake
  Servo_Server_body now now'
  xSemaphoreGive

/-- What an axis needs for a move over this distance, in ms. -/
def stepper_time (value lastvalue speed : Int) : Int :=
  toInt32 ((|wrap32 (value - lastvalue)| : Int) * 2 * (speed : ℚ) / 20)

/-- What a servo needs for a move over this distance, in ms. -/
def servo_time (value lastvalue : Int) (speed : ℚ) : Int :=
  quotientToInt32 ((|wrap32 (value - lastvalue)| : Int) : ℚ) speed

/-- The speed of an axis: 2 by default. -/
def stepper_speed (time : Int) : Int := if time ≠ -1 then time else 2

/-- The part of `Servo_Add_Action` that fills the node `New`. -/
def New_action (id value : UInt32) (time : Int) (s : Servo) : Option (action_servo × Servo) :=
  let action1 : act := ⟨id, value⟩
  let value := value.toInt32.toInt
  if id = 0xFFF0 then
    let speed := stepper_speed time
    let lastvalue := if s.Current = 0 then get_steps_1 s.steppers else s.stepper_lastvalue1
    some (⟨0, [action1], UInt32.ofInt (stepper_time value lastvalue speed), speed⟩,
      { s with stepper_lastvalue1 := value })
  else if id = 0xFFF1 then
    let speed := stepper_speed time
    let lastvalue := if s.Current = 0 then get_steps_2 s.steppers else s.stepper_lastvalue2
    some (⟨0, [action1], UInt32.ofInt (stepper_time value lastvalue speed), speed⟩,
      { s with stepper_lastvalue2 := value })
  else if h : (get_array_seq id).toNat < 10 then
    let i : Fin 10 := ⟨_, h⟩
    let time := if time = -1 then servo_time value (s.servo_lastvalue i) (s.servo_speed i) + 1
      else time
    some (⟨0, [action1], UInt32.ofInt time, -1⟩,
      { s with servo_lastvalue := Function.update s.servo_lastvalue i value })
  else none

theorem New_action_frame {action : act}
    (h : New_action action.id action.value time s = some (node, s')) :
    s' = { s with
      stepper_lastvalue1 := s'.stepper_lastvalue1
      stepper_lastvalue2 := s'.stepper_lastvalue2
      servo_lastvalue := s'.servo_lastvalue } := by
  unfold New_action at h
  dsimp only at h
  split at h
  · cases h
    rfl
  split at h
  · cases h
    rfl
  split at h
  · cases h
    rfl
  · cases h

/-- The part of `Servo_Add_Action` that links the node at the address `New`. -/
def link (New : Nat) (node : action_servo) (s : Servo) : Option Servo :=
  let Current := if s.Current = 0 then New else s.Current
  if s.Last = 0 then
    some { s with heap := Function.update s.heap New (some node), Last := New, Current := Current }
  else (s.heap s.Last).map fun last =>
    { s with
      heap := Function.update (Function.update s.heap s.Last (some { last with Next := New }))
        New (some node)
      Last := New
      Current := Current }

theorem link_frame (h : link New node s = some s') :
    s' = { s with heap := s'.heap, Last := s'.Last, Current := s'.Current } := by
  unfold link at h
  dsimp only at h
  split at h
  · cases h
    rfl
  · obtain ⟨last, -, rfl⟩ := Option.map_eq_some_iff.1 h
    rfl

/-- The new node, at an address that is not in use; a null pointer is not tested for. -/
def enqueue (New storage : Nat) (id value : UInt32) (time : Int) (s : Servo) : Option Servo :=
  if New = 0 ∨ storage = 0 ∨ s.heap New ≠ none then none
  else (New_action id value time s).bind fun r => link New r.1 r.2

theorem enqueue_frame {action : act}
    (h : enqueue New storage action.id action.value time s = some s') :
    s' = { s with
      heap := s'.heap
      Last := s'.Last
      Current := s'.Current
      stepper_lastvalue1 := s'.stepper_lastvalue1
      stepper_lastvalue2 := s'.stepper_lastvalue2
      servo_lastvalue := s'.servo_lastvalue } := by
  rw [enqueue] at h
  split at h
  · cases h
  · obtain ⟨⟨node, s₁⟩, hnew, hlink⟩ := Option.bind_eq_some_iff.1 h
    have hframe := New_action_frame hnew
    rw [link_frame hlink, hframe]

def Servo_Add_Action_body (New storage : Nat) (now id value : UInt32) (time : Int) :
    Task ServoAccess Servo Unit := do
  let Current ← Task.read .queue Servo.Current
  Task.await (.enqueue ⟨id, value⟩) (enqueue New storage id value time)
  if Current = 0 then
    dispatch_Current
    Task.update .queue fun s => { s with time_start := now }

/-- `New` and `storage` are the addresses that `operator new` gives to the node and to the
storage of its `acts`, and `now` is what `HAL_GetTick` returns. -/
def Servo_Add_Action (New storage : Nat) (now id value : UInt32) (time : Int) :
    Task ServoAccess Servo Unit := do
  xSemaphoreTake
  Servo_Add_Action_body New storage now id value time
  xSemaphoreGive

def Is_Servo_Idle : Task ServoAccess Servo Bool := do
  xSemaphoreTake
  let Current ← Task.read .queue Servo.Current
  xSemaphoreGive
  pure (Current = 0)

def update_Servo_state (id : UInt32) (value : Int) : Task ServoAccess Servo Unit := do
  xSemaphoreTake
  Task.await .queue fun s =>
    if id = 0xFFF0 then some { s with stepper_lastvalue1 := value }
    else if id = 0xFFF1 then some { s with stepper_lastvalue2 := value }
    else if h : (get_array_seq id).toNat < 10 then
      some { s with servo_lastvalue := Function.update s.servo_lastvalue ⟨_, h⟩ value }
    else none
  xSemaphoreGive

def change_servo_speed (id : UInt32) (speed : ℚ) : Task ServoAccess Servo Unit := do
  xSemaphoreTake
  Task.await .queue fun s =>
    if h : (get_array_seq id).toNat < 10 then
      some { s with servo_speed := Function.update s.servo_speed ⟨_, h⟩ speed }
    else none
  xSemaphoreGive

/-- What `StartServoTask` does between the start of the ROS task and its loop. -/
def StartServoTask : Task ServoAccess Servo Unit := do
  (set_stepper_2 (-0xFFFF)).zoom .axis Servo.steppersPart
  (set_stepper_1 (-0xFFFF)).zoom .axis Servo.steppersPart
  update_Servo_state 1 3300
  update_Servo_state 2 170
  update_Servo_state 3 470
  update_Servo_state 4 300
  update_Servo_state 5 580
  let _ ← (WritePosSCS 100 0 0 0).zoom .scs Servo.busPart
  let _ ← (WritePosSTS 100 0 1000 50).zoom .scs Servo.busPart

end RobotCar

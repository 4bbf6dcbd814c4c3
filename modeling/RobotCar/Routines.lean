import RobotCar.ServoQueue

namespace RobotCar
open Concurrent CArith
set_option autoImplicit true

/-! ### The fields of messages -/

/-- A double, as a message may hold it. -/
inductive Double where
  | finite (x : ℚ)
  | infinity (negative : Bool)
  | nan
  deriving DecidableEq, Repr

/-- A number that the comparisons and the saturating conversions of the target treat alike. -/
def Double.toRat : Double → ℚ
  | .finite x => x
  | .infinity false => 8589934592
  | .infinity true | .nan => -8589934592

/-- The conversion to `uint32_t`, where the language defines it. -/
def Double.toUInt32 : Double → Option UInt32
  | .finite x => if -1 < x ∧ x < 4294967296 then some (CArith.toUInt32 x) else none
  | .infinity _ | .nan => none

structure Point where
  x : Double
  y : Double
  z : Double
  deriving DecidableEq, Repr

/-! ### The composite routines -/

/-- The arguments of a call of `Servo_Add_Action`. -/
structure Request where
  id : UInt32
  value : UInt32
  time : Int
  deriving DecidableEq, Repr

/-- The calls that a routine makes, and what it leaves in `last_mode_servo`. -/
structure Routine where
  requests : List Request
  mode : Option Int := none

def stepsOf (mm : ℚ) : UInt32 := toUInt32 (mm / (38 / 10000))

def All_Middle : Routine where
  requests := [⟨3, 470, -1⟩, ⟨4, 1300, -1⟩]
  mode := some 0x0E

def Servo_InitPos : Routine where
  requests := [⟨1, 2200, -1⟩, ⟨3, 470, -1⟩, ⟨4, 1300, -1⟩, ⟨2, 170, -1⟩, ⟨5, 580, -1⟩]
  mode := some 0x15

/-- The body that `Servo_Put1` to `Servo_Put3` share. -/
def Servo_Put (disk : UInt32) (mode : Int) : Routine where
  requests := [⟨2, disk, -1⟩, ⟨0xFFF0, stepsOf 37, 1⟩, ⟨0xFFF1, 450, -1⟩, ⟨4, 1770, -1⟩,
    ⟨3, 1500, -1⟩, ⟨4, 1300, -1⟩, ⟨0xFFF1, stepsOf 20, -1⟩, ⟨5, 750, -1⟩, ⟨4, 1770, -1⟩,
    ⟨0xFFF1, 450, -1⟩]
  mode := some mode

def Servo_Put3 : Routine := Servo_Put 940 0x02
def Servo_Put2 : Routine := Servo_Put 550 0x01
def Servo_Put1 : Routine := Servo_Put 170 0x00

/-- The body that `Servo_Grab1` to `Servo_Grab3` share. -/
def Servo_Grab_disk (disk : UInt32) (mode : Int) : Routine where
  requests := [⟨2, disk, -1⟩, ⟨0xFFF0, stepsOf 37, 1⟩, ⟨0xFFF1, 450, -1⟩, ⟨5, 750, -1⟩,
    ⟨4, 1770, -1⟩, ⟨3, 1500, -1⟩, ⟨4, 1300, -1⟩, ⟨0xFFF1, stepsOf 25, -1⟩, ⟨5, 580, -1⟩,
    ⟨0xFFF1, 450, -1⟩, ⟨4, 1770, -1⟩]
  mode := some mode

def Servo_Grab1 : Routine := Servo_Grab_disk 170 0x03
def Servo_Grab2 : Routine := Servo_Grab_disk 550 0x04
def Servo_Grab3 : Routine := Servo_Grab_disk 940 0x05

def Servo_Grab_Upper : Routine where
  requests := [⟨4, 1770, -1⟩, ⟨3, 470, -1⟩, ⟨0xFFF0, stepsOf 127, -1⟩, ⟨5, 750, -1⟩,
    ⟨0xFFF1, stepsOf 25, -1⟩, ⟨4, 1300, -1⟩, ⟨5, 580, -1⟩]
  mode := some 0x06

def Servo_Grab_Lower : Routine where
  requests := [⟨0xFFF0, stepsOf 127, -1⟩, ⟨3, 470, -1⟩, ⟨4, 1300, -1⟩, ⟨5, 750, -1⟩,
    ⟨0xFFF1, stepsOf 150, -1⟩]
  mode := some 0x07

def Servo_Grab_Ground : Routine where
  requests := [⟨3, 470, -1⟩, ⟨4, 1300, -1⟩, ⟨5, 750, -1⟩, ⟨0xFFF1, stepsOf 185, -1⟩,
    ⟨5, 580, -1⟩, ⟨0xFFF1, stepsOf 16, -1⟩]
  mode := some 0x07

def Servo_Grab : Routine where
  requests := [⟨5, 580, -1⟩]

def Servo_Release : Routine where
  requests := [⟨5, 750, -1⟩]

def Servo_Put_Upper : Routine where
  requests := []
  mode := some 0x0A

def Servo_Put_Lower : Routine where
  requests := [⟨3, 470, -1⟩, ⟨4, 1300, -1⟩, ⟨0xFFF1, stepsOf 185, 1⟩, ⟨5, 750, -1⟩,
    ⟨0xFFF1, 450, -1⟩]
  mode := some 0x0B

def Servo_Camera : Routine where
  requests := [⟨4, 1770, -1⟩, ⟨3, 1500, -1⟩, ⟨0xFFF0, stepsOf 127, 1⟩]
  mode := some 0x0C

def Servo_Camera1 : Routine where
  requests := [⟨4, 1770, -1⟩, ⟨3, 470, -1⟩]
  mode := some 0x0F

/-! ### The callbacks -/

/-- The calls of the ROS task, each of which is one critical section of `Servo_Lock`, and its
stores to `last_mode_servo`. -/
inductive RosCall where
  | Servo_Add_Action (r : Request)
  | change_servo_speed (id speed : Double)
  | Is_Servo_Idle
  | last_mode_servo (value : Int)
  deriving DecidableEq, Repr

def Routine.calls (r : Routine) : List RosCall :=
  r.requests.map .Servo_Add_Action ++ r.mode.toList.map .last_mode_servo

def publish_servo_status : List RosCall := [.Is_Servo_Idle]

/-- The switch of `callback_servo`. -/
def callback_servo_routine (data : UInt8) : Routine :=
  match data.toNat with
  | 0x00 => Servo_Put1
  | 0x01 => Servo_Put2
  | 0x02 => Servo_Put3
  | 0x03 => Servo_Grab1
  | 0x04 => Servo_Grab2
  | 0x05 => Servo_Grab3
  | 0x06 => Servo_Camera
  | 0x07 => Servo_Camera1
  | 0x08 => Servo_Grab
  | 0x09 => Servo_Release
  | 0x0A => Servo_Put_Upper
  | 0x0B => Servo_Put_Lower
  | 0x0C => Servo_InitPos
  | 0x0D => Servo_Grab_Upper
  | 0x0E => Servo_Grab_Lower
  | 0x0F => All_Middle
  | 0x10 => Servo_Grab_Ground
  | _ => { requests := [] }

def callback_servo (data : UInt8) : List RosCall :=
  (callback_servo_routine data).calls ++ publish_servo_status

def callback_xy (msgin : Point) : List RosCall :=
  let speed := if msgin.z.toRat > 1 / 100000 then toInt32 msgin.z.toRat else -1
  (if msgin.x.toRat > 1 / 100000 then [.Servo_Add_Action ⟨0xFFF0, stepsOf msgin.x.toRat, speed⟩]
    else []) ++
  (if msgin.y.toRat > 1 / 100000 then [.Servo_Add_Action ⟨0xFFF1, stepsOf msgin.y.toRat, speed⟩]
    else []) ++ publish_servo_status

def callback_servo_speed (msgin : Point) : List RosCall := [.change_servo_speed msgin.x msgin.y]

/-- What the executor of the ROS task has a callback for that uses the servos. -/
inductive ArmMessage where
  | servo (data : UInt8)
  | xy (point : Point)
  | servo_speed (point : Point)
  | timer
  deriving DecidableEq, Repr

def callback_arm : ArmMessage → List RosCall
  | .servo data => callback_servo data
  | .xy point => callback_xy point
  | .servo_speed point => callback_servo_speed point
  | .timer => publish_servo_status

/-- What `StartServoTask` calls before its loop. -/
inductive StartCall where
  | set_stepper_1 (steps : Int)
  | set_stepper_2 (steps : Int)
  | update_Servo_state (id : UInt32) (value : Int)
  | WritePosSCS (ID : UInt8) (Position Time Speed : UInt16)
  | WritePosSTS (ID : UInt8) (Position : Int16) (Speed : UInt16) (ACC : UInt8)
  deriving DecidableEq, Repr

def startup : List StartCall :=
  [.set_stepper_2 (-0xFFFF), .set_stepper_1 (-0xFFFF), .update_Servo_state 1 3300,
    .update_Servo_state 2 170, .update_Servo_state 3 470, .update_Servo_state 4 300,
    .update_Servo_state 5 580, .WritePosSCS 100 0 0 0, .WritePosSTS 100 0 1000 50]

/-- `New` and `storage` are what the allocator returns, and `now` what the clock returns. -/
def RosCall.task (New storage : Nat) (now : UInt32) : RosCall → Task ServoAccess Servo Unit
  | .Servo_Add_Action r => RobotCar.Servo_Add_Action New storage now r.id r.value r.time
  | .change_servo_speed id speed =>
    match id.toUInt32 with
    | some id => RobotCar.change_servo_speed id speed.toRat
    | none => undefinedBehavior
  | .Is_Servo_Idle => do let _ ← RobotCar.Is_Servo_Idle
  | .last_mode_servo _ => pure ()

def StartCall.task : StartCall → Task ServoAccess Servo Unit
  | .set_stepper_1 steps => (RobotCar.set_stepper_1 steps).zoom .axis Servo.steppersPart
  | .set_stepper_2 steps => (RobotCar.set_stepper_2 steps).zoom .axis Servo.steppersPart
  | .update_Servo_state id value => RobotCar.update_Servo_state id value
  | .WritePosSCS ID Position Time Speed => do
    let _ ← (RobotCar.WritePosSCS ID Position Time Speed).zoom .scs Servo.busPart
  | .WritePosSTS ID Position Speed ACC => do
    let _ ← (RobotCar.WritePosSTS ID Position Speed ACC).zoom .scs Servo.busPart

theorem StartServoTask_eq :
    StartServoTask = startup.foldr (fun c rest => c.task >>= fun _ => rest) (pure ()) := by
  simp only [startup, List.foldr_cons, List.foldr_nil, StartCall.task, Task.bind_assoc]
  rfl

/-! ### The two tasks -/

/-- The ROS task and the servo task between two calls, with what is left of a callback and of
the start of the servo task. -/
structure Arm where
  queue : Servo × ServoHistory Unit := ({}, {})
  last_mode_servo : Int := -1
  started : Bool := false
  ros : List RosCall := []
  servo : List StartCall := startup

inductive ArmEvent where
  /-- a callback is called -/
  | recv (m : ArmMessage)
  | KEY1
  | KEY2
  /-- the next call of the ROS task -/
  | ros (New storage : Nat) (now : UInt32)
  /-- the next call of the servo task -/
  | servo (now now' : UInt32)
  /-- the interrupts of the axes, and what arrives on the bus -/
  | hardware (steppers : Steppers) (rx : List (Option UInt8))

def runCall (t : Task ServoAccess Servo Unit) (r : Servo × ServoHistory Unit) :
    Option (Servo × ServoHistory Unit) :=
  ((t.history (ServoHistory.watch ())).run r).map Prod.snd

namespace Arm

/-- The next call of the ROS task. One that the source leaves undefined ends the task. -/
def step_ros (s : Arm) (New storage : Nat) (now : UInt32) : Arm :=
  match s.ros with
  | [] => s
  | c :: cs =>
    match runCall (c.task New storage now) s.queue with
    | none => s
    | some queue =>
      { s with
        queue := queue
        ros := cs
        last_mode_servo := match c with
          | .last_mode_servo value => value
          | _ => s.last_mode_servo }

def step_servo (s : Arm) (now now' : UInt32) : Arm :=
  match s.servo with
  | [] => { s with queue := (runCall (Servo_Server now now') s.queue).getD s.queue }
  | c :: cs =>
    match runCall c.task s.queue with
    | none => s
    | some queue => { s with queue := queue, servo := cs }

/-- A message or the start key is taken only between two callbacks; the other key resets. -/
def step (s : Arm) : ArmEvent → Arm
  | .recv m =>
    match s.ros with
    | [] => { s with ros := callback_arm m }
    | _ :: _ => s
  | .KEY1 =>
    match s.ros, s.started with
    | [], false => { s with ros := Servo_InitPos.calls, started := true }
    | _, _ => s
  | .KEY2 => {}
  | .ros New storage now => s.step_ros New storage now
  | .servo now now' => s.step_servo now now'
  | .hardware steppers rx =>
    { s with
      queue := ({ s.queue.1 with
        steppers := steppers
        bus := { s.queue.1.bus with rx := rx } }, s.queue.2) }

end Arm

/-! ### The calls and the queue -/

/-- What the routines, the callbacks and the start of the servo task ask for. -/
def Request.Sound (r : Request) : Prop :=
  (r.id ∈ [1, 2, 3, 4, 5] ∧ r.value.toNat < 32768 ∧ r.time = -1) ∨ r.id = 0xFFF0 ∨ r.id = 0xFFF1

instance (r : Request) : Decidable r.Sound := inferInstanceAs (Decidable (_ ∨ _))

def RosCall.Sound : RosCall → Prop
  | .Servo_Add_Action r => r.Sound
  | _ => True

def StartCall.Sound : StartCall → Prop
  | .update_Servo_state id value => id ∈ [1, 2, 3, 4, 5] ∧ 0 ≤ value ∧ value < 32768
  | _ => True

instance (c : StartCall) : Decidable c.Sound := by
  cases c <;> unfold StartCall.Sound <;> infer_instance

theorem startup_sound : ∀ c ∈ startup, c.Sound := by decide

theorem servo_toNat {id : UInt32} (h : id ∈ [1, 2, 3, 4, 5]) : 0 < id.toNat ∧ id.toNat < 6 := by
  simp only [List.mem_cons, List.not_mem_nil, or_false] at h
  rcases h with rfl | rfl | rfl | rfl | rfl <;> decide

theorem servo_id {id : UInt32} (h : id ∈ [1, 2, 3, 4, 5]) :
    id ≠ 0xFFF0 ∧ id ≠ 0xFFF1 ∧ (get_array_seq id).toNat < 10 := by
  obtain ⟨-, hlt⟩ := servo_toNat h
  refine ⟨?_, ?_, hlt.trans (by decide)⟩
  · rintro rfl
    exact absurd hlt (by decide)
  · rintro rfl
    exact absurd hlt (by decide)

def Routine.Sound (r : Routine) : Prop := ∀ q ∈ r.requests, q.Sound

instance (r : Routine) : Decidable r.Sound := inferInstanceAs (Decidable (∀ q ∈ r.requests, _))

theorem Routine.Sound.calls {r : Routine} (h : r.Sound) : ∀ c ∈ r.calls, c.Sound := by
  intro c hc
  rcases List.mem_append.1 hc with hc | hc
  · obtain ⟨q, hq, rfl⟩ := List.mem_map.1 hc
    exact h q hq
  · obtain ⟨value, -, rfl⟩ := List.mem_map.1 hc
    trivial

theorem Servo_Put_sound (mode : Int) (h : disk.toNat < 32768) : (Servo_Put disk mode).Sound := by
  have hdisk : (Request.mk 2 disk (-1)).Sound := .inl ⟨by simp, h, rfl⟩
  exact List.forall_mem_cons.2 ⟨hdisk, by decide⟩

theorem Servo_Grab_disk_sound (mode : Int) (h : disk.toNat < 32768) :
    (Servo_Grab_disk disk mode).Sound := by
  have hdisk : (Request.mk 2 disk (-1)).Sound := .inl ⟨by simp, h, rfl⟩
  exact List.forall_mem_cons.2 ⟨hdisk, by decide⟩

theorem callback_servo_routine_sound (data : UInt8) : (callback_servo_routine data).Sound := by
  unfold callback_servo_routine
  split
  · exact Servo_Put_sound _ (by decide)
  · exact Servo_Put_sound _ (by decide)
  · exact Servo_Put_sound _ (by decide)
  · exact Servo_Grab_disk_sound _ (by decide)
  · exact Servo_Grab_disk_sound _ (by decide)
  · exact Servo_Grab_disk_sound _ (by decide)
  · decide
  · decide
  · decide
  · decide
  · decide
  · decide
  · decide
  · decide
  · decide
  · decide
  · decide
  · exact fun q hq => absurd hq List.not_mem_nil

theorem callback_arm_sound (m : ArmMessage) : ∀ c ∈ callback_arm m, c.Sound := by
  have hidle : ∀ c ∈ publish_servo_status, c.Sound := by
    intro c hc
    rw [List.mem_singleton.1 hc]
    trivial
  cases m with
  | servo data =>
    intro c hc
    rcases List.mem_append.1 hc with hc | hc
    · exact (callback_servo_routine_sound data).calls c hc
    · exact hidle c hc
  | xy point =>
    have haxis {p : Prop} [Decidable p] {r : Request} (hr : r.Sound) :
        ∀ c ∈ (if p then [RosCall.Servo_Add_Action r] else []), c.Sound := by
      intro c hc
      split at hc
      · rw [List.mem_singleton.1 hc]
        exact hr
      · exact absurd hc List.not_mem_nil
    intro c hc
    rcases List.mem_append.1 hc with hc | hc
    · rcases List.mem_append.1 hc with hc | hc
      · exact haxis (.inr (.inl rfl)) c hc
      · exact haxis (.inr (.inr rfl)) c hc
    · exact hidle c hc
  | servo_speed point =>
    intro c hc
    rw [List.mem_singleton.1 hc]
    trivial
  | timer => exact hidle

/-- The state of the queue is a well-formed one that holds only valid actions. -/
structure Queued (r : Servo × ServoHistory Unit) (q : Fifo Unit) : Prop where
  represents : Represents r q
  exact : q.Exact
  valid : ∀ a ∈ q.history.enqueued, Valid a

/-- What a call leaves alone that has nothing to do with the queue. -/
theorem Queued.congr {s s' : Servo} {q : Fifo Unit} (h : Queued (s, history) q)
    (hheap : s'.heap = s.heap) (hCurrent : s'.Current = s.Current) (hLast : s'.Last = s.Last)
    (htime : s'.time_start = s.time_start) (hlock : s'.Servo_Lock = false) :
    Queued (s', history) { q with steppers := s'.steppers } := by
  obtain ⟨⟨⟨cells, hc⟩, hh, ht, hp, hu, hv, hi⟩, ⟨ho, hidle⟩, he⟩ := h
  refine ⟨⟨⟨cells, ?_⟩, hh, htime.trans ht, rfl, hlock, hv, hi⟩, ⟨ho, hidle⟩, he⟩
  exact Holds.congr hc hheap hCurrent hLast

theorem runCall_locked {s : Servo} (hs : s.Servo_Lock = false) (f : Servo → Option Servo)
    (h : ServoHistory Unit) :
    runCall (do xSemaphoreTake; Task.await .queue f; xSemaphoreGive) (s, h) =
      (f { s with Servo_Lock := true }).map fun s' => ({ s' with Servo_Lock := false }, h) := by
  rw [runCall, Task.history_bind, Task.run_bind, take_run hs, Option.bind_some, Task.history_bind,
    Task.run_bind, Task.run_history_await]
  cases f { s with Servo_Lock := true } with
  | none => rfl
  | some s' => rfl

theorem runCall_zoom {t : Task L σ α} (ht : t.NeverWaits) (label : L → ServoAccess)
    (p : Task.Part Servo σ) (hw : ∀ l s h, ServoHistory.watch () (label l) s h = h) (s : Servo)
    (h : ServoHistory Unit) :
    ∃ b, runCall (do let _ ← t.zoom label p) (s, h) = some (p.set b s, h) := by
  obtain ⟨a, b, hr⟩ := Task.run_history_zoom_of_neverWaits ht label p hw s h
  refine ⟨b, ?_⟩
  rw [runCall, Task.history_bind, Task.run_bind, hr]
  rfl

theorem runCall_eq {t : Task ServoAccess Servo Unit} {r : Servo × ServoHistory Unit}
    (h : (t.history (ServoHistory.watch ())).run r = some (a, r')) : runCall t r = some r' := by
  rw [runCall, h]
  rfl

theorem Queued.step_Servo_Server {r : Servo × ServoHistory Unit} {q : Fifo Unit}
    (h : Queued r q) (now now' : UInt32) :
    ∃ r', runCall (Servo_Server now now') r = some r' ∧ Queued r' (q.serve () now now') := by
  obtain ⟨r', hrun, hrep⟩ := Servo_Server_refines h.represents () now now'
  refine ⟨r', runCall_eq hrun, hrep, h.exact.serve () now now', ?_⟩
  have henq : (q.serve () now now').history.enqueued = q.history.enqueued := by
    rw [Fifo.serve]
    split
    · rfl
    · split
      · split <;> rfl
      · rfl
  rw [henq]
  exact h.valid

theorem Fifo.add_enqueued (q : Fifo τ) (tag : τ) (now : UInt32) (action : act) (pace : Pace) :
    (q.add tag now action pace).history.enqueued = q.history.enqueued ++ [action] := by
  rw [Fifo.add]
  split <;> rfl

theorem Queued.step_Servo_Add_Action {r r' : Servo × ServoHistory Unit} {q : Fifo Unit}
    (h : Queued r q) (c : Request)
    (hrun : runCall (Servo_Add_Action New storage now c.id c.value c.time) r = some r') :
    ∃ s₂ node,
      New_action c.id c.value c.time { r.1 with Servo_Lock := true } = some (node, s₂) ∧
        Queued r' (q.add () now ⟨c.id, c.value⟩ node.pace) := by
  by_cases ha : Allowed New storage ⟨c.id, c.value⟩ r.1
  · obtain ⟨r₁, s₂, node, hnew, hrun₁, hrep⟩ :=
      Servo_Add_Action_refines h.represents ha () now c.time
    rw [runCall_eq hrun₁] at hrun
    cases hrun
    refine ⟨s₂, node, hnew, hrep, h.exact.add _ _ _ _, ?_⟩
    rw [Fifo.add_enqueued]
    intro a hm
    rcases List.mem_append.1 hm with hm | hm
    · exact h.valid a hm
    · rw [List.mem_singleton.1 hm]
      exact ha.2.2.2
  · have hn : ¬(ServoCall.Servo_Add_Action New storage now ⟨c.id, c.value⟩ c.time).Allowed r.1 :=
      ha
    have hnone := run_of_not_allowed hn ()
    rw [ServoCall.run, ServoCall.task] at hnone
    rw [runCall, hnone] at hrun
    cases hrun

theorem Queued.step_other {r r' : Servo × ServoHistory Unit} {q : Fifo Unit} (h : Queued r q)
    {c : RosCall} (hc : ∀ a, c ≠ .Servo_Add_Action a)
    (hrun : runCall (c.task New storage now) r = some r') :
    Queued r' { q with steppers := r'.1.steppers } := by
  obtain ⟨s, history⟩ := r
  have hlock : s.Servo_Lock = false := h.represents.unlocked
  cases c with
  | Servo_Add_Action c => exact absurd rfl (hc c)
  | change_servo_speed id speed =>
    cases hid : id.toUInt32 with
    | none =>
      rw [RosCall.task, hid] at hrun
      cases hrun
    | some id =>
      rw [RosCall.task, hid] at hrun
      dsimp only at hrun
      rw [change_servo_speed, runCall_locked hlock] at hrun
      by_cases hlt : (get_array_seq id).toNat < 10
      · rw [dif_pos hlt] at hrun
        cases hrun
        exact h.congr rfl rfl rfl rfl rfl
      · rw [dif_neg hlt] at hrun
        cases hrun
  | Is_Servo_Idle =>
    have heq : runCall (RosCall.Is_Servo_Idle.task New storage now) (s, history) =
        some ({ s with Servo_Lock := false }, history) := by
      simp [runCall, RosCall.task, Is_Servo_Idle, xSemaphoreTake, xSemaphoreGive, Task.await,
        Task.history, Task.run, hlock, ServoHistory.watch]
    rw [heq] at hrun
    cases hrun
    exact h.congr rfl rfl rfl rfl rfl
  | last_mode_servo value =>
    cases hrun
    exact h.congr rfl rfl rfl rfl hlock

theorem Queued.step_ros {r r' : Servo × ServoHistory Unit} {q : Fifo Unit} (h : Queued r q)
    (c : RosCall) (hrun : runCall (c.task New storage now) r = some r') : ∃ q', Queued r' q' := by
  by_cases hc : ∃ a, c = .Servo_Add_Action a
  · obtain ⟨a, rfl⟩ := hc
    obtain ⟨s₂, node, -, hq⟩ := h.step_Servo_Add_Action a hrun
    exact ⟨_, hq⟩
  · exact ⟨_, h.step_other (fun a he => hc ⟨a, he⟩) hrun⟩

theorem neverWaits_set_stepper (steps : Int) : (Axis.set_stepper steps).NeverWaits :=
  Task.neverWaits_bind (Task.neverWaits_access _ _ _) fun _ => Task.neverWaits_access _ _ _

theorem Queued.step_start {r : Servo × ServoHistory Unit} {q : Fifo Unit} (h : Queued r q)
    {c : StartCall} (hc : c.Sound) :
    ∃ r', runCall c.task r = some r' ∧ Queued r' { q with steppers := r'.1.steppers } := by
  obtain ⟨s, history⟩ := r
  have hlock : s.Servo_Lock = false := h.represents.unlocked
  have haxis {t : Task AxisAccess Steppers Unit} (ht : t.NeverWaits) :
      ∃ r', runCall (t.zoom .axis Servo.steppersPart) (s, history) = some r' ∧
        Queued r' { q with steppers := r'.1.steppers } := by
    have hw (l : AxisAccess) (s : Servo) (h : ServoHistory Unit) :
        ServoHistory.watch () (.axis l) s h = h := rfl
    obtain ⟨a, b, hr⟩ := Task.run_history_zoom_of_neverWaits ht ServoAccess.axis
      Servo.steppersPart hw s history
    exact ⟨_, runCall_eq hr, h.congr rfl rfl rfl rfl hlock⟩
  have hbus {t : Task BusAccess Bus Int} (ht : t.NeverWaits) :
      ∃ r', runCall (do let _ ← t.zoom .scs Servo.busPart) (s, history) = some r' ∧
        Queued r' { q with steppers := r'.1.steppers } := by
    obtain ⟨b, hr⟩ := runCall_zoom ht ServoAccess.scs Servo.busPart (fun _ _ _ => rfl) s history
    exact ⟨_, hr, h.congr rfl rfl rfl rfl hlock⟩
  cases c with
  | set_stepper_1 steps => exact haxis ((neverWaits_set_stepper steps).zoom id Steppers.part1)
  | set_stepper_2 steps => exact haxis ((neverWaits_set_stepper steps).zoom id Steppers.part2)
  | WritePosSCS ID Position Time Speed => exact hbus (neverWaits_genWrite _ _ _ _)
  | WritePosSTS ID Position Speed ACC => exact hbus (neverWaits_genWrite _ _ _ _)
  | update_Servo_state id value =>
    rw [StartCall.task, update_Servo_state, runCall_locked hlock]
    obtain ⟨h₁, h₂, hlt⟩ := servo_id hc.1
    rw [if_neg h₁, if_neg h₂, dif_pos hlt]
    exact ⟨_, rfl, h.congr rfl rfl rfl rfl rfl⟩

/-! ### Runs -/

structure Arm.Sound (s : Arm) : Prop where
  queue : ∃ q, Queued s.queue q
  ros : ∀ c ∈ s.ros, c.Sound
  servo : ∀ c ∈ s.servo, c.Sound

theorem queued_start : Queued ({}, {}) {} :=
  ⟨represents_empty {}, ⟨rfl, fun _ => rfl⟩, fun _ ha => absurd ha List.not_mem_nil⟩

theorem Arm.sound_start : ({} : Arm).Sound :=
  ⟨⟨{}, queued_start⟩, fun _ hc => absurd hc List.not_mem_nil, startup_sound⟩

theorem Arm.Sound.step {s : Arm} (h : s.Sound) (e : ArmEvent) : (s.step e).Sound := by
  obtain ⟨⟨q, hq⟩, hros, hservo⟩ := h
  cases e with
  | recv m =>
    rw [Arm.step]
    split
    · exact ⟨⟨q, hq⟩, callback_arm_sound m, hservo⟩
    · exact ⟨⟨q, hq⟩, hros, hservo⟩
  | KEY1 =>
    rw [Arm.step]
    split
    · exact ⟨⟨q, hq⟩, Routine.Sound.calls (by decide : Servo_InitPos.Sound), hservo⟩
    · exact ⟨⟨q, hq⟩, hros, hservo⟩
  | KEY2 => exact Arm.sound_start
  | ros New storage now =>
    rw [Arm.step, Arm.step_ros]
    split
    · exact ⟨⟨q, hq⟩, hros, hservo⟩
    · rename_i c cs hcs
      split
      · exact ⟨⟨q, hq⟩, hros, hservo⟩
      · rename_i queue hrun
        rw [hcs] at hros
        exact ⟨hq.step_ros c hrun, fun c hc => hros c (List.mem_cons_of_mem _ hc), hservo⟩
  | servo now now' =>
    rw [Arm.step, Arm.step_servo]
    split
    · rename_i hcs
      obtain ⟨r', hrun, hq'⟩ := hq.step_Servo_Server now now'
      rw [hrun]
      exact ⟨⟨_, hq'⟩, hros, hservo⟩
    · rename_i c cs hcs
      rw [hcs] at hservo
      obtain ⟨r', hrun, hq'⟩ := hq.step_start (hservo c List.mem_cons_self)
      rw [hrun]
      exact ⟨⟨_, hq'⟩, hros, fun c hc => hservo c (List.mem_cons_of_mem _ hc)⟩
  | hardware steppers rx =>
    exact ⟨⟨_, hq.congr rfl rfl rfl rfl hq.represents.unlocked⟩, hros, hservo⟩

end RobotCar

import RobotCar.Servo

namespace RobotCar
open Concurrent
set_option autoImplicit true

/-- A property of tasks that a sequence of them has if each of them has it. -/
structure Closed (P : (α : Type) → Task ServoAccess Servo α → Prop) : Prop where
  pure : ∀ {α : Type} (a : α), P α (pure a)
  bind : ∀ {α β : Type} {t : Task ServoAccess Servo α} {f : α → Task ServoAccess Servo β},
    P α t → (∀ a, P β (f a)) → P β (t >>= f)
  read : ∀ {α : Type} (g : Servo → α), P α (Task.read .queue g)
  undefined : P Unit undefinedBehavior

/-- A property of all steps of a command to an actuator. -/
structure ActuatorRule (P : (α : Type) → Task ServoAccess Servo α → Prop) : Prop
    extends Closed P where
  issue : ∀ action time, P Unit (Task.update (.command action time) id)
  axis : ∀ t : Task AxisAccess Steppers Unit, P Unit (t.zoom .axis Servo.steppersPart)
  WritePosSCS : ∀ ID Position Time Speed,
    P Int ((WritePosSCS ID Position Time Speed).zoom .scs Servo.busPart)
  WritePosSTS : ∀ ID Position Speed ACC,
    P Int ((WritePosSTS ID Position Speed ACC).zoom .scs Servo.busPart)

/-- Only variables of the queue differ. -/
def QueueOnly (s s' : Servo) : Prop :=
  s' = { s with
    heap := s'.heap, Current := s'.Current, Last := s'.Last, time_start := s'.time_start }

theorem QueueOnly.bus (h : QueueOnly s s') : s'.bus = s.bus := by rw [h]

theorem QueueOnly.Servo_Lock (h : QueueOnly s s') : s'.Servo_Lock = s.Servo_Lock := by rw [h]

theorem QueueOnly.servo_speed (h : QueueOnly s s') : s'.servo_speed = s.servo_speed := by rw [h]

theorem QueueOnly.servo_lastvalue (h : QueueOnly s s') :
    s'.servo_lastvalue = s.servo_lastvalue := by rw [h]

/-- A property of all steps on the queue, and of the commands to the actuators. -/
structure QueueRule (P : (α : Type) → Task ServoAccess Servo α → Prop) : Prop
    extends Closed P where
  update : ∀ f, (∀ s, QueueOnly s (f s)) → P Unit (Task.update .queue f)
  command : ∀ time speed action, P Unit (command time speed action)

section
variable {P : (α : Type) → Task ServoAccess Servo α → Prop}

theorem ActuatorRule.WritePos (h : ActuatorRule P) (ID : UInt8) (Position Time Speed : UInt16) :
    P Unit (WritePos ID Position Time Speed) := by
  apply h.bind (h.read id)
  intro s
  split
  · dsimp only
    split
    · exact h.bind (h.WritePosSCS _ _ _ _) fun _ => h.pure ()
    · split
      · exact h.bind (h.WritePosSTS _ _ _ _) fun _ => h.pure ()
      · exact h.bind (h.WritePosSTS _ _ _ _) fun _ => h.pure ()
  · exact h.undefined

theorem ActuatorRule.command (h : ActuatorRule P) (time : UInt32) (speed : Int) (action : act) :
    P Unit (command time speed action) := by
  apply h.bind (h.issue action time)
  intro _
  split
  · exact h.WritePos _ _ _ _
  split
  · exact h.bind (h.axis _) fun _ => h.axis _
  split
  · exact h.bind (h.axis _) fun _ => h.axis _
  · exact h.pure ()

theorem ActuatorRule.queue (h : ActuatorRule P)
    (hu : ∀ f, (∀ s, QueueOnly s (f s)) → P Unit (Task.update .queue f)) : QueueRule P where
  toClosed := h.toClosed
  update := hu
  command := h.command

namespace QueueRule

theorem dispatch (h : QueueRule P) (time : UInt32) (speed : Int) (acts : List act) :
    P Unit (dispatch time speed acts) := by
  induction acts with
  | nil => exact h.pure ()
  | cons action acts ih =>
    apply h.bind (h.command time speed action)
    intro _
    exact h.bind (h.update erase_first fun _ => rfl) fun _ => ih

theorem dispatch_Current (h : QueueRule P) : P Unit dispatch_Current := by
  apply h.bind (h.read _)
  intro node
  cases node with
  | none => exact h.undefined
  | some node => exact h.dispatch node.time node.speed node.acts

theorem Servo_Server_body (h : QueueRule P) (now now' : UInt32) :
    P Unit (Servo_Server_body now now') := by
  apply h.bind (h.read id)
  intro s
  split
  · cases s.heap s.Current with
    | none => exact h.undefined
    | some node =>
      dsimp only
      split
      · apply h.bind (h.update (retire node.Next) fun _ => rfl)
        intro _
        split
        · exact h.bind h.dispatch_Current fun _ => h.update _ fun _ => rfl
        · exact h.pure ()
      · exact h.pure ()
  · exact h.pure ()

theorem begin_queue (h : QueueRule P) (now : UInt32) (Current : Nat) :
    P Unit (if Current = 0 then do
        RobotCar.dispatch_Current
        Task.update .queue fun s => { s with time_start := now }
      else Pure.pure ()) := by
  split
  · exact h.bind h.dispatch_Current fun _ => h.update _ fun _ => rfl
  · exact h.pure ()

theorem Servo_Add_Action_body (h : QueueRule P) (New storage : Nat) (now : UInt32) (action : act)
    (time : Int)
    (henqueue : P Unit (Task.await (.enqueue action)
      (enqueue New storage action.id action.value time))) :
    P Unit (Servo_Add_Action_body New storage now action.id action.value time) := by
  apply h.bind (h.read _)
  intro Current
  exact h.bind henqueue fun _ => h.begin_queue now Current

end QueueRule

end

end RobotCar

import RobotCar.Control

namespace RobotCar
open Concurrent
set_option autoImplicit true
set_option linter.unusedSectionVars false

/-- The messages on the topics that command the drive. -/
inductive Message (K : Type) where
  | speed (point : Vec K)
  | pos (point : Vec K)
  | speedlimit (data : K)
  | mode (data : UInt8)
  | stop (data : Bool)

section
variable {K : Type} [Field K] [LinearOrder K] [FloorRing K]

def R : K := 155724 / 10000

def publish_car_status [Libm K] : Task (ControlCall K) (Car K) Unit := do
  let error ← Get_Error
  Task.update (.rcl_publish error) fun s => s

/-- A speed in cm/s, as wheel counts for each tick. -/
def speed_Move (msgin : Vec K) : Vec K where
  X := msgin.X * (178731 / 10000)
  Y := msgin.Y * (178731 / 10000)
  Z := msgin.Z * R * (178731 / 10000) / (116667 / 100000)

/-- A position in cm, as wheel counts. -/
def pos_Move (msgin : Vec K) : Vec K where
  X := msgin.X * (17873100 / 10000)
  Y := msgin.Y * (17873100 / 10000)
  Z := msgin.Z * R * (17873100 / 10000) / (116667 / 100000)

/-- A pose in wheel counts, as a position in cm. -/
def pos_msg (NOW : Vec K) : Vec K where
  X := NOW.X / (17873100 / 10000)
  Y := NOW.Y / (17873100 / 10000)
  Z := NOW.Z / (17873100 / 10000) / R

def publish_pos : Task (ControlCall K) (Car K) (Vec K) := do
  let NOW ← Get_Position_NOW
  pure (pos_msg NOW)

def callback_speed (msgin : Vec K) : Task (ControlCall K) (Car K) Unit := do
  Set_Run_Flag 0
  Set_Move (speed_Move msgin)

/-- A change from speed mode to absolute positioning takes the present position as the last
target. -/
def callback_pos_entry : Task (ControlCall K) (Car K) Unit := do
  let flag ← Get_Run_Flag
  if flag = 0 then
    let rel ← Get_relative
    if rel = 0 then
      let NOW ← Get_Position_NOW
      Set_Last_Target NOW

def callback_pos_pending : Task (ControlCall K) (Car K) Unit := do
  let rel ← Get_relative
  if rel = 1 then
    Set_pending_flag 1

def callback_pos [Libm K] (msgin : Vec K) : Task (ControlCall K) (Car K) Unit := do
  callback_pos_entry
  Set_Run_Flag 1
  Set_Move (pos_Move msgin)
  callback_pos_pending
  publish_car_status

def callback_speedlimit (data : K) : Task (ControlCall K) (Car K) Unit :=
  Set_RC_Velocity (data * (178731 / 10000))

/-- A change from relative to absolute positioning in position mode keeps the present position as
the target. -/
def callback_mode_entry : Task (ControlCall K) (Car K) Unit := do
  let flag ← Get_Run_Flag
  if flag = 1 then
    let rel ← Get_relative
    if rel = 1 then
      let NOW ← Get_Position_NOW
      Set_Last_Target NOW
      Set_Move NOW

def callback_mode_change (data : UInt8) : Task (ControlCall K) (Car K) Unit := do
  let rel ← Get_relative
  if rel ≠ data then
    callback_mode_entry
    Set_relative data

def callback_mode [Libm K] (data : UInt8) : Task (ControlCall K) (Car K) Unit := do
  callback_mode_change data
  publish_car_status

def callback_stop (data : Bool) : Task (ControlCall K) (Car K) Unit := do
  if data then
    Set_Run_Flag 0
    Set_Move ⟨0, 0, 0⟩

def callback [Libm K] : Message K → Task (ControlCall K) (Car K) Unit
  | .speed point => callback_speed point
  | .pos point => callback_pos point
  | .speedlimit data => callback_speedlimit data
  | .mode data => callback_mode data
  | .stop data => callback_stop data

end

/-- What runs between the critical sections of a callback: the control task, which has the higher
priority, and the encoder hardware. -/
inductive CarEvent where
  | Control
  | encoders (counters : Counters)

/-- The ROS task handles one message after another. -/
def carClient (K : Type) [Field K] [LinearOrder K] [FloorRing K] [Libm K] :
    Client (ControlCall K) (Car K) (Message K) CarEvent where
  handler := callback
  env
    | .Control => Control
    | .encoders counters => fun s => { s with counters := counters }

section
variable {K : Type} [Field K] [LinearOrder K] [FloorRing K] [Libm K]

theorem carClient_env (e : CarEvent) (s : Car K) :
    ((carClient K).env e s).Run_Flag = s.Run_Flag ∧ ((carClient K).env e s).Move = s.Move ∧
      ((carClient K).env e s).relative = s.relative := by
  cases e with
  | Control => exact ⟨Control_Run_Flag s, Control_Move s, Control_relative s⟩
  | encoders counters => exact ⟨rfl, rfl, rfl⟩

theorem run_callback_pos_entry (s : Car K) :
    callback_pos_entry.run s =
      some ((), if s.Run_Flag = 0 ∧ s.relative = 0 then { s with Last_Target := Position_NOW s }
        else s) := by
  by_cases h : s.Run_Flag = 0
  · by_cases hr : s.relative = 0 <;>
      simp [callback_pos_entry, Get_Run_Flag, Get_relative, Get_Position_NOW, Set_Last_Target,
        h, hr]
  · simp [callback_pos_entry, Get_Run_Flag, h]

theorem run_callback_pos_pending (s : Car K) :
    callback_pos_pending.run s =
      some ((), if s.relative = 1 then { s with pending_flag := 1 } else s) := by
  by_cases h : s.relative = 1 <;>
    simp [callback_pos_pending, Get_relative, Set_pending_flag, h]

/-- What `callback_pos` does when nothing preempts it. -/
theorem exec_callback_pos (msgin : Vec K) (s : Car K) :
    (callback_pos msgin).exec s =
      let s := if s.Run_Flag = 0 ∧ s.relative = 0 then { s with Last_Target := Position_NOW s }
        else s
      let s := { s with Run_Flag := 1, Move := pos_Move msgin }
      if s.relative = 1 then { s with pending_flag := 1 } else s := by
  simp only [Task.exec, callback_pos, publish_car_status, Set_Run_Flag, Set_Move, Get_Error,
    Task.run_bind, Task.run_update, Task.run_read, Option.bind_some, run_callback_pos_entry,
    run_callback_pos_pending]
  rfl

theorem exec_callback_speed (msgin : Vec K) (s : Car K) :
    (callback_speed msgin).exec s = { s with Run_Flag := 0, Move := speed_Move msgin } := rfl

theorem exec_callback_stop (data : Bool) (s : Car K) :
    (callback_stop data).exec s =
      if data then { s with Run_Flag := 0, Move := ⟨0, 0, 0⟩ } else s := by
  cases data <;> rfl

/-! ### What the messages cannot reach -/

def Commands (_ : ControlCall K) (s s' : Car K) : Prop :=
  s' = { s with
    Run_Flag := s'.Run_Flag
    Move := s'.Move
    relative := s'.relative
    pending_flag := s'.pending_flag
    RC_Velocity := s'.RC_Velocity
    Last_Target := s'.Last_Target }

theorem commands_read (l : ControlCall K) (g : Car K → α) : (Task.read l g).Only Commands :=
  Task.only_access _ fun _ => rfl

theorem publish_commands : (publish_car_status (K := K)).Only Commands :=
  Task.only_bind (commands_read _ _) fun _ => Task.only_access _ fun _ => rfl

theorem pos_entry_commands : (callback_pos_entry (K := K)).Only Commands := by
  apply Task.only_bind (commands_read _ _)
  intro flag
  apply Task.only_ite _ (Task.only_pure ())
  apply Task.only_bind (commands_read _ _)
  intro rel
  apply Task.only_ite _ (Task.only_pure ())
  apply Task.only_bind (commands_read _ _)
  intro NOW
  exact Task.only_access _ fun _ => rfl

theorem mode_change_commands (data : UInt8) :
    (callback_mode_change (K := K) data).Only Commands := by
  apply Task.only_bind (commands_read _ _)
  intro rel
  apply Task.only_ite _ (Task.only_pure ())
  apply Task.only_bind
  · apply Task.only_bind (commands_read _ _)
    intro flag
    apply Task.only_ite _ (Task.only_pure ())
    apply Task.only_bind (commands_read _ _)
    intro rel
    apply Task.only_ite _ (Task.only_pure ())
    apply Task.only_bind (commands_read _ _)
    intro NOW
    apply Task.only_bind
    · exact Task.only_access _ fun _ => rfl
    · exact fun _ => Task.only_access _ fun _ => rfl
  · exact fun _ => Task.only_access _ fun _ => rfl

theorem callback_commands (m : Message K) : (callback m).Only Commands := by
  cases m with
  | speed point =>
    apply Task.only_bind
    · exact Task.only_access _ fun _ => rfl
    · exact fun _ => Task.only_access _ fun _ => rfl
  | pos point =>
    apply Task.only_bind pos_entry_commands
    intro _
    apply Task.only_bind
    · exact Task.only_access _ fun _ => rfl
    intro _
    apply Task.only_bind
    · exact Task.only_access _ fun _ => rfl
    intro _
    apply Task.only_bind
    · apply Task.only_bind (commands_read _ _)
      intro rel
      exact Task.only_ite (Task.only_access _ fun _ => rfl) (Task.only_pure ())
    · exact fun _ => publish_commands
  | speedlimit data => exact Task.only_access _ fun _ => rfl
  | mode data => exact Task.only_bind (mode_change_commands data) fun _ => publish_commands
  | stop data =>
    apply Task.only_ite _ (Task.only_pure ())
    apply Task.only_bind
    · exact Task.only_access _ fun _ => rfl
    · exact fun _ => Task.only_access _ fun _ => rfl

end

end RobotCar

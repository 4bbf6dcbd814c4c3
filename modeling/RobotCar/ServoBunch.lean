import RobotCar.Lib.Words
import RobotCar.ServoQueue

namespace RobotCar
open Concurrent CArith Words
set_option autoImplicit true

/-! ### The bunch enqueue -/

/-- What an axis of a bunch needs for its move, in ms: the difference is an unsigned one. -/
def bunch_stepper_time (value : UInt32) (lastvalue speed : Int) : Int :=
  toInt32 ((value - UInt32.ofInt lastvalue).toNat * 2 * (speed : ℚ) / 10)

def fill_act (time : Int) (r : action_servo × Servo) (a : act) : Option (action_servo × Servo) :=
  let (New, s) := r
  let value := a.value.toInt32.toInt
  let speed := if time ≠ -1 then time else if New.speed = -1 then 2 else New.speed
  if a.id = 0xFFF0 then
    let lastvalue := if s.Current = 0 then get_steps_1 s.steppers else s.stepper_lastvalue1
    let stepper_time := bunch_stepper_time a.value lastvalue speed
    some ({ New with time := UInt32.ofInt stepper_time, speed := speed },
      { s with stepper_lastvalue1 := value })
  else if a.id = 0xFFF1 then
    let lastvalue := if s.Current = 0 then get_steps_2 s.steppers else s.stepper_lastvalue2
    let stepper_time := bunch_stepper_time a.value lastvalue speed
    some ({ New with time := UInt32.ofInt stepper_time, speed := speed },
      { s with stepper_lastvalue2 := value })
  else if h : (get_array_seq a.id).toNat < 10 then
    let i : Fin 10 := ⟨_, h⟩
    let New := if time = -1 then
        { New with
          time := UInt32.ofInt (servo_time value (s.servo_lastvalue i) (s.servo_speed i)) }
      else New
    some (New, { s with servo_lastvalue := Function.update s.servo_lastvalue i value })
  else none

/-- The part of `Servo_Add_Action_bunch` that fills the node `New`. -/
def New_bunch (acts : List act) (time : Int) (s : Servo) : Option (action_servo × Servo) :=
  acts.foldlM (fill_act time) (⟨0, acts, UInt32.ofInt time, -1⟩, s)

/-- The new node, at an address that is not in use; a copy of no actions needs no storage. -/
def enqueue_bunch (New storage : Nat) (acts : List act) (time : Int) (s : Servo) : Option Servo :=
  if New = 0 ∨ (acts ≠ [] ∧ storage = 0) ∨ s.heap New ≠ none then none
  else (New_bunch acts time s).bind fun r => link New r.1 r.2

/-- The dispatch loop of the bunch erases nothing. It tells whether it has ended after `fuel`
tests of its condition. -/
def dispatch_bunch : Nat → Task ServoAccess Servo Bool
  | 0 => pure false
  | fuel + 1 => do
    match ← Task.read .queue fun s => s.heap s.Current with
    | none =>
      undefinedBehavior
      pure false
    | some node =>
      match node.acts with
      | [] => pure true
      | action :: _ =>
        command node.time node.speed action
        dispatch_bunch fuel

/-- The actions of the new node, for the record. -/
def record_acts : List act → Task ServoAccess Servo Unit
  | [] => pure ()
  | action :: acts => do
    Task.update (.enqueue action) id
    record_acts acts

/-- What `Servo_Add_Action_bunch` does under the lock, and whether it has ended. -/
def Servo_Add_Action_bunch_body (fuel New storage : Nat) (now : UInt32) (acts : List act)
    (time : Int) : Task ServoAccess Servo Bool := do
  let Current ← Task.read .queue Servo.Current
  record_acts acts
  Task.await .queue (enqueue_bunch New storage acts time)
  if Current = 0 then
    if ← dispatch_bunch fuel then
      Task.update .queue fun s => { s with time_start := now }
      pure true
    else pure false
  else pure true

/-- The addresses and `now` are as for `Servo_Add_Action`. -/
def Servo_Add_Action_bunch (fuel New storage : Nat) (now : UInt32) (acts : List act)
    (time : Int) : Task ServoAccess Servo Bool := do
  xSemaphoreTake
  if ← Servo_Add_Action_bunch_body fuel New storage now acts time then
    xSemaphoreGive
    pure true
  else pure false

/-! ### What the loop leaves -/

/-- The remembered positions after an action. -/
def Servo.remember (s : Servo) (a : act) : Servo :=
  let value := a.value.toInt32.toInt
  if a.id = 0xFFF0 then { s with stepper_lastvalue1 := value }
  else if a.id = 0xFFF1 then { s with stepper_lastvalue2 := value }
  else if h : (get_array_seq a.id).toNat < 10 then
    { s with servo_lastvalue := Function.update s.servo_lastvalue ⟨_, h⟩ value }
  else s

/-- What an action needs in a bunch without a time, in ms: the way from the remembered position
at the speed of its actuator. -/
def Servo.duration (s : Servo) (a : act) : Int :=
  let value := a.value.toInt32.toInt
  if a.id = 0xFFF0 then
    let lastvalue := if s.Current = 0 then get_steps_1 s.steppers else s.stepper_lastvalue1
    bunch_stepper_time a.value lastvalue 2
  else if a.id = 0xFFF1 then
    let lastvalue := if s.Current = 0 then get_steps_2 s.steppers else s.stepper_lastvalue2
    bunch_stepper_time a.value lastvalue 2
  else if h : (get_array_seq a.id).toNat < 10 then
    servo_time value (s.servo_lastvalue ⟨_, h⟩) (s.servo_speed ⟨_, h⟩)
  else 0

/-- What the members of a bunch need, each from where the members before it leave its actuator. -/
def Servo.durations (s : Servo) : List act → List Int
  | [] => []
  | a :: acts => s.duration a :: (s.remember a).durations acts

theorem valid_cases {P : act → Prop} (axis1 : ∀ a : act, a.id = 0xFFF0 → P a)
    (axis2 : ∀ a : act, a.id ≠ 0xFFF0 → a.id = 0xFFF1 → P a)
    (servo : ∀ a : act, a.id ≠ 0xFFF0 → a.id ≠ 0xFFF1 → (get_array_seq a.id).toNat < 10 → P a)
    {a : act} (hv : Valid a) : P a := by
  by_cases h₁ : a.id = 0xFFF0
  · exact axis1 a h₁
  by_cases h₂ : a.id = 0xFFF1
  · exact axis2 a h₁ h₂
  rcases hv with hid | hid | hid
  · exact servo a h₁ h₂ hid
  · exact absurd hid h₁
  · exact absurd hid h₂

theorem remember_frame (s : Servo) (a : act) :
    s.remember a = { s with
      stepper_lastvalue1 := (s.remember a).stepper_lastvalue1
      stepper_lastvalue2 := (s.remember a).stepper_lastvalue2
      servo_lastvalue := (s.remember a).servo_lastvalue } := by
  unfold Servo.remember
  dsimp only
  split
  · rfl
  split
  · rfl
  split
  · rfl
  · rfl

theorem remember_all_frame (s : Servo) (acts : List act) :
    acts.foldl Servo.remember s = { s with
      stepper_lastvalue1 := (acts.foldl Servo.remember s).stepper_lastvalue1
      stepper_lastvalue2 := (acts.foldl Servo.remember s).stepper_lastvalue2
      servo_lastvalue := (acts.foldl Servo.remember s).servo_lastvalue } := by
  induction acts generalizing s with
  | nil => rfl
  | cons a acts ih =>
    rw [List.foldl_cons, ih, remember_frame]

theorem fill_act_eq (hv : Valid a) (time : Int) (New : action_servo) (s : Servo) :
    ∃ t speed,
      fill_act time (New, s) a = some ({ New with time := t, speed := speed }, s.remember a) ∧
      (time = -1 → New.speed = -1 ∨ New.speed = 2 →
        t = UInt32.ofInt (s.duration a) ∧ (speed = -1 ∨ speed = 2)) := by
  have hspeed (hNew : New.speed = -1 ∨ New.speed = 2) :
      (if New.speed = -1 then 2 else New.speed) = 2 := by
    split
    · rfl
    · exact hNew.resolve_left ‹_›
  unfold fill_act Servo.remember Servo.duration
  revert a
  apply valid_cases
  · intro a h₁
    simp only [if_pos h₁]
    refine ⟨_, _, rfl, ?_⟩
    rintro rfl hNew
    rw [if_neg (not_not.2 rfl), hspeed hNew]
    exact ⟨rfl, .inr rfl⟩
  · intro a h₁ h₂
    simp only [if_neg h₁, if_pos h₂]
    refine ⟨_, _, rfl, ?_⟩
    rintro rfl hNew
    rw [if_neg (not_not.2 rfl), hspeed hNew]
    exact ⟨rfl, .inr rfl⟩
  · intro a h₁ h₂ hid
    simp only [if_neg h₁, if_neg h₂, dif_pos hid]
    by_cases ht : time = -1
    · rw [if_pos ht]
      exact ⟨_, New.speed, rfl, fun _ hNew => ⟨rfl, hNew⟩⟩
    · rw [if_neg ht]
      exact ⟨New.time, New.speed, rfl, fun h => absurd h ht⟩

theorem fill_act_invalid (hv : ¬Valid a) (time : Int) (r : action_servo × Servo) :
    fill_act time r a = none := by
  have h₁ : a.id ≠ 0xFFF0 := fun h => hv (.inr (.inl h))
  have h₂ : a.id ≠ 0xFFF1 := fun h => hv (.inr (.inr h))
  have hid : ¬(get_array_seq a.id).toNat < 10 := fun h => hv (.inl h)
  unfold fill_act
  dsimp only
  rw [if_neg h₁, if_neg h₂, dif_neg hid]

theorem fill_acts_eq {acts : List act} (hv : ∀ a ∈ acts, Valid a) (time : Int)
    (New : action_servo) (s : Servo) :
    ∃ t speed, acts.foldlM (fill_act time) (New, s) =
        some ({ New with time := t, speed := speed }, acts.foldl Servo.remember s) ∧
      (time = -1 → New.speed = -1 ∨ New.speed = 2 →
        t = ((s.durations acts).map UInt32.ofInt).getLastD New.time) := by
  induction acts generalizing New s with
  | nil => exact ⟨New.time, New.speed, rfl, fun _ _ => rfl⟩
  | cons a acts ih =>
    obtain ⟨hva, hvs⟩ := List.forall_mem_cons.1 hv
    obtain ⟨t₁, speed₁, hfill, htime⟩ := fill_act_eq hva time New s
    obtain ⟨t, speed, hfills, htimes⟩ :=
      ih hvs { New with time := t₁, speed := speed₁ } (s.remember a)
    refine ⟨t, speed, ?_, ?_⟩
    · rw [List.foldlM_cons, hfill]
      exact hfills
    · intro hm hNew
      obtain ⟨rfl, hspeed⟩ := htime hm hNew
      rw [htimes hm hspeed, Servo.durations, List.map_cons, List.getLastD_cons]

theorem fill_acts_invalid {acts : List act} (hv : ¬∀ a ∈ acts, Valid a) (time : Int)
    (r : action_servo × Servo) :
    acts.foldlM (fill_act time) r = none := by
  induction acts generalizing r with
  | nil => exact absurd (List.forall_mem_nil _) hv
  | cons a acts ih =>
    rw [List.foldlM_cons]
    by_cases hva : Valid a
    · have hvs : ¬∀ a ∈ acts, Valid a := fun h => hv (List.forall_mem_cons.2 ⟨hva, h⟩)
      cases hfill : fill_act time r a with
      | none => rfl
      | some r' => exact ih hvs r'
    · rw [fill_act_invalid hva]
      rfl

theorem New_bunch_eq {acts : List act} (hv : ∀ a ∈ acts, Valid a) (time : Int) (s : Servo) :
    ∃ t speed, New_bunch acts time s =
        some (⟨0, acts, t, speed⟩, acts.foldl Servo.remember s) ∧
      (time = -1 → t = ((s.durations acts).map UInt32.ofInt).getLastD (UInt32.ofInt (-1))) := by
  obtain ⟨t, speed, hfill, htime⟩ := fill_acts_eq hv time ⟨0, acts, UInt32.ofInt time, -1⟩ s
  refine ⟨t, speed, hfill, ?_⟩
  rintro rfl
  exact htime rfl (.inl rfl)

/-- What the allocator promises of the addresses. -/
def Fresh (New storage : Nat) (acts : List act) (s : Servo) : Prop :=
  New ≠ 0 ∧ (acts ≠ [] → storage ≠ 0) ∧ s.heap New = none

theorem enqueue_bunch_eq {s : Servo} (h : Fresh New storage acts s) (time : Int) :
    enqueue_bunch New storage acts time s =
      (New_bunch acts time s).bind fun r => link New r.1 r.2 := by
  obtain ⟨hNew, hstorage, hfree⟩ := h
  rw [enqueue_bunch, if_neg]
  rintro (h | h | h)
  · exact hNew h
  · exact hstorage h.1 h.2
  · exact h hfree

theorem link_heap {s s' : Servo} (h : link New node s = some s') : s'.heap New = some node := by
  unfold link at h
  dsimp only at h
  split at h
  · cases h
    exact Function.update_self ..
  · obtain ⟨last, -, rfl⟩ := Option.map_eq_some_iff.1 h
    exact Function.update_self ..

theorem enqueue_bunch_holds {s : Servo} (hc : Holds s cells contents)
    (h : Fresh New storage acts s) (hv : ∀ a ∈ acts, Valid a) (time : Int) :
    ∃ s₁ node, New_bunch acts time s = some (node, acts.foldl Servo.remember s) ∧
      link New node (acts.foldl Servo.remember s) = some s₁ ∧
      enqueue_bunch New storage acts time s = some s₁ ∧ node.acts = acts ∧
      s₁.heap New = some node ∧ s₁.time_start = s.time_start ∧ s₁.steppers = s.steppers ∧
      Holds s₁ (cells ++ [New]) (contents ++ [(acts, node.pace)]) := by
  obtain ⟨t, speed, hnew, -⟩ := New_bunch_eq hv time s
  let node : action_servo := ⟨0, acts, t, speed⟩
  have hframe := remember_all_frame s acts
  have hc₂ : Holds (acts.foldl Servo.remember s) cells contents := by
    rw [hframe]
    exact hc.congr rfl rfl rfl
  have hfree : (acts.foldl Servo.remember s).heap New = none := by
    rw [hframe]
    exact h.2.2
  have hnext : node.Next = 0 := rfl
  obtain ⟨s₁, hlink, hs₁, hc₁⟩ := holds_link hc₂ h.1 hfree hnext
  refine ⟨s₁, node, hnew, hlink, ?_, rfl, link_heap hlink, ?_, ?_, hc₁⟩
  · rw [enqueue_bunch_eq h, hnew, Option.bind_some, hlink]
  · rw [hs₁, hframe]
  · rw [hs₁, hframe]

theorem enqueue_bunch_invalid {acts : List act} (hv : ¬∀ a ∈ acts, Valid a) (New storage : Nat)
    (time : Int) (s : Servo) : enqueue_bunch New storage acts time s = none := by
  unfold enqueue_bunch
  split
  · rfl
  · rw [New_bunch, fill_acts_invalid hv]
    rfl

/-! ### Bunches of one action -/

/-- The two formulas for the time of an axis agree: both times round to 0, or are too long for
32 bits. -/
def SamePace (value : UInt32) (lastvalue speed : Int) : Prop :=
  let distance := |wrap32 (value.toInt32.toInt - lastvalue)|
  |(value - UInt32.ofInt lastvalue).toNat * speed| < 5 ∨
    21474836470 ≤ distance * speed ∨ distance * speed ≤ -21474836480

/-- Where the two enqueues give an action the same time, on a queue with a head. -/
def SameTime (a : act) (time : Int) (s : Servo) : Prop :=
  if a.id = 0xFFF0 then SamePace a.value s.stepper_lastvalue1 (stepper_speed time)
  else if a.id = 0xFFF1 then SamePace a.value s.stepper_lastvalue2 (stepper_speed time)
  else time ≠ -1

end RobotCar

import RobotCar.ServoWire

namespace RobotCar
open Concurrent CArith Rounding Transition
set_option autoImplicit true

/-! ### The values that were commanded last -/

/-- The last value that was commanded to each servo. -/
def commanded (start : Fin 10 → Int) (enqueued : List act) : Fin 10 → Int :=
  enqueued.foldl (fun last action =>
    if IsServo action then Function.update last (entry action.id) action.value.toInt32.toInt
    else last) start

theorem commanded_concat (start : Fin 10 → Int) (enqueued : List act) (action : act) :
    commanded start (enqueued ++ [action]) =
      if IsServo action then
        Function.update (commanded start enqueued) (entry action.id) action.value.toInt32.toInt
      else commanded start enqueued := by
  rw [commanded, List.foldl_append]
  rfl

/-- A step that stores a value for a servo exactly if it enqueues an action for it. -/
def Stores (l : ServoAccess) (s s' : Servo) : Prop :=
  match l with
  | .enqueue action => s'.servo_lastvalue =
      if IsServo action then
        Function.update s.servo_lastvalue (entry action.id) action.value.toInt32.toInt
      else s.servo_lastvalue
  | _ => s'.servo_lastvalue = s.servo_lastvalue

theorem stores_read (g : Servo → α) : (Task.read .queue g).Only Stores :=
  Task.only_access _ fun _ => rfl

theorem stores_undefined : undefinedBehavior.Only Stores := Task.only_await fun _ _ h => nomatch h

theorem stores_take : xSemaphoreTake.Only Stores := by
  apply Task.only_await
  intro s s' h
  split at h
  · cases h
  · cases h
    rfl

theorem stores_give : xSemaphoreGive.Only Stores := Task.only_access _ fun _ => rfl

theorem stores_axis (t : Task AxisAccess Steppers α) :
    (t.zoom .axis Servo.steppersPart).Only Stores := by
  apply (t.only_true.zoom ServoAccess.axis Servo.steppersPart).mono
  rintro l s s' ⟨l', a, rfl, rfl, -⟩
  rfl

theorem stores_scs (t : Task BusAccess Bus α) : (t.zoom .scs Servo.busPart).Only Stores := by
  apply (t.only_true.zoom ServoAccess.scs Servo.busPart).mono
  rintro l s s' ⟨l', a, rfl, rfl, -⟩
  rfl

theorem stores_queue : QueueRule fun _ t => t.Only Stores := by
  apply ActuatorRule.queue
  · constructor
    · exact ⟨Task.only_pure, Task.only_bind, stores_read, stores_undefined⟩
    · exact fun _ _ => Task.only_access _ fun _ => rfl
    · exact stores_axis
    · exact fun _ _ _ _ => stores_scs _
    · exact fun _ _ _ _ => stores_scs _
  · exact fun f hf => Task.only_access _ fun s => (hf s).servo_lastvalue

theorem stores_Servo_Server (now now' : UInt32) : (Servo_Server now now').Only Stores := by
  apply Task.only_bind stores_take
  intro _
  exact Task.only_bind (stores_queue.Servo_Server_body now now') fun _ => stores_give

theorem stores_change_servo_speed (id : UInt32) (speed : ℚ) :
    (change_servo_speed id speed).Only Stores := by
  apply Task.only_bind stores_take
  intro _
  apply Task.only_bind _ fun _ => stores_give
  apply Task.only_await
  intro s s' h
  split at h
  · cases h
    rfl
  · cases h

theorem New_action_stores {action : act}
    (h : New_action action.id action.value time s = some (node, s')) :
    s'.servo_lastvalue = if IsServo action then
      Function.update s.servo_lastvalue (entry action.id) action.value.toInt32.toInt
      else s.servo_lastvalue := by
  have haxis (hid : action.id = 0xFFF0 ∨ action.id = 0xFFF1) :
      s'.servo_lastvalue = if IsServo action then
        Function.update s.servo_lastvalue (entry action.id) action.value.toInt32.toInt
        else s.servo_lastvalue := by
    have hno : ¬IsServo action = true := by
      rcases hid with hid | hid <;> rw [IsServo, hid] <;> decide
    rw [if_neg hno]
    exact New_action_axis hid h
  by_cases h₁ : action.id = 0xFFF0
  · exact haxis (.inl h₁)
  by_cases h₂ : action.id = 0xFFF1
  · exact haxis (.inr h₂)
  rw [New_action, if_neg h₁, if_neg h₂] at h
  split at h
  · rename_i hlt
    have hservo : IsServo action = true := decide_eq_true (UInt32.lt_iff_toNat_lt.2 (by
      change (get_array_seq action.id).toNat < 0xFFF0
      omega))
    rw [if_pos hservo]
    cases h
    dsimp only
    rw [entry_eq hlt]
  · cases h

theorem stores_Servo_Add_Action (New storage : Nat) (now : UInt32) (action : act) (time : Int) :
    (Servo_Add_Action New storage now action.id action.value time).Only Stores := by
  apply Task.only_bind stores_take
  intro _
  apply Task.only_bind _ fun _ => stores_give
  apply stores_queue.Servo_Add_Action_body
  apply Task.only_await
  intro s s' h
  rw [enqueue] at h
  split at h
  · cases h
  · obtain ⟨⟨node, s₁⟩, hnew, hlink⟩ := Option.bind_eq_some_iff.1 h
    have hstores := New_action_stores hnew
    rw [link_frame hlink]
    exact hstores

/-! ### Runs -/

/-- A servo action that was enqueued: the value that was commanded before it, the speed of its
servo, and the wait in the node that it got. -/
structure Wait where
  action : act
  previous : Int
  speed : ℚ
  time : Option UInt32
  deriving DecidableEq, Repr

/-- A message on `/car/servo_speed` with finite fields, an action with the time -1, or a call of
the servo task. -/
inductive WaitEvent where
  | callback_servo_speed (x y : ℚ)
  | Servo_Add_Action (New storage : Nat) (now : UInt32) (action : act)
  | Servo_Server (now now' : UInt32)

namespace WaitEvent

def task : WaitEvent → Task ServoAccess Servo Unit
  | .callback_servo_speed x y => (RosCall.change_servo_speed (.finite x) (.finite y)).task 0 0 0
  | .Servo_Add_Action New storage now action =>
    RobotCar.Servo_Add_Action New storage now action.id action.value (-1)
  | .Servo_Server now now' => RobotCar.Servo_Server now now'

theorem task_stores (e : WaitEvent) : e.task.Only Stores := by
  cases e with
  | callback_servo_speed x y =>
    rw [task, RosCall.task]
    split
    · exact stores_change_servo_speed _ _
    · exact stores_undefined
  | Servo_Add_Action New storage now action =>
    exact stores_Servo_Add_Action New storage now action (-1)
  | Servo_Server now now' => exact stores_Servo_Server now now'

end WaitEvent

def last_time (s : Servo) : Option UInt32 := (s.heap s.Last).map action_servo.time

namespace Waited

/-- What a call that led from one state to the other has enqueued for a servo. -/
def watch (start : Servo) (r r' : Servo × ServoHistory Unit) : WaitEvent → List Wait
  | .Servo_Add_Action _ _ _ action =>
    if IsServo action then
      [⟨action, commanded start.servo_lastvalue r.2.enqueued (entry action.id),
        r.1.servo_speed (entry action.id), last_time r'.1⟩]
    else []
  | _ => []

/-- One call. One that the source leaves undefined is left out. -/
def step (start : Servo) (r : (Servo × ServoHistory Unit) × List Wait) (e : WaitEvent) :
    (Servo × ServoHistory Unit) × List Wait :=
  match runCall e.task r.1 with
  | none => r
  | some r' => (r', r.2 ++ watch start r.1 r' e)

end Waited

/-- The queue is empty at first, whatever was commanded and set before. -/
def waits (start : Servo) (es : List WaitEvent) : List Wait :=
  (run (Waited.step start)
    (({ start with Current := 0, Last := 0, Servo_Lock := false }, {}), []) es).2

/-! ### The wait of an action -/

namespace Wait

def distance (u : Wait) : Int := u.action.value.toInt32.toInt - u.previous

/-- The time for it, before it is rounded. -/
def quotient (u : Wait) : ℚ := (|u.distance| : Int) / u.speed

/-- No step of the computation is undefined: the difference and the rounded quotient fit an
`int`. -/
structure WellDefined (u : Wait) : Prop where
  difference : -2147483648 ≤ u.distance ∧ u.distance < 2147483648
  division : u.speed ≠ 0
  conversion : -2147483648 ≤ trunc (toDouble u.quotient) ∧
    trunc (toDouble u.quotient) < 2147483648

/-- The wait is one more than the time for the distance, in a range that ends. -/
structure Right (u : Wait) : Prop where
  defined : u.WellDefined
  time : ∃ t, u.time = some t ∧ (t.toNat : Int) = 1 + ⌊u.quotient⌋
  range : 1 ≤ 1 + ⌊u.quotient⌋ ∧ 1 + ⌊u.quotient⌋ ≤ 2147483647

/-- The servo has a speed with which the time is not too near below an integer, or stays where it
is. -/
def Moves (u : Wait) : Prop :=
  (-2147483648 ≤ u.distance ∧ u.distance < 2147483648) ∧
    (0 < u.speed ∧ ((|u.distance| : Int) : ℚ) < 2147483647 * u.speed ∧
        Int.fract u.quotient < 1 - 2 ^ (Int.log 2 u.quotient - 53) ∨
      u.speed < 0 ∧ u.distance = 0)

instance (u : Wait) : Decidable u.Moves := inferInstanceAs (Decidable (_ ∧ _))

/-- The wait that `Servo_Add_Action` computes. -/
def Computed (u : Wait) : Prop :=
  u.time = some (UInt32.ofInt (servo_time u.action.value.toInt32.toInt u.previous u.speed + 1))

theorem quotient_range_iff {u : Wait} (hdiv : u.speed ≠ 0) :
    0 ≤ u.quotient ∧ u.quotient < 2147483647 ↔
      0 < u.speed ∧ ((|u.distance| : Int) : ℚ) < 2147483647 * u.speed ∨
        u.speed < 0 ∧ u.distance = 0 := by
  have habs : (0 : ℚ) ≤ (|u.distance| : Int) := Int.cast_nonneg (abs_nonneg _)
  rw [quotient]
  rcases lt_or_gt_of_ne hdiv with hs | hs
  · constructor
    · rintro ⟨hq, -⟩
      rw [le_div_iff_of_neg hs, zero_mul] at hq
      have hzero : ((|u.distance| : Int) : ℚ) = 0 := le_antisymm hq habs
      exact .inr ⟨hs, abs_eq_zero.1 (Int.cast_eq_zero.1 hzero)⟩
    · rintro (⟨hpos, -⟩ | ⟨-, hzero⟩)
      · exact absurd hpos hs.le.not_gt
      · rw [hzero, abs_zero, Int.cast_zero, zero_div]
        exact ⟨le_rfl, by norm_num⟩
  · rw [div_lt_iff₀ hs]
    constructor
    · exact fun h => .inl ⟨hs, h.2⟩
    · rintro (⟨-, hlt⟩ | ⟨hneg, -⟩)
      · exact ⟨div_nonneg habs hs.le, hlt⟩
      · exact absurd hneg hs.le.not_gt

/-- In this range rounding changes the integral part only near below an integer. -/
theorem floor_toDouble_iff {x : ℚ} (hx : 0 ≤ x) (hlt : x < 2147483647) :
    (0 ≤ ⌊toDouble x⌋ ∧ ⌊toDouble x⌋ ≤ 2147483647) ∧
      (⌊toDouble x⌋ = ⌊x⌋ ↔ Int.fract x < 1 - 2 ^ (Int.log 2 x - 53)) := by
  have habs : |x| < 2 ^ (30 + 1) := by
    rw [abs_of_nonneg hx]
    exact hlt.trans (by norm_num)
  have hle : toDouble x ≤ (2147483647 : Int) :=
    roundTo_le_intCast habs (by decide) (by exact_mod_cast hlt.le)
  have hfloor := floor_roundTo_eq_iff (p := 53) habs (by decide)
  rw [half_ulp, abs_of_nonneg hx] at hfloor
  exact ⟨⟨Int.floor_nonneg.2 (roundTo_nonneg 53 hx), Int.floor_le_iff.2 (by linarith)⟩, hfloor⟩

-- the double that is nearest to a tenth is greater than a tenth
example : ⌊toDouble (1 / (3602879701896397 / 36028797018963968 : ℚ))⌋ = 10 := by decide +kernel

theorem Computed.time_eq {u : Wait} (h : u.Computed)
    (hfits : -2147483648 ≤ u.distance ∧ u.distance < 2147483648) (hdiv : u.speed ≠ 0)
    (hq : 0 ≤ u.quotient) (hlt : u.quotient < 2147483647) :
    ∃ t, u.time = some t ∧ (t.toNat : Int) = 1 + ⌊toDouble u.quotient⌋ := by
  obtain ⟨⟨hlow, hhigh⟩, -⟩ := floor_toDouble_iff hq hlt
  have hwrap : wrap32 (u.action.value.toInt32.toInt - u.previous) =
      u.action.value.toInt32.toInt - u.previous := wrap32_eq_self_iff.2 hfits
  have htime : servo_time u.action.value.toInt32.toInt u.previous u.speed =
      min 2147483647 ⌊toDouble u.quotient⌋ := servo_time_eq hwrap hdiv hq
  refine ⟨_, h, ?_⟩
  rw [htime, UInt32.ofInt, UInt32.toNat_ofNat']
  omega

theorem right_iff {u : Wait} (h : u.Computed) : u.Right ↔ u.Moves := by
  constructor
  · rintro ⟨⟨hfits, hdiv, -⟩, ⟨t, ht, htime⟩, hlow, hhigh⟩
    have hq : 0 ≤ u.quotient := Int.floor_nonneg.1 (by omega)
    have hfloor : ⌊u.quotient⌋ < 2147483647 := by omega
    have hlt : u.quotient < 2147483647 := by exact_mod_cast Int.floor_lt.1 hfloor
    obtain ⟨t', ht', htime'⟩ := h.time_eq hfits hdiv hq hlt
    obtain rfl : t = t' := Option.some.inj (ht.symm.trans ht')
    have hfract := (floor_toDouble_iff hq hlt).2.1 (by omega)
    refine ⟨hfits, ?_⟩
    rcases (quotient_range_iff hdiv).1 ⟨hq, hlt⟩ with ⟨hs, hd⟩ | hstay
    · exact .inl ⟨hs, hd, hfract⟩
    · exact .inr hstay
  · rintro ⟨hfits, hmoves⟩
    have hdiv : u.speed ≠ 0 := by
      rcases hmoves with ⟨hs, -⟩ | ⟨hs, -⟩
      · exact hs.ne'
      · exact hs.ne
    obtain ⟨hq, hlt⟩ := (quotient_range_iff hdiv).2 (hmoves.imp_left fun h => ⟨h.1, h.2.1⟩)
    obtain ⟨⟨hlow, hhigh⟩, hiff⟩ := floor_toDouble_iff hq hlt
    have hsame : ⌊toDouble u.quotient⌋ = ⌊u.quotient⌋ := by
      rcases hmoves with ⟨-, -, hfract⟩ | ⟨-, hzero⟩
      · exact hiff.2 hfract
      · have hquotient : u.quotient = 0 := by
          rw [quotient, hzero, abs_zero, Int.cast_zero, zero_div]
        rw [hquotient, toDouble, roundTo_zero]
    have htrunc : trunc (toDouble u.quotient) = ⌊toDouble u.quotient⌋ :=
      if_pos (roundTo_nonneg 53 hq)
    have hfloor : ⌊u.quotient⌋ < 2147483647 := Int.floor_lt.2 (by exact_mod_cast hlt)
    obtain ⟨t, ht, htime⟩ := h.time_eq hfits hdiv hq hlt
    exact ⟨⟨hfits, hdiv, by omega, by omega⟩, ⟨t, ht, by omega⟩, by omega, by omega⟩

end Wait

/-! ### Every wait of a run -/

theorem New_action_time {action : act} (hservo : IsServo action = true)
    (h : New_action action.id action.value (-1) s = some (node, s')) :
    node.time = UInt32.ofInt (servo_time action.value.toInt32.toInt
      (s.servo_lastvalue (entry action.id)) (s.servo_speed (entry action.id)) + 1) := by
  have hid : action.id < 0xFFF0 := of_decide_eq_true hservo
  have h₁ : action.id ≠ 0xFFF0 := fun he => absurd (he ▸ hid) (by decide)
  have h₂ : action.id ≠ 0xFFF1 := fun he => absurd (he ▸ hid) (by decide)
  rw [New_action, if_neg h₁, if_neg h₂] at h
  split at h
  · rename_i hlt
    cases h
    dsimp only
    rw [if_pos rfl, entry_eq hlt]
  · cases h

theorem Fifo.last_add {q : Fifo τ} (h : q.Exact) (tag : τ) (now : UInt32) (action : act)
    (pace : Pace) :
    ∃ acts, (q.add tag now action pace).contents.getLast? = some (acts, pace) := by
  cases hq : q.head with
  | none =>
    refine ⟨[], ?_⟩
    rw [add_of_idle hq, contents]
    dsimp only
    rw [h.idle hq]
    rfl
  | some head =>
    refine ⟨[action], ?_⟩
    rw [add_of_busy hq, contents, hq]
    dsimp only
    rw [List.map_append, List.map_singleton, ← List.cons_append, List.getLast?_concat]

theorem Represents.last_time {r : Servo × ServoHistory τ} {q : Fifo τ} (h : Represents r q)
    (hl : q.contents.getLast? = some (acts, pace)) : last_time r.1 = some pace.time := by
  obtain ⟨cells, hc⟩ := h.list
  have hnodes := congrArg List.getLast? hc.nodes
  rw [List.getLast?_map, List.getLast?_map, hl] at hnodes
  obtain ⟨p, hp, hcontent⟩ := Option.map_eq_some_iff.1 hnodes
  have hlast : r.1.Last = p := by rw [hc.last, hp, Option.getD_some]
  obtain ⟨node, hnode, hpair⟩ := Option.map_eq_some_iff.1 hcontent
  cases hpair
  rw [RobotCar.last_time, hlast, hnode]
  rfl

namespace Waited

/-- Between two calls: the queue is well formed, the table holds what was commanded last, and the
waits are those that were computed from it. -/
structure Good (start : Servo) (r : (Servo × ServoHistory Unit) × List Wait) : Prop where
  queue : ∃ q, Queued r.1 q
  table : r.1.1.servo_lastvalue = commanded start.servo_lastvalue r.1.2.enqueued
  waits : ∀ u ∈ r.2, u.Computed

theorem good_start (start : Servo) : Good start
    (({ start with Current := 0, Last := 0, Servo_Lock := false }, {}), []) :=
  ⟨⟨_, represents_empty start, ⟨rfl, fun _ => rfl⟩, fun _ ha => absurd ha List.not_mem_nil⟩, rfl,
    fun _ hu => absurd hu List.not_mem_nil⟩

theorem table_runCall {t : Task ServoAccess Servo Unit} (ht : t.Only Stores)
    {r r' : Servo × ServoHistory Unit} (hrun : runCall t r = some r')
    (h : r.1.servo_lastvalue = commanded start r.2.enqueued) :
    r'.1.servo_lastvalue = commanded start r'.2.enqueued := by
  obtain ⟨⟨a, r''⟩, hr, rfl⟩ := Option.map_eq_some_iff.1 hrun
  apply Task.run_of_preserves (I := fun r => r.1.servo_lastvalue = commanded start r.2.enqueued)
    ((ht.history _).preserves _) h hr
  rintro l ⟨s, h⟩ ⟨s', h'⟩ hs ⟨hstores, rfl⟩
  cases l with
  | enqueue action =>
    change s'.servo_lastvalue = commanded start (h.enqueued ++ [action])
    rw [commanded_concat, ← hs]
    exact hstores
  | _ => exact hstores.trans hs

theorem good_step (start : Servo) (r : (Servo × ServoHistory Unit) × List Wait) (e : WaitEvent)
    (h : Good start r) : Good start (step start r e) := by
  obtain ⟨r, waits⟩ := r
  obtain ⟨⟨q, hq⟩, htable, hwaits⟩ := h
  rw [step]
  cases hrun : runCall e.task r with
  | none => exact ⟨⟨q, hq⟩, htable, hwaits⟩
  | some r' =>
    have htable' := table_runCall e.task_stores hrun htable
    cases e with
    | callback_servo_speed x y =>
      have hcall : runCall ((RosCall.change_servo_speed (.finite x) (.finite y)).task 0 0 0) r =
          some r' := hrun
      have hq' := hq.step_other (fun _ h => by cases h) hcall
      exact ⟨⟨_, hq'⟩, htable', fun u hu => hwaits u (List.append_nil waits ▸ hu)⟩
    | Servo_Server now now' =>
      obtain ⟨r₁, hrun₁, hq'⟩ := hq.step_Servo_Server now now'
      rw [WaitEvent.task, hrun₁] at hrun
      cases hrun
      exact ⟨⟨_, hq'⟩, htable', fun u hu => hwaits u (List.append_nil waits ▸ hu)⟩
    | Servo_Add_Action New storage now action =>
      obtain ⟨s₂, node, hnew, hq'⟩ :=
        hq.step_Servo_Add_Action ⟨action.id, action.value, -1⟩ hrun
      refine ⟨⟨_, hq'⟩, htable', ?_⟩
      intro u hu
      rcases List.mem_append.1 hu with hu | hu
      · exact hwaits u hu
      · dsimp only [watch] at hu
        split at hu
        · rename_i hservo
          rw [List.mem_singleton.1 hu, Wait.Computed]
          obtain ⟨acts, hlast⟩ := Fifo.last_add hq.exact () now action node.pace
          have htime := New_action_time hservo hnew
          rw [hq'.represents.last_time hlast, ← htable]
          exact congrArg some htime
        · exact absurd hu List.not_mem_nil

end Waited

/-- In any run of speed messages and servo actions, the wait of an action is defined and right
exactly when its servo has a speed that brings it there in time, or stays where it is. -/
theorem servo_wait_iff (start : Servo) (es : List WaitEvent) :
    ∀ u ∈ waits start es, u.Right ↔ u.Moves := fun u hu =>
  Wait.right_iff ((run_invariant (Waited.good_step start) (Waited.good_start start) es).waits u hu)

theorem steady_wait : (Wait.mk ⟨2, 940⟩ 0 (1 / 2) (some 1881)).Right :=
  (servo_wait_iff {} [.callback_servo_speed 2 (1 / 2), .Servo_Add_Action 1 2 0 ⟨2, 940⟩] _
    (by decide +kernel)).2 (by decide +kernel)

def stalled : List WaitEvent :=
  [.callback_servo_speed 2 0, .Servo_Add_Action 1 2 0 ⟨2, 940⟩]

theorem stalled_wait :
    ¬∀ es : List WaitEvent, (∀ x y, .callback_servo_speed x y ∈ es → 1 ≤ x ∧ x ≤ 5) →
      ∀ u ∈ waits {} es, u.Right := by
  intro h
  have hx (x y : ℚ) (hm : .callback_servo_speed x y ∈ stalled) : 1 ≤ x ∧ x ≤ 5 := by
    rcases List.mem_cons.1 hm with he | hm
    · cases he
      norm_num
    · exact absurd (List.mem_singleton.1 hm) nofun
  have hright := h stalled hx ⟨⟨2, 940⟩, 0, 0, some 2147483648⟩ (by decide +kernel)
  exact hright.defined.division rfl

end RobotCar

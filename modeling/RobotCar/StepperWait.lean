import RobotCar.ServoTiming

namespace RobotCar
open Concurrent
set_option autoImplicit true

/-! ### How long an axis moves -/

namespace Axis

/-- The interrupts that the axis needs until nothing is left of its move. -/
def ticksLeft (a : Axis) : Nat :=
  match a.current_halfstep_left.natAbs with
  | 0 => 0
  | n + 1 => (max 1 (a.current_speed - a.counter)).toNat + n * (max 1 a.current_speed).toNat

theorem ticksLeft_eq_zero {a : Axis} (h : a.ticksLeft = 0) : a.current_halfstep_left = 0 := by
  unfold ticksLeft at h
  cases hn : a.current_halfstep_left.natAbs with
  | zero => exact Int.natAbs_eq_zero.1 hn
  | succ n =>
    rw [hn] at h
    dsimp only at h
    omega

theorem ticksLeft_of_left {a : Axis} (h : a.current_halfstep_left = 0) : a.ticksLeft = 0 := by
  rw [ticksLeft, h]
  rfl

theorem halfstep_left {a : Axis} (h : a.current_halfstep_left.natAbs = n + 1) :
    a.halfstep.current_halfstep_left.natAbs = n := by
  simp only [halfstep]
  split <;> dsimp only <;> omega

theorem ticksLeft_restart {a : Axis} (h : a.counter = 0) :
    a.ticksLeft = a.current_halfstep_left.natAbs * (max 1 a.current_speed).toNat := by
  unfold ticksLeft
  cases hn : a.current_halfstep_left.natAbs with
  | zero => exact (Nat.zero_mul _).symm
  | succ n =>
    dsimp only
    rw [h, Int.sub_zero, Nat.succ_mul, Nat.add_comm]

theorem ticksLeft_drive (a : Axis) : a.drive.ticksLeft = a.ticksLeft - 1 := by
  by_cases hleft : a.current_halfstep_left = 0
  · have hd : a.drive.current_halfstep_left = 0 := by
      simp only [drive, hleft]
      split <;> simp
    rw [ticksLeft_of_left hd, ticksLeft_of_left hleft]
  obtain ⟨n, hn⟩ := Nat.exists_eq_succ_of_ne_zero (Int.natAbs_ne_zero.2 hleft)
  have ha : a.ticksLeft = (max 1 (a.current_speed - a.counter)).toNat +
      n * (max 1 a.current_speed).toNat := by
    rw [ticksLeft, hn]
  by_cases hc : a.counter + 1 ≥ a.current_speed
  · have hdrive : a.drive = { ({ a with counter := a.counter + 1 } : Axis).halfstep with
        counter := 0 } := by
      simp only [drive, if_pos hc, ne_eq, hleft, not_false_eq_true, if_true]
    have hspeed : a.drive.current_speed = a.current_speed := by
      rw [hdrive]
      simp only [halfstep]
      split <;> rfl
    have hnext : a.drive.current_halfstep_left.natAbs = n := by
      rw [hdrive]
      exact halfstep_left (a := { a with counter := a.counter + 1 }) hn
    have hzero : a.drive.counter = 0 := by rw [hdrive]
    have hone : (max 1 (a.current_speed - a.counter)).toNat = 1 := by omega
    rw [ticksLeft_restart hzero, hnext, hspeed, ha, hone]
    omega
  · have hdrive : a.drive = { a with counter := a.counter + 1 } := if_neg hc
    have hwait : (max 1 (a.current_speed - (a.counter + 1))).toNat + 1 =
        (max 1 (a.current_speed - a.counter)).toNat := by omega
    have hd : a.drive.ticksLeft = (max 1 (a.current_speed - (a.counter + 1))).toNat +
        n * (max 1 a.current_speed).toNat := by
      rw [hdrive, ticksLeft]
      dsimp only
      rw [hn]
    rw [hd, ha, ← hwait]
    omega

end Axis

/-- A move to a target that is over at a deadline, if it is not over before. -/
structure OnCourse (deadline tick : Nat) (steps : Int) (a : Axis) : Prop where
  sum : a.current_halfstep_left + a.current_halfstep_total = -2 * steps
  inTime : a.ticksLeft ≤ deadline - tick

theorem OnCourse.tick {a : Axis} (h : OnCourse deadline t steps a) (hc : ¬a.Clears sw) :
    OnCourse deadline (t + 1) steps (a.stepper_ISR sw) := by
  have hd : ¬a.drive.Clears sw := fun hd => hc (a.drive_clears.1 hd)
  obtain ⟨count, flag, he⟩ := Axis.home_of_not_clears hd
  have hin := h.inTime
  have hticks : (a.stepper_ISR sw).ticksLeft = a.drive.ticksLeft := by
    rw [Axis.stepper_ISR, he]
    rfl
  constructor
  · rw [Axis.stepper_ISR, he]
    exact a.drive_sum.trans h.sum
  · rw [hticks, a.ticksLeft_drive]
    omega

theorem OnCourse.over {a : Axis} (h : OnCourse deadline t steps a) (ht : deadline ≤ t) :
    a.current_halfstep_left = 0 ∧ a.get_steps = steps := by
  have hin := h.inTime
  have hleft : a.current_halfstep_left = 0 := Axis.ticksLeft_eq_zero (by omega)
  have htotal : a.current_halfstep_total = -2 * steps := by
    have hs := h.sum
    omega
  refine ⟨hleft, ?_⟩
  rw [Axis.get_steps, htotal, Int.neg_mul, neg_neg]
  exact Int.mul_tdiv_cancel_left steps (by decide)

/-! ### The queue and the axes on one time base -/

/-- The calls on the queue, the interrupts of `TIM7` with the levels of the limit switches, and
the edges of these. -/
inductive PacedEvent where
  | Servo_Add_Action (New storage : Nat) (action : act) (time : Int)
  | Servo_Server
  | TIM7 (sw1 sw2 : Bool)
  | EXTI (GPIO_Pin : UInt16)

/-- An action that has left the queue, with the axes at that moment. -/
structure Removal where
  action : act
  steppers : Steppers
  /-- its axis was at the limit switch since the dispatch -/
  cleared : Bool
  deriving DecidableEq, Repr

def Removal.Finished (m : Removal) : Prop :=
  m.cleared = false → ∀ a ∈ axisOf m.action m.steppers,
    a.current_halfstep_left = 0 ∧ a.get_steps = m.action.value.toInt32.toInt

instance (m : Removal) : Decidable m.Finished := inferInstanceAs (Decidable (_ → _))

/-- The interrupt finds the limit switch of the axis of an action closed. -/
def ClearsAxis (sw1 sw2 : Bool) (action : act) (p : Steppers) : Prop :=
  (action.id = 0xFFF0 ∧ p.axis1.Clears sw1) ∨ (action.id = 0xFFF1 ∧ p.axis2.Clears sw2)

instance (sw1 sw2 : Bool) (action : act) (p : Steppers) :
    Decidable (ClearsAxis sw1 sw2 action p) := inferInstanceAs (Decidable (_ ∨ _))

/-- The state with the number of interrupts so far: 20 of them make a tick of the HAL clock. Each
command is tagged with that number. -/
structure Paced where
  tick : Nat
  state : Servo × ServoHistory Nat
  cleared : Bool := false
  removals : List Removal := []

namespace Paced

def now (r : Paced) : UInt32 := HAL_GetTick (r.tick / 20)

def head (r : Paced) : Option act := r.state.2.issued.getLast?.map Issue.action

def call (r : Paced) (c : ServoCall) : Paced :=
  let state := ServoCall.step r.state (r.tick, c)
  { r with
    state := state
    cleared := r.cleared && state.2.issued.length = r.state.2.issued.length
    removals :=
      if retired r.state < retired state then
        r.removals ++ (r.head.map fun action => ⟨action, r.state.1.steppers, r.cleared⟩).toList
      else r.removals }

def setSteppers (p : Steppers) (r : Paced) : Paced :=
  { r with state := ({ r.state.1 with steppers := p }, r.state.2) }

def step (r : Paced) : PacedEvent → Paced
  | .Servo_Add_Action New storage action time =>
    r.call (.Servo_Add_Action New storage r.now action time)
  | .Servo_Server => r.call (.Servo_Server r.now r.now)
  | .TIM7 sw1 sw2 =>
    let p := r.state.1.steppers
    { r.setSteppers (TIM7_IRQHandler sw1 sw2 p) with
      tick := r.tick + 1
      cleared := r.cleared || r.head.any fun action => ClearsAxis sw1 sw2 action p }
  | .EXTI GPIO_Pin => r.setSteppers (HAL_GPIO_EXTI_Callback GPIO_Pin r.state.1.steppers)

def start (tick : Nat) (s : Servo) : Paced where
  tick := tick
  state :=
    ({ s with
        Current := 0
        Last := 0
        Servo_Lock := false
        steppers := (do set_stepper_2 (-0xFFFF); set_stepper_1 (-0xFFFF)).exec s.steppers }, {})

/-- What the axis needs from its dispatch on, and the interrupts until the wait can be over. -/
def Enough (tick : Nat) (pace : Pace) (action : act) (a : Axis) : Prop :=
  (a.start pace.speed action.value.toInt32.toInt).ticksLeft ≤ 20 * pace.time.toNat - tick % 20

instance (tick : Nat) (pace : Pace) (action : act) (a : Axis) :
    Decidable (Enough tick pace action a) := inferInstanceAs (Decidable (_ ≤ _))

/-- A call that dispatches an action finds its axis such that the wait is long enough. -/
def InTime (r : Paced) : PacedEvent → Prop
  | .Servo_Add_Action New storage action time =>
    Allowed New storage action r.state.1 → r.state.1.Current = 0 →
      ∀ a ∈ axisOf action r.state.1.steppers, Enough r.tick (idlePace action time a) action a
  | .Servo_Server =>
    r.state.1.Current ≠ 0 → ∀ node ∈ r.state.1.heap r.state.1.Current,
      r.now - r.state.1.time_start ≥ node.time → node.Next ≠ 0 →
        ∀ next ∈ r.state.1.heap node.Next, ∀ action ∈ next.acts,
          ∀ a ∈ axisOf action r.state.1.steppers, Enough r.tick next.pace action a
  | _ => True

instance (r : Paced) (e : PacedEvent) : Decidable (r.InTime e) :=
  match e with
  | .Servo_Add_Action _ _ _ _ => inferInstanceAs (Decidable (_ → _ → ∀ a ∈ axisOf _ _, _))
  | .Servo_Server => inferInstanceAs (Decidable (_ → ∀ node ∈ r.state.1.heap _, _))
  | .TIM7 _ _ => instDecidableTrue
  | .EXTI _ => instDecidableTrue

end Paced

/-! ### The invariant -/

/-- Between two events: what has left the queue had finished, and the axis of the head finishes in
time unless it was at the limit switch. -/
structure Paces (r : Paced) (q : Fifo Nat) : Prop where
  represents : Represents r.state q
  finished : ∀ m ∈ r.removals, m.Finished
  running : ∀ pace, q.head = some pace → ∃ i, q.history.issued.getLast? = some i ∧
    q.time_start = HAL_GetTick (i.tag / 20) ∧ i.tag ≤ r.tick ∧
    (r.cleared = false → ∀ a, axisOf i.action q.steppers = some a →
      OnCourse (20 * (i.tag / 20 + pace.time.toNat)) r.tick i.action.value.toInt32.toInt a)

theorem onCourse_start {a : Axis} (h : Paced.Enough tick pace action a) :
    OnCourse (20 * (tick / 20 + pace.time.toNat)) tick action.value.toInt32.toInt
      (a.start pace.speed action.value.toInt32.toInt) := by
  unfold Paced.Enough at h
  constructor
  · dsimp only [Axis.start]
    omega
  · omega

theorem running_start {r : Paced} {p : Steppers} {pace : Pace}
    (henough : ∀ a, axisOf action p = some a → Paced.Enough r.tick pace action a) :
    ∀ b, axisOf action (moveAxis pace.speed action p) = some b →
      OnCourse (20 * (r.tick / 20 + pace.time.toNat)) r.tick action.value.toInt32.toInt b := by
  intro b hb
  rw [axisOf_moveAxis] at hb
  obtain ⟨a, ha, rfl⟩ := Option.map_eq_some_iff.1 hb
  exact onCourse_start (henough a ha)

theorem Represents.setSteppers {r : Servo × ServoHistory τ} {q : Fifo τ} (h : Represents r q)
    (p : Steppers) :
    Represents ({ r.1 with steppers := p }, r.2) { q with steppers := p } := by
  obtain ⟨⟨cells, hc⟩, hh, ht, -, hu, hv, hi⟩ := h
  exact ⟨⟨cells, hc.congr rfl rfl rfl⟩, hh, ht, rfl, hu, hv, hi⟩

/-! ### Interrupts -/

theorem axisOf_TIM7 {p : Steppers} (h : axisOf action (TIM7_IRQHandler sw1 sw2 p) = some b)
    (hc : ¬ClearsAxis sw1 sw2 action p) :
    ∃ a sw, axisOf action p = some a ∧ b = a.stepper_ISR sw ∧ ¬a.Clears sw := by
  rcases axisOf_eq_some.1 h with ⟨hid, rfl⟩ | ⟨hid, rfl⟩
  · exact ⟨_, sw1, axisOf_eq_some.2 (.inl ⟨hid, rfl⟩), rfl, fun hp => hc (.inl ⟨hid, hp⟩)⟩
  · exact ⟨_, sw2, axisOf_eq_some.2 (.inr ⟨hid, rfl⟩), rfl, fun hp => hc (.inr ⟨hid, hp⟩)⟩

theorem axisOf_EXTI {p : Steppers}
    (h : axisOf action (HAL_GPIO_EXTI_Callback GPIO_Pin p) = some b) :
    ∃ a flag, axisOf action p = some a ∧ b = { a with clear_flag := flag } := by
  have haxis₁ : ∃ flag, (HAL_GPIO_EXTI_Callback GPIO_Pin p).axis1 =
      { p.axis1 with clear_flag := flag } := by
    simp only [HAL_GPIO_EXTI_Callback]
    split <;> split <;> exact ⟨_, rfl⟩
  have haxis₂ : ∃ flag, (HAL_GPIO_EXTI_Callback GPIO_Pin p).axis2 =
      { p.axis2 with clear_flag := flag } := by
    simp only [HAL_GPIO_EXTI_Callback]
    split <;> split <;> exact ⟨_, rfl⟩
  rcases axisOf_eq_some.1 h with ⟨hid, rfl⟩ | ⟨hid, rfl⟩
  · obtain ⟨flag, haxis⟩ := haxis₁
    exact ⟨_, flag, axisOf_eq_some.2 (.inl ⟨hid, rfl⟩), haxis⟩
  · obtain ⟨flag, haxis⟩ := haxis₂
    exact ⟨_, flag, axisOf_eq_some.2 (.inr ⟨hid, rfl⟩), haxis⟩

theorem Represents.head_eq {r : Paced} {q : Fifo Nat} (h : Represents r.state q)
    (hi : q.history.issued.getLast? = some i) : r.head = some i.action := by
  rw [Paced.head, h.history, hi, Option.map_some]

theorem Paces.TIM7 {r : Paced} {q : Fifo Nat} (h : Paces r q) (sw1 sw2 : Bool) :
    Paces (r.step (.TIM7 sw1 sw2)) { q with steppers := TIM7_IRQHandler sw1 sw2 q.steppers } := by
  have hp := h.represents.steppers
  refine ⟨?_, h.finished, ?_⟩
  · rw [← hp]
    exact h.represents.setSteppers _
  · intro pace hq
    obtain ⟨i, hi, hs, hle, hrun⟩ := h.running pace hq
    refine ⟨i, hi, hs, hle.trans (Nat.le_succ _), fun hcleared b hb => ?_⟩
    have hhead := h.represents.head_eq hi
    obtain ⟨hcl, hany⟩ := Bool.or_eq_false_iff.1 hcleared
    rw [hhead, Option.any_some] at hany
    have hn := of_decide_eq_false hany
    rw [hp] at hn
    obtain ⟨a, sw, ha, rfl, hsw⟩ := axisOf_TIM7 hb hn
    exact (hrun hcl a ha).tick hsw

theorem Paces.EXTI {r : Paced} {q : Fifo Nat} (h : Paces r q) (GPIO_Pin : UInt16) :
    Paces (r.step (.EXTI GPIO_Pin))
      { q with steppers := HAL_GPIO_EXTI_Callback GPIO_Pin q.steppers } := by
  have hp := h.represents.steppers
  refine ⟨?_, h.finished, ?_⟩
  · rw [← hp]
    exact h.represents.setSteppers _
  · intro pace hq
    obtain ⟨i, hi, hs, hle, hrun⟩ := h.running pace hq
    refine ⟨i, hi, hs, hle, fun hcleared b hb => ?_⟩
    obtain ⟨a, flag, ha, rfl⟩ := axisOf_EXTI hb
    obtain ⟨hsum, hin⟩ := hrun hcleared a ha
    exact ⟨hsum, hin⟩

/-! ### Calls -/

theorem Paced.call_of_retired_eq {r : Paced} {c : ServoCall}
    (h : retired (ServoCall.step r.state (r.tick, c)) = retired r.state) :
    (r.call c).removals = r.removals := by
  unfold call
  exact if_neg fun hlt => absurd (h ▸ hlt) (lt_irrefl _)

theorem Paced.call_of_issued_eq {r : Paced} {c : ServoCall}
    (h : (ServoCall.step r.state (r.tick, c)).2.issued = r.state.2.issued) :
    (r.call c).cleared = r.cleared := by
  unfold call
  dsimp only
  rw [h, decide_eq_true rfl, Bool.and_true]

theorem Paces.add {r : Paced} {q : Fifo Nat} (h : Paces r q) {c : ServoCall} {now : UInt32}
    (hnow : now = r.now) (henough : q.head = none → ∀ a, axisOf action q.steppers = some a →
      Paced.Enough r.tick pace action a)
    (hrep : Represents (ServoCall.step r.state (r.tick, c)) (q.add r.tick now action pace)) :
    Paces (r.call c) (q.add r.tick now action pace) := by
  have hret : retired (ServoCall.step r.state (r.tick, c)) = retired r.state := by
    rw [hrep.retired_eq, h.represents.retired_eq]
    cases hq : q.head with
    | none =>
      rw [Fifo.add_of_idle hq, if_neg (Option.some_ne_none pace), if_pos rfl, List.length_append]
      rfl
    | some head => rw [Fifo.add_of_busy hq, hq]
  refine ⟨hrep, ?_, ?_⟩
  · rw [Paced.call_of_retired_eq hret]
    exact h.finished
  · have hissued : (ServoCall.step r.state (r.tick, c)).2.issued = _ :=
      congrArg ServoHistory.issued hrep.history
    intro pace' hq'
    cases hq : q.head with
    | none =>
      rw [Fifo.add_of_idle hq] at hq' ⊢
      cases hq'
      refine ⟨_, List.getLast?_concat .., ?_, le_rfl, ?_⟩
      · exact hnow
      · intro _
        exact running_start (henough hq)
    | some head =>
      rw [Fifo.add_of_busy hq] at hq' hissued ⊢
      obtain ⟨i, hi, hs, hle, hrun⟩ := h.running pace' hq'
      have hcleared : (r.call c).cleared = r.cleared := by
        apply Paced.call_of_issued_eq
        rw [hissued, h.represents.history]
      rw [hcleared]
      exact ⟨i, hi, hs, hle, hrun⟩

theorem Paces.finished_removal {r : Paced} {q : Fifo Nat} (h : Paces r q) {c : ServoCall}
    (hq : q.head = some pace) (hdue : r.now - q.time_start ≥ pace.time) :
    ∀ m ∈ (r.call c).removals, m.Finished := by
  obtain ⟨i, hi, hs, hle, hrun⟩ := h.running pace hq
  have hdeadline : 20 * (i.tag / 20 + pace.time.toNat) ≤ r.tick := by
    rw [hs] at hdue
    have helapsed := elapsed_le (Nat.div_le_div_right hle) pace.time hdue
    omega
  unfold Paced.call
  dsimp only
  split
  · rw [h.represents.head_eq hi, Option.map_some]
    intro m hm
    rcases List.mem_append.1 hm with hm | hm
    · exact h.finished m hm
    · rw [List.mem_singleton.1 hm]
      intro hcleared a ha
      rw [h.represents.steppers] at ha
      exact (hrun hcleared a ha).over hdeadline
  · exact h.finished

theorem Paces.idle {r : Paced} {q : Fifo Nat} (h : Paces r q) {c : ServoCall}
    (hrep : Represents (ServoCall.step r.state (r.tick, c)) q) : Paces (r.call c) q := by
  have hcleared : (r.call c).cleared = r.cleared := by
    apply Paced.call_of_issued_eq
    rw [hrep.history, h.represents.history]
  refine ⟨hrep, ?_, ?_⟩
  · rw [Paced.call_of_retired_eq (hrep.retired_eq.trans h.represents.retired_eq.symm)]
    exact h.finished
  · rw [hcleared]
    exact h.running

theorem Paces.serve {r : Paced} {q : Fifo Nat} (h : Paces r q) {c : ServoCall}
    (henough : ∀ pace w waiting, q.head = some pace → r.now - q.time_start ≥ pace.time →
      q.waiting = w :: waiting → ∀ a, axisOf w.1 q.steppers = some a →
        Paced.Enough r.tick w.2 w.1 a)
    (hrep : Represents (ServoCall.step r.state (r.tick, c)) (q.serve r.tick r.now r.now)) :
    Paces (r.call c) (q.serve r.tick r.now r.now) := by
  cases hq : q.head with
  | none =>
    rw [Fifo.serve_of_idle hq] at hrep ⊢
    exact h.idle hrep
  | some pace =>
    by_cases hdue : r.now - q.time_start ≥ pace.time
    · have hfinished := h.finished_removal (c := c) hq hdue
      cases hw : q.waiting with
      | nil =>
        rw [Fifo.serve_last hq hdue hw] at hrep ⊢
        exact ⟨hrep, hfinished, fun pace' hn => absurd hn.symm (Option.some_ne_none pace')⟩
      | cons w waiting =>
        rw [Fifo.serve_next hq hdue hw] at hrep ⊢
        refine ⟨hrep, hfinished, fun pace' hp => ?_⟩
        cases hp
        refine ⟨_, List.getLast?_concat .., rfl, le_rfl, fun _ => ?_⟩
        exact running_start (henough pace w waiting hq hdue hw)
    · rw [Fifo.serve_of_not_due hq hdue] at hrep ⊢
      exact h.idle hrep

/-! ### Runs -/

theorem Represents.waiting_head {r : Servo × ServoHistory τ} {q : Fifo τ} (h : Represents r q)
    (hq : q.head = some pace) (hw : q.waiting = w :: waiting) :
    ∃ node next, r.1.heap r.1.Current = some node ∧ node.time = pace.time ∧ node.Next ≠ 0 ∧
      r.1.heap node.Next = some next ∧ next.acts = [w.1] ∧ next.pace = w.2 := by
  obtain ⟨cells, hc⟩ := h.list
  obtain ⟨p, ps, -, hbusy⟩ := hc.cons_of_busy hq
  rw [hw] at hbusy
  obtain ⟨node, hnode, -, rfl, hnext⟩ := hbusy.head
  have hnodes := (List.cons.inj hbusy.nodes).2
  cases ps with
  | nil => exact absurd hnodes.symm (List.cons_ne_nil _ _)
  | cons p' ps =>
    obtain ⟨next, hp'⟩ := hbusy.heap_isSome (List.mem_cons_of_mem p List.mem_cons_self)
    have hcontent : content r.1.heap p' = some ([w.1], w.2) := (List.cons.inj hnodes).1
    rw [content, hp', Option.map_some] at hcontent
    obtain ⟨hacts, hpace⟩ := Prod.mk.inj (Option.some.inj hcontent)
    rw [List.headD_cons] at hnext
    have hne : node.Next ≠ 0 := fun h₀ => hbusy.nonnull
      (h₀ ▸ hnext ▸ List.mem_cons_of_mem p List.mem_cons_self)
    exact ⟨node, next, hnode, rfl, hne, hnext ▸ hp', hacts, hpace⟩

theorem Represents.last_Next {r : Servo × ServoHistory τ} {q : Fifo τ} (h : Represents r q)
    (hq : q.head = some pace) (hw : q.waiting = []) (hnode : r.1.heap r.1.Current = some node) :
    node.Next = 0 := by
  obtain ⟨cells, hc⟩ := h.list
  obtain ⟨p, ps, -, hbusy⟩ := hc.cons_of_busy hq
  rw [hw] at hbusy
  obtain ⟨node', hnode', -, -, hnext⟩ := hbusy.head
  have hps : ps = [] := List.map_eq_nil_iff.1 (List.cons.inj hbusy.nodes).2
  obtain rfl : node' = node := Option.some.inj (hnode'.symm.trans hnode)
  rw [hnext, hps]
  rfl

theorem add_refines {r : Servo × ServoHistory τ} {q : Fifo τ} (hr : Represents r q)
    (ha : Allowed New storage action r.1) (tag : τ) (now : UInt32) (time : Int) :
    ∃ pace,
      Represents (ServoCall.step r (tag, .Servo_Add_Action New storage now action time))
        (q.add tag now action pace) ∧
      (q.head = none → ∀ a, axisOf action q.steppers = some a →
        pace = idlePace action time a) := by
  obtain ⟨r', s₂, node, hnew, hrun, hrep⟩ := Servo_Add_Action_refines hr ha tag now time
  have hstep : ServoCall.step r (tag, .Servo_Add_Action New storage now action time) = r' := by
    unfold ServoCall.step ServoCall.run ServoCall.task
    dsimp only
    rw [hrun]
    rfl
  exact ⟨node.pace, hstep.symm ▸ hrep, hr.idle_pace hnew⟩

theorem add_not_allowed {r : Servo × ServoHistory τ} (ha : ¬Allowed New storage action r.1)
    (tag : τ) (now : UInt32) (time : Int) :
    ServoCall.step r (tag, .Servo_Add_Action New storage now action time) = r := by
  have hn : ¬(ServoCall.Servo_Add_Action New storage now action time).Allowed r.1 := ha
  rw [ServoCall.step, run_of_not_allowed hn]
  rfl

theorem paces_step {r : Paced} (e : PacedEvent) (h : ∃ q, Paces r q) (hin : r.InTime e) :
    ∃ q, Paces (r.step e) q := by
  obtain ⟨q, hq⟩ := h
  have hr := hq.represents
  cases e with
  | Servo_Add_Action New storage action time =>
    by_cases ha : Allowed New storage action r.state.1
    · obtain ⟨pace, hrep, hidle⟩ := add_refines hr ha r.tick r.now time
      refine ⟨_, hq.add rfl (fun hn a hax => ?_) hrep⟩
      rw [hidle hn a hax]
      exact hin ha (hr.current_iff.2 hn) a (hr.steppers ▸ hax)
    · have hsame := add_not_allowed ha r.tick r.now time
      exact ⟨q, hq.idle (hsame.symm ▸ hr)⟩
  | Servo_Server =>
    obtain ⟨q', hrep, hstep⟩ := step_refines hr (r.tick, .Servo_Server r.now r.now)
    cases hstep
    refine ⟨_, hq.serve (fun pace w waiting hp hdue hw a ha => ?_) hrep⟩
    obtain ⟨node, next, hnode, htime, hNext, hnext, hacts, hpace⟩ := hr.waiting_head hp hw
    have hC : r.state.1.Current ≠ 0 := fun h₀ =>
      absurd (hp.symm.trans (hr.current_iff.1 h₀)) (Option.some_ne_none pace)
    rw [← htime, ← hr.time_start] at hdue
    rw [← hpace]
    exact hin hC node hnode hdue hNext next hnext w.1 (hacts ▸ List.mem_singleton_self _) a
      (hr.steppers ▸ ha)
  | TIM7 sw1 sw2 => exact ⟨_, hq.TIM7 sw1 sw2⟩
  | EXTI GPIO_Pin => exact ⟨_, hq.EXTI GPIO_Pin⟩

/-- What the server removes has finished, whether or not it dispatches another action in time. -/
theorem Paces.server {r : Paced} {q : Fifo Nat} (h : Paces r q) :
    ∀ m ∈ (r.step .Servo_Server).removals, m.Finished := by
  obtain ⟨q', hrep, hstep⟩ := step_refines h.represents (r.tick, .Servo_Server r.now r.now)
  cases hstep
  cases hq : q.head with
  | none =>
    rw [Fifo.serve_of_idle hq] at hrep
    exact (h.idle hrep).finished
  | some pace =>
    by_cases hdue : r.now - q.time_start ≥ pace.time
    · exact h.finished_removal hq hdue
    · rw [Fifo.serve_of_not_due hq hdue] at hrep
      exact (h.idle hrep).finished

/-! ### Waits that are too short -/

/-- The wait for the head is over in `k` interrupts, and its axis needs more. -/
structure Late (k : Nat) (r : Paced) (q : Fifo Nat) : Prop where
  represents : Represents r.state q
  cleared : r.cleared = false
  head : ∃ pace i a, q.head = some pace ∧ q.history.issued.getLast? = some i ∧
    q.time_start = HAL_GetTick (i.tag / 20) ∧
    (r.tick + k) / 20 = i.tag / 20 + pace.time.toNat ∧
    axisOf i.action q.steppers = some a ∧ k < a.ticksLeft

theorem late_start {r : Paced} {q : Fifo Nat} {a : Axis} (hrep : Represents r.state q)
    (hcleared : r.cleared = false) (hq : q.head = some pace)
    (hi : q.history.issued.getLast? = some ⟨action, pace.time, r.tick⟩)
    (hs : q.time_start = HAL_GetTick (r.tick / 20))
    (ha : axisOf action q.steppers = some (a.start pace.speed action.value.toInt32.toInt))
    (hn : ¬Paced.Enough r.tick pace action a) :
    Late (20 * pace.time.toNat - r.tick % 20) r q := by
  unfold Paced.Enough at hn
  refine ⟨hrep, hcleared, pace, _, _, hq, hi, hs, ?_, ha, Nat.lt_of_not_le hn⟩
  dsimp only
  omega

theorem not_clearsAxis (action : act) (p : Steppers) : ¬ClearsAxis true true action p := by
  intro h
  rcases h with ⟨-, -, -, h⟩ | ⟨-, -, -, h⟩
  · cases h
  · cases h

theorem Late.tick {r : Paced} {q : Fifo Nat} (h : Late (k + 1) r q) :
    Late k (r.step (.TIM7 true true))
      { q with steppers := TIM7_IRQHandler true true q.steppers } := by
  obtain ⟨pace, i, a, hq, hi, hs, ht, ha, hk⟩ := h.head
  have hp := h.represents.steppers
  have hsome : ∃ b, axisOf i.action (TIM7_IRQHandler true true q.steppers) = some b := by
    rcases axisOf_eq_some.1 ha with ⟨hid, -⟩ | ⟨hid, -⟩
    · exact ⟨_, axisOf_eq_some.2 (.inl ⟨hid, rfl⟩)⟩
    · exact ⟨_, axisOf_eq_some.2 (.inr ⟨hid, rfl⟩)⟩
  obtain ⟨b, hb⟩ := hsome
  obtain ⟨a', sw, ha', rfl, hsw⟩ := axisOf_TIM7 hb (not_clearsAxis _ _)
  obtain rfl : a' = a := Option.some.inj (ha'.symm.trans ha)
  obtain ⟨count, flag, he⟩ := Axis.home_of_not_clears fun hd => hsw (a'.drive_clears.1 hd)
  have hticks : (a'.stepper_ISR sw).ticksLeft = a'.ticksLeft - 1 := by
    rw [← a'.ticksLeft_drive, Axis.stepper_ISR, he]
    rfl
  refine ⟨?_, ?_, pace, i, _, hq, hi, hs, ?_, hb, ?_⟩
  · rw [← hp]
    exact h.represents.setSteppers _
  · change (r.cleared || r.head.any _) = false
    rw [h.cleared, h.represents.head_eq hi, Option.any_some]
    exact decide_eq_false (not_clearsAxis _ _)
  · rw [← ht]
    change (r.tick + 1 + k) / 20 = _
    rw [Nat.add_right_comm, Nat.add_assoc]
  · rw [hticks]
    omega

theorem Late.run {r : Paced} {q : Fifo Nat} (h : Late k r q) :
    ∃ q', Late 0 (Transition.run Paced.step r (List.replicate k (.TIM7 true true))) q' := by
  induction k generalizing r q with
  | zero => exact ⟨q, h⟩
  | succ k ih => exact ih h.tick

theorem Late.server {r : Paced} {q : Fifo Nat} (h : Late 0 r q) :
    ∃ m ∈ (r.step .Servo_Server).removals, ¬m.Finished := by
  obtain ⟨pace, i, a, hq, hi, hs, ht, ha, hk⟩ := h.head
  have hdue : r.now - q.time_start ≥ pace.time := by
    have hnow : r.now = HAL_GetTick (i.tag / 20) + pace.time := by
      rw [Paced.now, ← Nat.add_zero r.tick, ht, HAL_GetTick, UInt32.ofNat_add, UInt32.ofNat_toNat,
        HAL_GetTick]
    rw [hnow, hs, UInt32.add_comm, UInt32.add_sub_cancel]
    exact UInt32.le_refl _
  obtain ⟨q', hrep, hstep⟩ := step_refines h.represents (r.tick, .Servo_Server r.now r.now)
  cases hstep
  have hpos : 0 < q.history.issued.length := by
    apply List.length_pos_iff.2
    intro hn
    rw [hn] at hi
    cases hi
  have hret : retired r.state < retired
      (ServoCall.step r.state (r.tick, .Servo_Server r.now r.now)) := by
    have hbefore := h.represents.retired_eq
    rw [if_neg fun hn => Option.some_ne_none pace (hq.symm.trans hn)] at hbefore
    cases hw : q.waiting with
    | nil =>
      rw [Fifo.serve_last hq hdue hw] at hrep
      rw [hbefore, hrep.retired_eq, if_pos rfl]
      dsimp only
      omega
    | cons w waiting =>
      rw [Fifo.serve_next hq hdue hw] at hrep
      rw [hbefore, hrep.retired_eq, if_neg (Option.some_ne_none w.2)]
      dsimp only
      rw [List.length_append, List.length_singleton]
      omega
  have hremovals : (r.step .Servo_Server).removals =
      r.removals ++ [⟨i.action, r.state.1.steppers, r.cleared⟩] := by
    change (r.call _).removals = _
    unfold Paced.call
    dsimp only
    rw [if_pos hret, h.represents.head_eq hi]
    rfl
  refine ⟨⟨i.action, r.state.1.steppers, r.cleared⟩, ?_, fun hfin => ?_⟩
  · rw [hremovals]
    exact List.mem_concat_self
  · obtain ⟨hleft, -⟩ := hfin h.cleared a (h.represents.steppers ▸ ha)
    rw [Axis.ticksLeft_of_left hleft] at hk
    exact absurd hk (lt_irrefl 0)

theorem axisOf_start (h : axisOf action p = some a) :
    axisOf action (moveAxis speed action p) =
      some (a.start speed action.value.toInt32.toInt) := by
  rw [axisOf_moveAxis, h, Option.map_some]

theorem Paced.call_of_issued_snoc {r : Paced} {c : ServoCall}
    (h : (ServoCall.step r.state (r.tick, c)).2.issued = r.state.2.issued ++ [i]) :
    (r.call c).cleared = false := by
  unfold call
  dsimp only
  rw [h, List.length_append]
  simp

/-- A dispatch that finds its axis too far from the target. -/
theorem late_step {r : Paced} {q : Fifo Nat} {e : PacedEvent} (h : Represents r.state q)
    (hn : ¬r.InTime e) : ∃ k q', Late k (r.step e) q' := by
  cases e with
  | Servo_Add_Action New storage action time =>
    obtain ⟨ha, hC, a, hax, hn⟩ : Allowed New storage action r.state.1 ∧ r.state.1.Current = 0 ∧
        ∃ a, axisOf action r.state.1.steppers = some a ∧
          ¬Paced.Enough r.tick (idlePace action time a) action a := by
      simpa [Paced.InTime] using hn
    have hq := h.current_iff.1 hC
    rw [h.steppers] at hax
    obtain ⟨pace, hrep, hidle⟩ := add_refines h ha r.tick r.now time
    rw [← hidle hq a hax] at hn
    rw [Fifo.add_of_idle hq] at hrep
    have hcleared := Paced.call_of_issued_snoc (i := ⟨action, pace.time, r.tick⟩)
      ((congrArg ServoHistory.issued hrep.history).trans (by rw [h.history]))
    exact ⟨_, _, late_start hrep hcleared rfl (List.getLast?_concat ..) rfl (axisOf_start hax) hn⟩
  | Servo_Server =>
    obtain ⟨hC, node, hnode, hdue, hNext, next, hnext, action, haction, a, hax, hn⟩ :
        r.state.1.Current ≠ 0 ∧ ∃ node, r.state.1.heap r.state.1.Current = some node ∧
          r.now - r.state.1.time_start ≥ node.time ∧ node.Next ≠ 0 ∧
          ∃ next, r.state.1.heap node.Next = some next ∧ ∃ action ∈ next.acts,
          ∃ a, axisOf action r.state.1.steppers = some a ∧
            ¬Paced.Enough r.tick next.pace action a := by
      simpa [Paced.InTime] using hn
    rw [h.steppers] at hax
    rw [h.time_start] at hdue
    obtain ⟨pace, hq⟩ := Option.ne_none_iff_exists'.1 fun h₀ => hC (h.current_iff.2 h₀)
    obtain ⟨w, waiting, hw⟩ := List.exists_cons_of_ne_nil fun hn => hNext (h.last_Next hq hn hnode)
    obtain ⟨node', next', hnode', htime, -, hnext', hacts, hpace⟩ := h.waiting_head hq hw
    obtain rfl : node = node' := Option.some.inj (hnode.symm.trans hnode')
    obtain rfl : next = next' := Option.some.inj (hnext.symm.trans hnext')
    obtain rfl : action = w.1 := List.mem_singleton.1 (hacts ▸ haction)
    rw [hpace] at hn
    rw [htime] at hdue
    obtain ⟨q', hrep, hstep⟩ := step_refines h (r.tick, .Servo_Server r.now r.now)
    cases hstep
    rw [Fifo.serve_next hq hdue hw] at hrep
    have hcleared := Paced.call_of_issued_snoc (i := ⟨w.1, w.2.time, r.tick⟩)
      ((congrArg ServoHistory.issued hrep.history).trans (by rw [h.history]))
    exact ⟨_, _, late_start hrep hcleared rfl (List.getLast?_concat ..) rfl (axisOf_start hax) hn⟩
  | TIM7 sw1 sw2 => exact absurd trivial hn
  | EXTI GPIO_Pin => exact absurd trivial hn

/-- In a run whose dispatches all find their axes such that the wait is long enough, an action
leaves the queue only when its axis has finished. Any other dispatch may be followed by interrupts
and a call of the server that removes an action too early. -/
theorem stepper_wait (tick : Nat) (s : Servo) (es : List PacedEvent)
    (h : Transition.StepsMeet Paced.step Paced.InTime (Paced.start tick s) es) :
    let r := Transition.run Paced.step (Paced.start tick s) es
    (∀ m ∈ r.removals, m.Finished) ∧
      ∀ e, r.InTime e ↔ ∀ n, ∀ m ∈ (Transition.run Paced.step (r.step e)
        (List.replicate n (.TIM7 true true) ++ [.Servo_Server])).removals, m.Finished := by
  intro r
  have hstart : ∃ q, Paces (Paced.start tick s) q := by
    let p := (do set_stepper_2 (-0xFFFF); set_stepper_1 (-0xFFFF)).exec s.steppers
    refine ⟨_, represents_empty { s with steppers := p }, ?_, ?_⟩
    · exact fun m hm => absurd hm List.not_mem_nil
    · exact fun pace hp => absurd hp.symm (Option.some_ne_none pace)
  have hr : ∃ q, Paces r q := Transition.run_invariant_of_meet
    (I := fun r => ∃ q, Paces r q) (fun r e hr hin => paces_step e hr hin) hstart h
  refine ⟨?_, fun e => ⟨fun hin n => ?_, fun hall => ?_⟩⟩
  · obtain ⟨q, hq⟩ := hr
    exact hq.finished
  · have hwait : Transition.StepsMeet Paced.step Paced.InTime (r.step e)
        (List.replicate n (.TIM7 true true)) := by
      generalize r.step e = r'
      induction n generalizing r' with
      | zero => trivial
      | succ n ih => exact ⟨trivial, ih _⟩
    obtain ⟨q, hq⟩ := Transition.run_invariant_of_meet
      (I := fun r => ∃ q, Paces r q) (fun r e hr hin => paces_step e hr hin)
      (paces_step e hr hin) hwait
    rw [Transition.run_snoc]
    exact hq.server
  · by_contra hn
    obtain ⟨q, hq⟩ := hr
    obtain ⟨k, q', hlate⟩ := late_step hq.represents hn
    obtain ⟨q'', hlate⟩ := hlate.run
    obtain ⟨m, hm, hunfinished⟩ := hlate.server
    have hmem := hall k m
    rw [Transition.run_snoc] at hmem
    exact hunfinished (hmem hm)

def tenSteps : List PacedEvent :=
  .Servo_Add_Action 1 2 ⟨0xFFF0, 10⟩ 1 :: List.replicate 20 (.TIM7 true true) ++ [.Servo_Server]

theorem tenSteps_finished :
    let removals := (Transition.run Paced.step (Paced.start 0 {}) tenSteps).removals
    removals.map Removal.action = [⟨0xFFF0, 10⟩] ∧ ∀ m ∈ removals, m.Finished :=
  ⟨by decide +kernel, (stepper_wait 0 {} tenSteps (by decide +kernel)).1⟩

/-- `callback_xy` asks for one step, and the server removes the action at once. -/
def oneStep : List PacedEvent := [.Servo_Add_Action 1 2 ⟨0xFFF0, 1⟩ (-1), .Servo_Server]

theorem oneStep_removed_early :
    ¬∀ m ∈ (Transition.run Paced.step (Paced.start 0 {}) oneStep).removals, m.Finished := by
  decide +kernel

end RobotCar

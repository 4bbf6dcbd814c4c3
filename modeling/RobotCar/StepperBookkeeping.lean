import RobotCar.Stepper

namespace RobotCar
open Concurrent
set_option autoImplicit true

inductive StepperCall where
  | set_stepper_1 (steps : Int)
  | set_stepper_2 (steps : Int)
  | set_speed_1 (speed : Int)
  | set_speed_2 (speed : Int)

inductive StepperInterrupt where
  | TIM7 (sw1 sw2 : Bool)
  | EXTI (GPIO_Pin : UInt16)

def stepperClient : Client AxisAccess Steppers StepperCall StepperInterrupt where
  handler
    | .set_stepper_1 steps => set_stepper_1 steps
    | .set_stepper_2 steps => set_stepper_2 steps
    | .set_speed_1 speed => set_speed_1 speed
    | .set_speed_2 speed => set_speed_2 speed
  env
    | .TIM7 sw1 sw2 => TIM7_IRQHandler sw1 sw2
    | .EXTI GPIO_Pin => HAL_GPIO_EXTI_Callback GPIO_Pin

/-- What the calls of `set_stepper_1` asked for and what they found. -/
structure TargetHistory where
  /-- a call has begun and has not stored yet -/
  busy : Bool := false
  asked : Int := 0
  loaded : Int := 0
  /-- the argument of the last completed call, or 450 after homing -/
  target : Int := 0
  /-- how far the total moved between the load and the store of that call -/
  drift : Int := 0
  deriving DecidableEq, Repr

namespace TargetHistory

def watch (l : AxisAccess) (s : Steppers) (h : TargetHistory) : TargetHistory :=
  match l with
  | .load_total => if h.busy then { h with loaded := s.axis1.current_halfstep_total } else h
  | .store_left =>
    if h.busy then
      { h with
        busy := false
        target := h.asked
        drift := s.axis1.current_halfstep_total - h.loaded }
    else h
  | .store_speed => h

def watchInterrupt (e : StepperInterrupt) (s : Steppers) (h : TargetHistory) : TargetHistory :=
  match e with
  | .TIM7 sw1 _ => if s.axis1.Clears sw1 then { h with target := 450, drift := 0 } else h
  | .EXTI _ => h

def watchCall (m : StepperCall) (_ : Steppers) (h : TargetHistory) : TargetHistory :=
  match m with
  | .set_stepper_1 steps => { h with busy := true, asked := steps }
  | _ => h

end TargetHistory

def recordedClient : Client AxisAccess (Steppers × TargetHistory) StepperCall StepperInterrupt :=
  stepperClient.history TargetHistory.watch TargetHistory.watchInterrupt TargetHistory.watchCall

/-- The books of axis 1 balance up to the drift of the last call. -/
def Balanced (r : Steppers × TargetHistory) : Prop :=
  r.1.axis1.current_halfstep_left + r.1.axis1.current_halfstep_total = -2 * r.2.target + r.2.drift

theorem Axis.stepper_ISR_balanced {a : Axis} (sw : Bool) :
    (a.stepper_ISR sw).current_halfstep_left + (a.stepper_ISR sw).current_halfstep_total =
      if a.Clears sw then -900 else a.current_halfstep_left + a.current_halfstep_total := by
  by_cases h : a.Clears sw
  · have hd : a.drive.Clears sw := a.drive_clears.2 h
    rw [if_pos h, stepper_ISR, home_of_clears hd]
    rfl
  · have hd : ¬a.drive.Clears sw := fun hc => h (a.drive_clears.1 hc)
    obtain ⟨count, flag, he⟩ := home_of_not_clears hd
    rw [if_neg h, stepper_ISR, he]
    exact a.drive_sum

theorem exti_axis1 (pin : UInt16) (s : Steppers) :
    ∃ flag, (HAL_GPIO_EXTI_Callback pin s).axis1 = { s.axis1 with clear_flag := flag } := by
  unfold HAL_GPIO_EXTI_Callback
  by_cases h : pin = SW_STEP1_Pin
  · refine ⟨true, ?_⟩
    rw [if_pos h]
    split <;> rfl
  · refine ⟨s.axis1.clear_flag, ?_⟩
    rw [if_neg h]
    split <;> rfl

theorem env_balanced {r : Steppers × TargetHistory} (e : StepperInterrupt) (h : Balanced r) :
    Balanced (recordedClient.env e r) := by
  cases e with
  | TIM7 sw1 sw2 =>
    have hs := r.1.axis1.stepper_ISR_balanced sw1
    change (r.1.axis1.stepper_ISR sw1).current_halfstep_left +
      (r.1.axis1.stepper_ISR sw1).current_halfstep_total = _
    rw [hs]
    by_cases hc : r.1.axis1.Clears sw1
    · simp only [recordedClient, Client.history, TargetHistory.watchInterrupt, if_pos hc]
      rfl
    · simp only [recordedClient, Client.history, TargetHistory.watchInterrupt, if_neg hc]
      exact h
  | EXTI pin =>
    obtain ⟨flag, he⟩ := exti_axis1 pin r.1
    change (HAL_GPIO_EXTI_Callback pin r.1).axis1.current_halfstep_left +
      (HAL_GPIO_EXTI_Callback pin r.1).axis1.current_halfstep_total = _
    rw [he]
    exact h

theorem env_record {r : Steppers × TargetHistory} (e : StepperInterrupt) :
    (recordedClient.env e r).2.busy = r.2.busy ∧
      (recordedClient.env e r).2.asked = r.2.asked ∧
      (recordedClient.env e r).2.loaded = r.2.loaded := by
  cases e with
  | TIM7 sw1 sw2 =>
    simp only [recordedClient, Client.history, TargetHistory.watchInterrupt]
    split <;> exact ⟨rfl, rfl, rfl⟩
  | EXTI pin => exact ⟨rfl, rfl, rfl⟩

/-- Between two calls the books balance and none is recorded as begun. -/
def Settled (r : Steppers × TargetHistory) : Prop := Balanced r ∧ r.2.busy = false

theorem env_settled {r : Steppers × TargetHistory} (e : StepperInterrupt) (h : Settled r) :
    Settled (recordedClient.env e r) :=
  ⟨env_balanced e h.1, (env_record e).1.trans h.2⟩

theorem interference_settled {r r' : Steppers × TargetHistory} (h : Settled r)
    (hr : recordedClient.Interference (fun _ _ => True) r r') : Settled r' := by
  obtain ⟨e, -, rfl⟩ := hr
  exact env_settled e h

theorem settled_other {r : Steppers × TargetHistory} {s : Steppers} (l : AxisAccess)
    (h : Settled r) (hl : s.axis1.current_halfstep_left = r.1.axis1.current_halfstep_left)
    (ht : s.axis1.current_halfstep_total = r.1.axis1.current_halfstep_total) :
    Settled (s, TargetHistory.watch l r.1 r.2) := by
  have hw : TargetHistory.watch l r.1 r.2 = r.2 := by
    cases l <;> simp [TargetHistory.watch, h.2]
  rw [hw]
  refine ⟨?_, h.2⟩
  change s.axis1.current_halfstep_left + s.axis1.current_halfstep_total = _
  rw [hl, ht]
  exact h.1

theorem set_stepper_1_settled {r : Steppers × TargetHistory} (steps : Int) (h : Settled r) :
    Safe (recordedClient.Interference fun _ _ => True) Balanced (fun _ => Settled)
      (recordedClient.handler (.set_stepper_1 steps))
      (recordedClient.arrive (.set_stepper_1 steps) r) := by
  -- before the load: the call is recorded, the books are those of the call before
  refine Safe.atomic (P := fun r => Balanced r ∧ r.2.busy = true ∧ r.2.asked = steps)
    ?_ ⟨h.1, rfl, rfl⟩ (fun r hr => hr.1) ?_
  · rintro r r' ⟨hb, hbusy, hasked⟩ ⟨e, -, rfl⟩
    obtain ⟨h₁, h₂, -⟩ := env_record (r := r) e
    exact ⟨env_balanced e hb, h₁.trans hbusy, h₂.trans hasked⟩
  rintro ⟨s, t⟩ r' ⟨hb, hbusy, hasked⟩ hr'
  cases hr'
  -- between the load and the store: the loaded total is recorded
  refine Safe.atomic (P := fun r => Balanced r ∧ r.2.busy = true ∧ r.2.asked = steps ∧
    r.2.loaded = s.axis1.current_halfstep_total) ?_ ?_ (fun r hr => hr.1) ?_
  · rintro r r' ⟨hb, hbusy, hasked, hloaded⟩ ⟨e, -, rfl⟩
    obtain ⟨h₁, h₂, h₃⟩ := env_record (r := r) e
    exact ⟨env_balanced e hb, h₁.trans hbusy, h₂.trans hasked, h₃.trans hloaded⟩
  · have hw : TargetHistory.watch .load_total s t =
        { t with loaded := s.axis1.current_halfstep_total } := if_pos hbusy
    change Balanced (s, TargetHistory.watch .load_total s t) ∧
      (TargetHistory.watch .load_total s t).busy = true ∧
      (TargetHistory.watch .load_total s t).asked = steps ∧
      (TargetHistory.watch .load_total s t).loaded = s.axis1.current_halfstep_total
    rw [hw]
    exact ⟨hb, hbusy, hasked, rfl⟩
  rintro ⟨s₁, t₁⟩ r' ⟨hb₁, hbusy₁, hasked₁, hloaded₁⟩ hr'
  cases hr'
  refine Safe.ret (P := Settled) (fun _ _ => interference_settled) ?_ fun r hr => ⟨hr.1, hr⟩
  have hw : TargetHistory.watch .store_left s₁ t₁ =
      { t₁ with
        busy := false
        target := t₁.asked
        drift := s₁.axis1.current_halfstep_total - t₁.loaded } := if_pos hbusy₁
  change Settled (_, TargetHistory.watch .store_left s₁ t₁)
  rw [hw]
  refine ⟨?_, rfl⟩
  change -2 * steps - s.axis1.current_halfstep_total + s₁.axis1.current_halfstep_total =
    -2 * t₁.asked + (s₁.axis1.current_halfstep_total - t₁.loaded)
  simp only at hasked₁ hloaded₁
  omega

/-- A call on axis 2 leaves the books of axis 1 alone. -/
theorem part2_preserves (t : Task AxisAccess Axis Unit) :
    ((t.zoom id Steppers.part2).history TargetHistory.watch).Preserves Settled := by
  induction t with
  | ret a => trivial
  | atomic l act next ih =>
    intro r hr
    refine ⟨fun r' hr' => ?_, ih _⟩
    cases ha : act (Steppers.part2.get r.1) with
    | none => simp [ha] at hr'
    | some a =>
      simp only [ha, Option.map_some, Option.some.injEq] at hr'
      subst hr'
      exact settled_other l hr rfl rfl

theorem set_speed_1_preserves (speed : Int) :
    (recordedClient.handler (.set_speed_1 speed)).Preserves Settled := by
  intro r hr
  refine ⟨fun r' hr' => ?_, trivial⟩
  cases hr'
  exact settled_other .store_speed hr rfl rfl

theorem safe_of_settled {t : Task AxisAccess (Steppers × TargetHistory) Unit}
    {r : Steppers × TargetHistory} (ht : t.Preserves Settled) (h : Settled r) :
    Safe (recordedClient.Interference fun _ _ => True) Balanced (fun _ => Settled) t r := by
  have hs := Safe.of_preserves (R := recordedClient.Interference fun _ _ => True) (P := Settled)
    (fun _ _ => interference_settled) ht h
  exact hs.mono (fun _ hs => hs.1) fun _ _ hs => hs

theorem run_balanced (es : List (Client.Event StepperCall StepperInterrupt)) :
    Balanced (recordedClient.run ({}, {}) es).shared := by
  have h₀ : Settled ({}, {}) := ⟨rfl, rfl⟩
  refine (recordedClient.safe (fun s e h => env_settled e h) (fun s h => h.1) ?_ h₀ es).holds
  intro m r h
  cases m with
  | set_stepper_1 steps => exact set_stepper_1_settled steps h
  | set_stepper_2 steps => exact safe_of_settled (part2_preserves _) h
  | set_speed_1 speed => exact safe_of_settled (set_speed_1_preserves speed) h
  | set_speed_2 speed => exact safe_of_settled (part2_preserves _) h

/-- After any calls and interrupts, the steps left and the steps done of axis 1 add up to the
last target exactly when the total did not move between the load and the store of the call that
set it. -/
theorem bookkeeping_exact (es : List (Client.Event StepperCall StepperInterrupt)) :
    let r := (recordedClient.run ({}, {}) es).shared
    r.1.axis1.current_halfstep_left + r.1.axis1.current_halfstep_total = -2 * r.2.target ↔
      r.2.drift = 0 := by
  intro r
  have h : Balanced r := run_balanced es
  unfold Balanced at h
  omega

/-- A half-step between the load and the store of a second call is lost. -/
theorem bookkeeping_lost_halfstep :
    ¬∀ es : List (Client.Event StepperCall StepperInterrupt),
      let r := (recordedClient.run ({}, {}) es).shared
      r.2.busy = false →
        r.1.axis1.current_halfstep_left + r.1.axis1.current_halfstep_total = -2 * r.2.target := by
  intro h
  have := h [.recv (.set_stepper_1 5), .step, .step, .recv (.set_stepper_1 3), .step,
    .env (.TIM7 true true), .env (.TIM7 true true), .step] rfl
  revert this
  decide

end RobotCar

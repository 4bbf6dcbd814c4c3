import RobotCar.ControlSteps
import RobotCar.Lib.Decides

namespace RobotCar
open Concurrent
set_option autoImplicit true
set_option linter.unusedSectionVars false

/-! ### H-bridges -/

/-- At most one register of each H-bridge is not zero. -/
def OneSided (regs : Compare → Int) : Prop := ∀ c, regs c = 0 ∨ regs c.partner = 0

/-- Every register holds a duty within the period of its timer. -/
def InPeriod (regs : Compare → Int) : Prop := ∀ c, 0 ≤ regs c ∧ regs c ≤ 11999

theorem oneSided_update (h : OneSided regs) (c : Compare) (v : Int) :
    OneSided (Function.update regs c v) ↔ v = 0 ∨ regs c.partner = 0 := by
  constructor
  · intro hn
    have hc := hn c
    rwa [Function.update_self, Function.update_of_ne c.partner_ne] at hc
  · intro hv c'
    by_cases hc : c' = c
    · rwa [hc, Function.update_self, Function.update_of_ne c.partner_ne]
    · rw [Function.update_of_ne hc]
      by_cases hp : c'.partner = c
      · subst hp
        rw [Function.update_self]
        rw [Compare.partner_partner] at hv
        exact hv.symm
      · rw [Function.update_of_ne hp]
        exact h c'

/-- What a sequence of writes leaves in the registers. -/
def written (ws : List (Compare × Int)) (regs : Compare → Int) : Compare → Int :=
  ws.foldl (fun regs w => Function.update regs w.1 w.2) regs

/-- A property of the registers at every moment of a sequence of writes. -/
def Throughout (J : (Compare → Int) → Prop) : List (Compare × Int) → (Compare → Int) → Prop
  | [], regs => J regs
  | w :: ws, regs => J regs ∧ Throughout J ws (Function.update regs w.1 w.2)

theorem Throughout.first {J : (Compare → Int) → Prop} (h : Throughout J ws regs) : J regs := by
  cases ws with
  | nil => exact h
  | cons w ws => exact h.1

theorem Throughout.last {J : (Compare → Int) → Prop} (h : Throughout J ws regs) :
    J (written ws regs) := by
  induction ws generalizing regs with
  | nil => exact h
  | cons w ws ih => exact ih h.2

theorem throughout_append {J : (Compare → Int) → Prop} {ws ws' : List (Compare × Int)} :
    Throughout J (ws ++ ws') regs ↔ Throughout J ws regs ∧ Throughout J ws' (written ws regs) := by
  induction ws generalizing regs with
  | nil => exact ⟨fun h => ⟨h.first, h⟩, fun h => h.2⟩
  | cons w ws ih =>
    change _ ∧ Throughout J (ws ++ ws') _ ↔ (_ ∧ _) ∧ _
    rw [ih, and_assoc]
    rfl

theorem written_of_notMem (h : c ∉ ws.map Prod.fst) : written ws regs c = regs c := by
  induction ws generalizing regs with
  | nil => rfl
  | cons w ws ih =>
    rw [List.map_cons, List.mem_cons, not_or] at h
    exact (ih h.2).trans (Function.update_of_ne h.1 ..)

theorem throughout_inPeriod (hws : ∀ w ∈ ws, 0 ≤ w.2 ∧ w.2 ≤ 11999) (h : InPeriod regs) :
    Throughout InPeriod ws regs := by
  induction ws generalizing regs with
  | nil => exact h
  | cons w ws ih =>
    refine ⟨h, ih (fun w' hw => hws w' (List.mem_cons_of_mem _ hw)) fun c => ?_⟩
    by_cases hc : c = w.1
    · rw [hc, Function.update_self]
      exact hws w List.mem_cons_self
    · rw [Function.update_of_ne hc]
      exact h c

theorem pair_oneSided (h : OneSided regs) (c : Compare) (v u : Int) {p : Prop} [Decidable p] :
    Throughout OneSided (if p then [(c, v), (c.partner, 0)] else [(c, 0), (c.partner, u)]) regs ↔
      (p → v = 0 ∨ regs c.partner = 0) := by
  by_cases hp : p
  · simp only [if_pos hp, Throughout, forall_prop_of_true hp]
    rw [oneSided_update h]
    constructor
    · exact fun hn => hn.2.1
    · intro hv
      have hs := (oneSided_update h c v).2 hv
      exact ⟨h, hv, (oneSided_update hs c.partner 0).2 (.inl rfl)⟩
  · rw [if_neg hp]
    refine ⟨fun _ hn => absurd hn hp, fun _ => ?_⟩
    have hs := (oneSided_update h c 0).2 (.inl rfl)
    refine ⟨h, hs, (oneSided_update hs c.partner u).2 (.inr ?_)⟩
    rw [Compare.partner_partner, Function.update_self]

/-- The writes of `Set_Pwm` that set a new side first find the old side at zero. -/
structure TurnsSafely (motor : Wheels Int) (regs : Compare → Int) : Prop where
  A : 0 < motor.A → regs (.htim1 1) = 0
  D : motor.D < 0 → regs (.htim1 3) = 0
  B : 0 < motor.B → regs (.htim8 1) = 0
  C : motor.C < 0 → regs (.htim8 3) = 0

theorem forward_oneSided (h : OneSided (written ws regs)) (c : Compare) (motor : Int)
    (hc : c.partner ∉ ws.map Prod.fst) :
    Throughout OneSided
        (if motor > 0 then [(c, motor), (c.partner, 0)] else [(c, 0), (c.partner, -motor)])
        (written ws regs) ↔
      (0 < motor → regs c.partner = 0) := by
  rw [pair_oneSided h, written_of_notMem hc]
  constructor
  · intro hn hm
    exact (hn hm).resolve_left (Int.ne_of_gt hm)
  · exact fun hn hm => .inr (hn hm)

theorem backward_oneSided (h : OneSided (written ws regs)) (c : Compare) (motor : Int)
    (hc : c.partner ∉ ws.map Prod.fst) :
    Throughout OneSided
        (if motor > 0 then [(c, 0), (c.partner, motor)] else [(c, -motor), (c.partner, 0)])
        (written ws regs) ↔
      (motor < 0 → regs c.partner = 0) := by
  rw [← ite_not, pair_oneSided h, written_of_notMem hc]
  constructor
  · intro hn hm
    exact (hn (by omega)).resolve_left (by omega)
  · intro hn hm
    by_cases hz : motor = 0
    · exact .inl (by omega)
    · exact .inr (hn (by omega))

theorem oneSided_append {p q : Prop} (hp : Throughout OneSided ws regs ↔ p)
    (hq : OneSided (written ws regs) → (Throughout OneSided ws' (written ws regs) ↔ q)) :
    Throughout OneSided (ws ++ ws') regs ↔ p ∧ q := by
  rw [throughout_append, hp]
  exact and_congr_right fun h => hq (hp.2 h).last

theorem pair_registers (c c' : Compare) (v v' u u' : Int) {p : Prop} [Decidable p] :
    (if p then [(c, v), (c', v')] else [(c, u), (c', u')]).map Prod.fst = [c, c'] := by
  split <;> rfl

/-- `Set_Pwm` keeps the bridges one-sided between any two of its writes exactly then. -/
theorem Set_Pwm_oneSided (h : OneSided regs) (motor : Wheels Int) :
    Throughout OneSided (Set_Pwm_writes motor.A motor.B motor.C motor.D) regs ↔
      TurnsSafely motor regs := by
  have hnil : OneSided (written [] regs) := h
  have hA := forward_oneSided hnil (.htim1 0) motor.A (by decide)
  have hD := oneSided_append hA fun h => backward_oneSided h (.htim1 2) motor.D (by
    rw [pair_registers]
    decide)
  have hB := oneSided_append hD fun h => forward_oneSided h (.htim8 0) motor.B (by
    rw [List.map_append, pair_registers, pair_registers]
    decide)
  have hC := oneSided_append hB fun h => backward_oneSided h (.htim8 2) motor.C (by
    rw [List.map_append, List.map_append, pair_registers, pair_registers, pair_registers]
    decide)
  exact hC.trans ⟨fun ⟨⟨⟨a, d⟩, b⟩, c⟩ => ⟨a, d, b, c⟩, fun ⟨a, d, b, c⟩ => ⟨⟨⟨a, d⟩, b⟩, c⟩⟩

def Limited (motor : Wheels Int) : Prop := ∀ w, -11999 ≤ motor.get w ∧ motor.get w ≤ 11999

theorem limit_bounds (h : 0 ≤ amplitude) (motor : Int) :
    -amplitude ≤ limit amplitude motor ∧ limit amplitude motor ≤ amplitude := by
  simp only [limit]
  split <;> split <;> omega

theorem Set_Pwm_inPeriod {motor : Wheels Int} (hm : Limited motor) (h : InPeriod regs) :
    Throughout InPeriod (Set_Pwm_writes motor.A motor.B motor.C motor.D) regs := by
  have hA : -11999 ≤ motor.A ∧ motor.A ≤ 11999 := hm .A
  have hB : -11999 ≤ motor.B ∧ motor.B ≤ 11999 := hm .B
  have hC : -11999 ≤ motor.C ∧ motor.C ≤ 11999 := hm .C
  have hD : -11999 ≤ motor.D ∧ motor.D ≤ 11999 := hm .D
  apply throughout_inPeriod _ h
  rintro ⟨c, v⟩ hw
  simp only [Set_Pwm_writes, List.mem_append] at hw
  rcases hw with ((hw | hw) | hw) | hw <;> split at hw <;>
    simp only [List.mem_cons, Prod.mk.injEq, List.not_mem_nil, or_false] at hw <;> omega

/-! ### The writes as steps -/

section
variable {K : Type} [Field K] [LinearOrder K] [FloorRing K] [Libm K]

abbrev Turning : Car K → Car K → Prop := (controlClient K).Interference fun _ _ => True

theorem outputs_stable {J : Wheels Int → (Compare → Int) → Prop} (s s' : Car K)
    (h : J s.Motor s.compare) (he : Turning s s') : J s'.Motor s'.compare := by
  obtain ⟨p, -, rfl⟩ := he
  exact h

theorem compare_steps_safe {J : (Compare → Int) → Prop} {ws : List (Compare × Int)} {s : Car K}
    (h : Throughout J ws s.compare) :
    Safe Turning (fun s => J s.compare) (fun _ s => J s.compare) (compare_steps ws) s := by
  induction ws generalizing s with
  | nil => exact Safe.ret (outputs_stable (J := fun _ => J)) h fun _ h => ⟨h, h⟩
  | cons w ws ih =>
    apply Safe.access (outputs_stable (J := fun _ => Throughout J (w :: ws))) h
    · exact fun _ h => h.1
    · exact fun _ h => ih h.2

theorem compare_steps_fail {J : (Compare → Int) → Prop} {ws : List (Compare × Int)} {s : Car K}
    (h : ¬Throughout J ws s.compare) :
    Fails Turning (fun s => J s.compare) (fun _ => True) (compare_steps ws) s := by
  induction ws generalizing s with
  | nil => exact Fails.now (outputs_stable (J := fun _ regs => ¬J regs)) h fun _ h => h
  | cons w ws ih =>
    by_cases hJ : J s.compare
    · apply Fails.access (outputs_stable (J := fun _ regs => ¬Throughout J ws
        (Function.update regs w.1 w.2)))
      · exact fun hn => h ⟨hJ, hn⟩
      · exact fun _ hn => ih hn
    · exact Fails.now (outputs_stable (J := fun _ regs => ¬J regs)) hJ fun _ h => h

def Entry_steps : Task (ControlAccess K) (Car K) Unit := do
  Task.update .targets Control_targets
  Encoder_steps .A
  Encoder_steps .B
  Encoder_steps .C
  Encoder_steps .D

def Motor_step : Task (ControlAccess K) (Car K) Unit :=
  Task.update .motors fun s => Xianfu_Pwm 11999 (Control_motors s)

theorem Control_steps_eq :
    Control_steps (K := K) = Entry_steps >>= fun _ => Motor_step >>= fun _ => Set_Pwm_steps := rfl

/-- `Set_Pwm` is called with a command that turns no bridge round unsafely. -/
def SetsSafely : ControlAccess K → Car K → Prop
  | .Set_Pwm, s => TurnsSafely s.Motor s.compare
  | .targets, _ | .read_counter _, _ | .reset_counter _, _ | .integrate _, _ | .motors, _
  | .set_compare _ _, _ | .call _, _ => True

def Inward (l : ControlAccess K) (s s' : Car K) : Prop :=
  SetsSafely l s ∧ s'.compare = s.compare

theorem encoder_inward (w : Wheel) : (Encoder_steps (K := K) w).Only Inward := by
  rw [Encoder_steps, Read_Encoder_steps]
  apply Task.only_bind
  · apply Task.only_bind
    · exact Task.only_access _ fun _ => ⟨trivial, rfl⟩
    · intro n
      have hreset : (Task.update (.reset_counter w) fun s : Car K =>
          (Read_Encoder w.TIMX s).2).Only Inward :=
        Task.only_access _ fun s => ⟨trivial, by cases w <;> rfl⟩
      exact Task.only_bind hreset fun _ => trivial
  · exact fun n => Task.only_access _ fun _ => ⟨trivial, rfl⟩

theorem entry_inward : (Entry_steps (K := K)).Only Inward := by
  have htargets : (Task.update .targets (Control_targets (K := K))).Only Inward :=
    Task.only_access _ fun s =>
      ⟨trivial, congrArg (fun o => o.2.2) (Control_targets_hardware s)⟩
  refine Task.only_bind htargets fun _ => ?_
  refine Task.only_bind (encoder_inward .A) fun _ => ?_
  refine Task.only_bind (encoder_inward .B) fun _ => ?_
  exact Task.only_bind (encoder_inward .C) fun _ => encoder_inward .D

theorem compare_steps_condition (ws : List (Compare × Int)) :
    (compare_steps (K := K) ws).Only fun l s _ => SetsSafely l s := by
  induction ws with
  | nil => trivial
  | cons w ws ih => exact Task.only_bind (Task.only_access _ fun _ => trivial) fun _ => ih

theorem motor_compare (s : Car K) : (Xianfu_Pwm 11999 (Control_motors s)).compare = s.compare :=
  congrArg (fun o => o.2.2) (Control_motors_hardware s)

theorem limited_motors (s : Car K) : Limited (Xianfu_Pwm 11999 s).Motor := by
  intro w
  cases w <;> exact limit_bounds (by decide) _

theorem job_cases (job : ControlJob K) :
    job = .Control ∨ ((controlClient K).handler job).Only Inward := by
  rcases job.tick_or_store with htick | ⟨t, heq, ht⟩
  · exact .inl htick
  · right
    rw [heq]
    apply (ht.zoom _ _).mono
    rintro l s s' ⟨c, a, rfl, rfl, hs⟩
    exact ⟨trivial, congrArg (fun o => o.2.2) hs⟩

theorem inward_safe {t : Task (ControlAccess K) (Car K) Unit} (ht : t.Only Inward)
    (J : (Compare → Int) → Prop) {s : Car K} (h : J s.compare) :
    Safe Turning (fun s => J s.compare) (fun _ s => J s.compare) t s := by
  refine Safe.of_preserves (outputs_stable (J := fun _ => J)) ?_ h
  exact ht.preserves fun l s s' h hs => hs.2 ▸ h

theorem job_inPeriod (job : ControlJob K) {s : Car K} (h : InPeriod s.compare) :
    Safe Turning (fun s => InPeriod s.compare) (fun _ s => InPeriod s.compare)
      ((controlClient K).handler job) s := by
  rcases job_cases job with rfl | hin
  · change Safe _ _ _ Control_steps s
    rw [Control_steps_eq]
    apply Safe.bind
    apply (inward_safe entry_inward InPeriod h).mono fun _ h => h
    intro _ s h
    apply Safe.access (outputs_stable (J := fun _ => InPeriod)) h fun _ h => h
    intro s h
    have hl : Limited (Xianfu_Pwm 11999 (Control_motors s)).Motor := limited_motors _
    have hp : InPeriod (Xianfu_Pwm 11999 (Control_motors s)).compare := by
      rw [motor_compare]
      exact h
    apply Safe.access (outputs_stable (J := fun motor regs => Limited motor ∧ InPeriod regs))
      ⟨hl, hp⟩ fun _ h => h.2
    exact fun s h => compare_steps_safe (Set_Pwm_inPeriod h.1 h.2)
  · exact inward_safe hin InPeriod h

/-- The call of `Set_Pwm` decides whether its bridges stay one-sided. -/
theorem job_oneSided (job : ControlJob K) {s : Car K} (h : OneSided s.compare) :
    Decides Turning SetsSafely (fun s => OneSided s.compare) (fun _ => True)
      (fun _ s => OneSided s.compare) ((controlClient K).handler job) s := by
  rcases job_cases job with rfl | hin
  · change Decides _ _ _ _ _ Control_steps s
    rw [Control_steps_eq]
    apply Decides.bind_safe (entry_inward.mono fun _ _ _ h => h.1)
    apply (inward_safe entry_inward OneSided h).mono fun _ h => h
    intro _ s h
    apply Decides.access (outputs_stable (J := fun _ => OneSided)) h fun _ h => h
    · intro s h _
      have hp : OneSided (Xianfu_Pwm 11999 (Control_motors s)).compare := by
        rw [motor_compare]
        exact h
      apply Decides.access (outputs_stable (J := fun _ => OneSided)) hp fun _ h => h
      · intro s h hsafe
        apply Decides.of_safe (compare_steps_condition _)
        exact compare_steps_safe ((Set_Pwm_oneSided h s.Motor).2 hsafe)
      · exact fun s h hn => compare_steps_fail fun ht => hn ((Set_Pwm_oneSided h s.Motor).1 ht)
    · exact fun s _ hn => absurd trivial hn
  · exact Decides.of_safe (hin.mono fun _ _ _ h => h.1) (inward_safe hin OneSided h)

/-- At every moment of every run the registers are in their period, and the bridges are one-sided
exactly when `Set_Pwm` is called only with commands that turn no bridge round unsafely. -/
theorem bridge_outputs (es : List (Client.Event (ControlJob K) (Wheel × Bool))) :
    let k n := (controlClient K).run Car.initial (es.take n)
    let safely := Transition.StepsMeet (controlClient K).step (Client.Own SetsSafely)
      (Client.start Car.initial) es
    (∀ n, InPeriod (k n).shared.compare) ∧ (safely → ∀ n, OneSided (k n).shared.compare) ∧
      (Client.Idle ((controlClient K).run Car.initial es) →
        (∀ n, OneSided (k n).shared.compare) → safely) := by
  intro k safely
  have hperiod : InPeriod (Car.initial : Car K).compare :=
    fun _ => (by decide : (0 : Int) ≤ 0 ∧ (0 : Int) ≤ 11999)
  have hsided : OneSided (Car.initial : Car K).compare := fun _ => .inl rfl
  have hstart : Decides Turning SetsSafely (fun s => OneSided s.compare) (fun _ => True)
      (fun _ s => OneSided s.compare)
      (Client.start (L := ControlAccess K) (Car.initial : Car K)).current Car.initial :=
    Decides.ret (outputs_stable (J := fun _ => OneSided)) hsided fun _ h => ⟨h, h⟩
  have hgood := (controlClient K).good_of_own (fun _ _ => trivial)
    (fun job _ h => job_oneSided job h) (Client.start Car.initial) hstart es
    ((controlClient K).meets_of_messages _ fun _ _ => trivial)
  refine ⟨fun n => ?_, fun hsafely n => (hgood.1 hsafely n).1, ?_⟩
  · have hsafe := (controlClient K).safe (I := fun s => InPeriod s.compare) (fun _ _ h => h)
      (fun _ h => h) (fun job _ h => job_inPeriod job h) hperiod (es.take n)
    exact hsafe.holds
  · exact fun hend hall => hgood.2 hend fun n => ⟨hall n, fun _ => trivial⟩

end

/-- Forward in one tick and backward in the next, in speed mode. -/
def reversal : List (Client.Event (ControlJob ℚ) (Wheel × Bool)) :=
  [.recv (.Set_Move ⟨0, 100, 0⟩), .step, .recv .Control] ++ List.replicate 23 .step ++
    [.recv (.Set_Move ⟨0, -100, 0⟩), .step, .recv .Control] ++ List.replicate 16 .step

/-- The new side of the bridge of motor A is set while the old one still is. -/
theorem reversal_shorted :
    ¬∀ es : List (Client.Event (ControlJob ℚ) (Wheel × Bool)),
      OneSided ((controlClient ℚ).run Car.initial es).shared.compare := by
  intro h
  have hA := h reversal (.htim1 0)
  revert hA
  decide +kernel

end RobotCar

import Mathlib.Algebra.Order.Group.Unbundled.Int
import Mathlib.Tactic.ByContra
import RobotCar.StepperBookkeeping

namespace RobotCar
open Concurrent
set_option autoImplicit true

/-! ### Pulses on the pins -/

namespace Axis

/-- The next interrupt makes a half-step. -/
def Steps (a : Axis) : Prop := a.counter + 1 ≥ a.current_speed ∧ a.current_halfstep_left ≠ 0

instance (a : Axis) : Decidable a.Steps := inferInstanceAs (Decidable (_ ∧ _))

/-- If the next interrupt makes the half-step that raises `STEP`, it goes the way of the half-step
before it, which left its direction on `DIR`. -/
def Straight (a : Axis) : Prop :=
  a.Steps → a.state = true → (a.DIR = true ↔ a.current_halfstep_left > 0)

instance (a : Axis) : Decidable a.Straight := inferInstanceAs (Decidable (_ → _ → _))

theorem drive_of_steps {a : Axis} (h : a.Steps) : a.drive = { a.halfstep with counter := 0 } := by
  simp only [drive, if_pos h.1, ne_eq, h.2, not_false_eq_true, if_true, halfstep]
  split <;> rfl

theorem drive_of_not_steps {a : Axis} (h : ¬a.Steps) :
    ∃ counter, a.drive = { a with counter := counter } := by
  simp only [drive]
  split
  · rename_i hc
    have hleft : ¬a.current_halfstep_left ≠ 0 := fun hleft => h ⟨hc, hleft⟩
    rw [if_neg hleft]
    exact ⟨_, rfl⟩
  · exact ⟨_, rfl⟩

theorem halfstep_state (a : Axis) : a.halfstep.state = !a.state := by
  simp only [halfstep]
  split <;> rfl

theorem home_of_flag {a : Axis} (h : a.clear_flag = false) (sw : Bool) : a.home sw = a := by
  rw [home, h]
  rfl

end Axis

/-- The rising edges of `STEP` with `DIR` set, minus those with `DIR` reset. -/
def countPulse (a a' : Axis) (p : Int) : Int :=
  if a.STEP = false ∧ a'.STEP = true then if a'.DIR then p + 1 else p - 1 else p

/-- The calls of the tasks and the timer interrupts, without edges of the limit switches. -/
def pulseClient : Client AxisAccess Steppers StepperCall (Bool × Bool) where
  handler := stepperClient.handler
  env sw := TIM7_IRQHandler sw.1 sw.2

/-- The history counts the pulses of axis 1. -/
def recordedPulses : Client AxisAccess (Steppers × Int) StepperCall (Bool × Bool) :=
  pulseClient.history (fun _ _ p => p)
    (fun sw s p => countPulse s.axis1 (TIM7_IRQHandler sw.1 sw.2 s).axis1 p) fun _ _ p => p

/-! ### The counter and the pins -/

/-- Two half-steps in one direction make one pulse; `state` says that the first one is done. -/
structure Tracks (a : Axis) (p : Int) : Prop where
  flag : a.clear_flag = false
  low : a.state = true → a.STEP = false
  even : a.state = false → a.current_halfstep_total = 2 * p
  odd : a.state = true → a.current_halfstep_total = 2 * p + if a.DIR then 1 else -1

def Tracked (a : Axis) (p : Int) : Prop := |a.current_halfstep_total - 2 * p| ≤ 1

theorem Tracks.tracked (h : Tracks a p) : Tracked a p := by
  unfold Tracked
  cases hs : a.state with
  | false =>
    rw [h.even hs, sub_self]
    decide
  | true =>
    rw [h.odd hs, add_sub_cancel_left]
    split <;> decide

theorem Tracks.congr (h : Tracks a p) (hflag : a'.clear_flag = a.clear_flag)
    (hstate : a'.state = a.state) (hSTEP : a'.STEP = a.STEP) (hDIR : a'.DIR = a.DIR)
    (htotal : a'.current_halfstep_total = a.current_halfstep_total) : Tracks a' p := by
  obtain ⟨h₁, h₂, h₃, h₄⟩ := h
  constructor
  · rwa [hflag]
  · rwa [hstate, hSTEP]
  · rwa [hstate, htotal]
  · rwa [hstate, htotal, hDIR]

theorem Tracks.first (h : Tracks a p) (hs : a.state = false) :
    countPulse a { a.halfstep with counter := 0 } p = p ∧
      Tracks { a.halfstep with counter := 0 } p := by
  have heven := h.even hs
  by_cases hl : a.current_halfstep_left > 0
  · refine ⟨?_, ?_, ?_, ?_, ?_⟩ <;> simp [countPulse, Axis.halfstep, hs, hl, h.flag, heven]
  · refine ⟨?_, ?_, ?_, ?_, ?_⟩ <;>
      simp [countPulse, Axis.halfstep, hs, hl, h.flag, heven, sub_eq_add_neg]

theorem Tracks.second_total (h : Tracks a p) (hs : a.state = true) :
    a.halfstep.current_halfstep_total -
        2 * countPulse a { a.halfstep with counter := 0 } p =
      (if a.DIR then 1 else -1) - if a.current_halfstep_left > 0 then 1 else -1 := by
  have hodd := h.odd hs
  have hlow := h.low hs
  by_cases hl : a.current_halfstep_left > 0
  · have hp : countPulse a { a.halfstep with counter := 0 } p = p + 1 := by
      simp [countPulse, Axis.halfstep, hs, hl, hlow]
    have htotal : a.halfstep.current_halfstep_total = a.current_halfstep_total + 1 := by
      simp [Axis.halfstep, hl]
    rw [hp, htotal, hodd, if_pos hl]
    omega
  · have hp : countPulse a { a.halfstep with counter := 0 } p = p - 1 := by
      simp [countPulse, Axis.halfstep, hs, hl, hlow]
    have htotal : a.halfstep.current_halfstep_total = a.current_halfstep_total - 1 := by
      simp [Axis.halfstep, hl]
    rw [hp, htotal, hodd, if_neg hl]
    omega

theorem Tracks.second (h : Tracks a p) (hs : a.state = true)
    (hdir : a.DIR = true ↔ a.current_halfstep_left > 0) :
    Tracks { a.halfstep with counter := 0 } (countPulse a { a.halfstep with counter := 0 } p) := by
  have htotal := h.second_total hs
  have hstate : a.halfstep.state = false := by
    rw [a.halfstep_state, hs]
    rfl
  have hflag : a.halfstep.clear_flag = a.clear_flag := by
    simp only [Axis.halfstep]
    split <;> rfl
  have hsame : (if a.DIR then (1 : Int) else -1) =
      if a.current_halfstep_left > 0 then 1 else -1 := if_congr hdir rfl rfl
  rw [hsame, sub_self] at htotal
  refine ⟨hflag.trans h.flag, fun hn => ?_, fun _ => sub_eq_zero.1 htotal, fun hn => ?_⟩
  · exact absurd (hstate.symm.trans hn) Bool.false_ne_true
  · exact absurd (hstate.symm.trans hn) Bool.false_ne_true

/-- A pulse against the direction of its first half-step moves the count away by two. -/
theorem Tracks.second_lost (h : Tracks a p) (hs : a.state = true)
    (hdir : ¬(a.DIR = true ↔ a.current_halfstep_left > 0)) :
    ¬Tracked { a.halfstep with counter := 0 }
      (countPulse a { a.halfstep with counter := 0 } p) := by
  unfold Tracked
  have htotal := h.second_total hs
  dsimp only at htotal ⊢
  rw [htotal]
  by_cases hl : a.current_halfstep_left > 0
  · have hD : ¬a.DIR = true := fun hD => hdir ⟨fun _ => hl, fun _ => hD⟩
    rw [if_pos hl, if_neg hD]
    decide
  · have hD : a.DIR = true := by
      by_contra hD
      exact hdir ⟨fun h => absurd h hD, fun h => absurd h hl⟩
    rw [if_neg hl, if_pos hD]
    decide

/-- The axis and its count after an interrupt, when no homing is due. -/
theorem pulse_interrupt (sw : Bool × Bool) {r : Steppers × Int}
    (h : r.1.axis1.clear_flag = false) :
    (recordedPulses.env sw r).1.axis1 = r.1.axis1.drive ∧
      (recordedPulses.env sw r).2 = countPulse r.1.axis1 r.1.axis1.drive r.2 := by
  have hd : r.1.axis1.drive.clear_flag = false := (Axis.drive_clear_flag _).trans h
  have haxis : (TIM7_IRQHandler sw.1 sw.2 r.1).axis1 = r.1.axis1.drive :=
    Axis.home_of_flag hd sw.1
  exact ⟨haxis, congrArg (countPulse r.1.axis1 · r.2) haxis⟩

theorem Tracks.drive (h : Tracks a p) (hs : a.Straight) :
    Tracks a.drive (countPulse a a.drive p) := by
  by_cases hstep : a.Steps
  · rw [Axis.drive_of_steps hstep]
    cases hst : a.state with
    | false =>
      obtain ⟨hp, ht⟩ := h.first hst
      rw [hp]
      exact ht
    | true => exact h.second hst (hs hstep hst)
  · obtain ⟨counter, hd⟩ := Axis.drive_of_not_steps hstep
    have hp : countPulse a { a with counter := counter } p = p :=
      if_neg fun hn => absurd (hn.1.symm.trans hn.2) Bool.false_ne_true
    rw [hd, hp]
    exact h.congr rfl rfl rfl rfl rfl

theorem Tracks.drive_lost (h : Tracks a p) (hs : ¬a.Straight) :
    ¬Tracked a.drive (countPulse a a.drive p) := by
  simp only [Axis.Straight, Classical.not_imp] at hs
  obtain ⟨hstep, hst, hdir⟩ := hs
  rw [Axis.drive_of_steps hstep]
  exact h.second_lost hst hdir

/-! ### Runs -/

theorem call_tracks (c : StepperCall) :
    (recordedPulses.handler c).Preserves fun r => Tracks r.1.axis1 r.2 := by
  have hstep {t : Task AxisAccess Axis Unit} (part : Task.Part Steppers Axis)
      (ht : t.Only fun _ a a' => ∀ p, Tracks a p → Tracks a' p)
      (hpart : ∀ s a, (part.set a s).axis1 = s.axis1 ∨ part.get s = s.axis1 ∧
        (part.set a s).axis1 = a) :
      ((t.zoom id part).history fun _ _ p => p).Preserves fun r => Tracks r.1.axis1 r.2 := by
    apply ((ht.zoom id part).history _).preserves
    rintro l ⟨s, p⟩ ⟨s', p'⟩ h ⟨⟨l', a, -, rfl, hT⟩, hp⟩
    cases hp
    rcases hpart s a with he | ⟨hg, he⟩
    · exact he ▸ h
    · dsimp only at h ⊢
      rw [he]
      exact hT p (hg ▸ h)
  have hset (steps : Int) :
      (Axis.set_stepper steps).Only fun _ a a' => ∀ p, Tracks a p → Tracks a' p := by
    apply Task.only_bind
    · exact Task.only_access _ fun _ _ h => h
    · exact fun _ => Task.only_access _ fun _ _ h => h.congr rfl rfl rfl rfl rfl
  have hspeed (speed : Int) :
      (Axis.set_speed speed).Only fun _ a a' => ∀ p, Tracks a p → Tracks a' p :=
    Task.only_access _ fun _ _ h => h.congr rfl rfl rfl rfl rfl
  cases c with
  | set_stepper_1 steps => exact hstep Steppers.part1 (hset steps) fun _ _ => .inr ⟨rfl, rfl⟩
  | set_stepper_2 steps => exact hstep Steppers.part2 (hset steps) fun _ _ => .inl rfl
  | set_speed_1 speed => exact hstep Steppers.part1 (hspeed speed) fun _ _ => .inr ⟨rfl, rfl⟩
  | set_speed_2 speed => exact hstep Steppers.part2 (hspeed speed) fun _ _ => .inl rfl

/-- The count and the pulses stay together throughout a run exactly when every half-step that
raises `STEP` goes the way of the half-step before it. -/
theorem pulses_tracked (es : List (Client.Event StepperCall (Bool × Bool))) :
    (∀ n, let r := (recordedPulses.run ({}, 0) (es.take n)).shared
      |r.1.axis1.current_halfstep_total - 2 * r.2| ≤ 1) ↔
    Transition.StepsMeet recordedPulses.step
      (Client.Meets (fun r _ => r.1.axis1.Straight) fun _ => True)
      (Client.start ({}, 0)) es := by
  let I (r : Steppers × Int) : Prop := Tracks r.1.axis1 r.2
  have henv (r : Steppers × Int) (sw : Bool × Bool) (h : I r) (hs : r.1.axis1.Straight) :
      I (recordedPulses.env sw r) := by
    obtain ⟨haxis, hp⟩ := pulse_interrupt sw h.flag
    change Tracks _ _
    rw [haxis, hp]
    exact h.drive hs
  have hbad (r : Steppers × Int) (sw : Bool × Bool) (h : I r) (hs : ¬r.1.axis1.Straight) :
      ¬Tracked (recordedPulses.env sw r).1.axis1 (recordedPulses.env sw r).2 := by
    obtain ⟨haxis, hp⟩ := pulse_interrupt sw h.flag
    rw [haxis, hp]
    exact h.drive_lost hs
  have hrecv (c : StepperCall) (r : Steppers × Int) (h : I r) :
      Safe (recordedPulses.Interference fun r _ => r.1.axis1.Straight) I (fun _ => I)
        (recordedPulses.handler c) (recordedPulses.arrive c r) := by
    refine Safe.of_preserves ?_ (call_tracks c) h
    rintro r r' h ⟨sw, hs, rfl⟩
    exact henv r sw h hs
  have h₀ : I ({}, 0) := ⟨rfl, fun _ => rfl, fun _ => rfl, fun h => absurd h Bool.false_ne_true⟩
  exact recordedPulses.always_iff_meets (P := fun r => Tracked r.1.axis1 r.2) henv (fun _ h => h)
    hrecv (fun _ h => h.tracked) hbad h₀ es

/-- A retarget between the two half-steps of a pulse turns the pulse round. -/
theorem pulse_turned_round :
    ¬∀ es : List (Client.Event StepperCall (Bool × Bool)),
      let r := (recordedPulses.run ({}, 0) es).shared
      |r.1.axis1.current_halfstep_total - 2 * r.2| ≤ 1 := by
  intro h
  have := h [.recv (.set_stepper_1 (-1)), .step, .step, .env (true, true), .env (true, true),
    .recv (.set_stepper_1 0), .step, .step, .env (true, true), .env (true, true)]
  revert this
  decide

end RobotCar

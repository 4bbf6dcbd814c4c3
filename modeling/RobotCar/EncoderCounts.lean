import Mathlib.Algebra.Order.Group.Unbundled.Int
import Mathlib.Tactic.ByContra
import RobotCar.ControlSteps
import RobotCar.Lib.Decides

namespace RobotCar
open Concurrent
set_option autoImplicit true
set_option linter.unusedSectionVars false

/-! ### Counters that wrap -/

namespace Wheel

theorem period_large (w : Wheel) : (65536 : Int) ≤ w.period := by cases w <;> decide

end Wheel

/-- The net number of pulses in one. -/
def direction (up : Bool) : Int := if up then 1 else -1

namespace Counters

theorem value_pulse (c : Counters) (up : Bool) (w : Wheel) :
    (c.pulse up w).value w = (c.value w + direction up).bmod w.period := by
  cases w <;> cases up <;>
    simp [pulse, value, direction, Wheel.period, Int32.toInt_add, Int32.toInt_sub, Int16.toInt_add,
      Int16.toInt_sub, Int.sub_eq_add_neg]

theorem value_pulse_of_ne (c : Counters) (up : Bool) (h : w' ≠ w) :
    (c.pulse up w).value w' = c.value w' := by
  cases w <;> cases w' <;> first | rfl | exact absurd rfl h

end Counters

theorem bmod_of_few (w : Wheel) {n : Int} (h : |n| < 32768) : n.bmod w.period = n := by
  have hp := w.period_large
  rw [abs_lt] at h
  apply Int.bmod_eq_of_le_mul_two <;> omega

/-- Two counts that the counter cannot tell from each other are the same, or far apart. -/
theorem eq_zero_of_bmod (w : Wheel) {n g : Int} (hg : |g| < 32768)
    (h : (n - g).bmod w.period = n.bmod w.period) : g = 0 := by
  have hz := Int.bmod_eq_bmod_iff_bmod_sub_eq_zero.1 h.symm
  rwa [Int.sub_sub_self, bmod_of_few w hg] at hz

/-! ### What a run has counted -/

structure Pulses where
  /-- The pulses up minus those down, since power-up. -/
  net : Wheel → Int := fun _ => 0
  /-- The same since the last read of the counter. -/
  since : Wheel → Int := fun _ => 0

namespace Pulses

def watch : ControlAccess K → Car K → Pulses → Pulses
  | .read_counter w, _, h => { h with since := Function.update h.since w 0 }
  | .targets, _, h | .reset_counter _, _, h | .integrate _, _, h | .motors, _, h
  | .Set_Pwm, _, h | .set_compare _ _, _, h | .call _, _, h => h

def count (p : Wheel × Bool) (h : Pulses) : Pulses where
  net := Function.update h.net p.1 (h.net p.1 + direction p.2)
  since := Function.update h.since p.1 (h.since p.1 + direction p.2)

end Pulses

/-- Fewer than 32768 net pulses since the last read. -/
def FewPulses (r : Car K × Pulses) (p : Wheel × Bool) : Prop :=
  |r.2.since p.1 + direction p.2| < 32768

instance (r : Car K × Pulses) (p : Wheel × Bool) : Decidable (FewPulses r p) :=
  inferInstanceAs (Decidable (_ < _))

/-- When a counter is reset, no net pulse has come since it was read. -/
def ResetsAtOnce : ControlAccess K → Car K × Pulses → Prop
  | .reset_counter w, r => r.2.since w = 0
  | .targets, _ | .read_counter _, _ | .integrate _, _ | .motors, _ | .Set_Pwm, _
  | .set_compare _ _, _ | .call _, _ => True

instance : (l : ControlAccess K) → (r : Car K × Pulses) → Decidable (ResetsAtOnce l r)
  | .reset_counter _, _ => inferInstanceAs (Decidable (_ = _))
  | .targets, _ | .read_counter _, _ | .integrate _, _ | .motors, _ | .Set_Pwm, _
  | .set_compare _ _, _ | .call _, _ => instDecidableTrue

/-- No pulse is lost or counted twice. -/
def AllCounted (r : Car K × Pulses) : Prop :=
  ∀ w : Wheel, w.sign * r.1.Position.get w + r.1.counters.value w = r.2.net w

/-- A wheel's books, with a reading `held` that is not in the position yet, and `gone` pulses that
the counter does not show. -/
structure Counted (w : Wheel) (held gone : Int) (r : Car K × Pulses) : Prop where
  net : w.sign * r.1.Position.get w + held + r.2.since w = r.2.net w
  value : r.1.counters.value w = (r.2.since w - gone).bmod w.period
  few : |r.2.since w| < 32768

theorem Counted.congr {r r' : Car K × Pulses} (h : Counted w held gone r)
    (hposition : r'.1.Position.get w = r.1.Position.get w)
    (hvalue : r'.1.counters.value w = r.1.counters.value w) (hnet : r'.2.net w = r.2.net w)
    (hsince : r'.2.since w = r.2.since w) : Counted w held gone r' := by
  obtain ⟨h₁, h₂, h₃⟩ := h
  constructor
  · rw [hposition, hsince, hnet, h₁]
  · rw [hvalue, hsince, h₂]
  · rw [hsince]
    exact h₃

theorem Counted.balanced {r : Car K × Pulses} (h : Counted w 0 0 r) :
    w.sign * r.1.Position.get w + r.1.counters.value w = r.2.net w := by
  rw [h.value, sub_zero, bmod_of_few w h.few, ← h.net, add_zero]

theorem Counted.unbalanced {r : Car K × Pulses} (h : Counted w 0 gone r) (hgone : gone ≠ 0)
    (hfew : |gone| < 32768) :
    w.sign * r.1.Position.get w + r.1.counters.value w ≠ r.2.net w := by
  intro hb
  rw [← h.net, add_zero, add_right_inj, h.value] at hb
  apply hgone
  apply eq_zero_of_bmod w hfew
  rw [hb, bmod_of_few w h.few]

section
variable {K : Type} [Field K] [LinearOrder K] [FloorRing K] [Libm K]

def recordedCounts (K : Type) [Field K] [LinearOrder K] [FloorRing K] [Libm K] :
    Client (ControlAccess K) (Car K × Pulses) (ControlJob K) (Wheel × Bool) :=
  (controlClient K).history Pulses.watch (fun p _ h => h.count p) fun _ _ h => h

abbrev Counting : Car K × Pulses → Car K × Pulses → Prop :=
  (recordedCounts K).Interference FewPulses

/-- The wheel `w` is being read, and the books of the others are straight. -/
def Held (w : Wheel) (held gone : Int) (r : Car K × Pulses) : Prop :=
  Counted w held gone r ∧ ∀ w' ≠ w, Counted w' 0 0 r

def Straightened (r : Car K × Pulses) : Prop := ∀ w, Counted w 0 0 r

theorem Straightened.held {r : Car K × Pulses} (h : Straightened r) (w : Wheel) : Held w 0 0 r :=
  ⟨h w, fun w' _ => h w'⟩

theorem Held.straightened {r : Car K × Pulses} (h : Held w 0 0 r) : Straightened r := by
  intro w'
  by_cases he : w' = w
  · rw [he]
    exact h.1
  · exact h.2 w' he

/-! ### Pulses and steps -/

theorem counted_stable (r r' : Car K × Pulses) (h : Counted w held gone r) (he : Counting r r') :
    Counted w held gone r' := by
  obtain ⟨⟨w', up⟩, hfew, rfl⟩ := he
  by_cases hw : w = w'
  · subst hw
    have hnet : (r.2.count (w, up)).net w = r.2.net w + direction up := Function.update_self ..
    have hsince : (r.2.count (w, up)).since w = r.2.since w + direction up :=
      Function.update_self ..
    constructor
    · change w.sign * r.1.Position.get w + held + (r.2.count (w, up)).since w =
        (r.2.count (w, up)).net w
      rw [hnet, hsince, ← h.net, ← add_assoc]
    · change (r.1.counters.pulse up w).value w =
        ((r.2.count (w, up)).since w - gone).bmod w.period
      rw [hsince, Counters.value_pulse, h.value, Int.bmod_add_bmod, sub_add_eq_add_sub]
    · change |(r.2.count (w, up)).since w| < 32768
      rw [hsince]
      exact hfew
  · refine h.congr ?_ ?_ ?_ ?_
    · rfl
    · exact Counters.value_pulse_of_ne _ _ hw
    · exact Function.update_of_ne hw ..
    · exact Function.update_of_ne hw ..

theorem held_stable (r r' : Car K × Pulses) (h : Held w held gone r) (he : Counting r r') :
    Held w held gone r' :=
  ⟨counted_stable r r' h.1 he, fun w' hw => counted_stable r r' (h.2 w' hw) he⟩

theorem straightened_stable (r r' : Car K × Pulses) (h : Straightened r) (he : Counting r r') :
    Straightened r' := fun w => counted_stable r r' (h w) he

theorem value_of_few {r : Car K × Pulses} (h : Counted w 0 0 r) :
    (Read_Encoder w.TIMX r.1).1 = r.2.since w := by
  have hv : (Read_Encoder w.TIMX r.1).1 = r.1.counters.value w := by cases w <;> rfl
  rw [hv, h.value, sub_zero, bmod_of_few w h.few]

def Apart (w : Wheel) (_ : ControlAccess K) (r r' : Car K × Pulses) : Prop :=
  ∀ held gone, Counted w held gone r → Counted w held gone r'

theorem read_apart (hw : w ≠ w') (r : Car K × Pulses) :
    Apart w (.read_counter w') r (r.1, { r.2 with since := Function.update r.2.since w' 0 }) :=
  fun _ _ h => h.congr rfl rfl rfl (Function.update_of_ne hw ..)

theorem reset_apart (hw : w ≠ w') (r : Car K × Pulses) :
    Apart w (.reset_counter w') r ((Read_Encoder w'.TIMX r.1).2, r.2) := by
  intro held gone h
  refine h.congr ?_ ?_ rfl rfl
  · cases w' <;> rfl
  · cases w <;> cases w' <;> first | rfl | exact absurd rfl hw

theorem integrate_apart (hw : w ≠ w') (n : Int) (r : Car K × Pulses) :
    Apart w (.integrate w') r (integrate w' n r.1, r.2) :=
  fun _ _ h => h.congr (Wheels.get_set_of_ne _ _ hw) rfl rfl rfl

theorem Held.read {r : Car K × Pulses} (h : Held w 0 0 r) :
    Held w (Read_Encoder w.TIMX r.1).1 (-(Read_Encoder w.TIMX r.1).1)
      (r.1, { r.2 with since := Function.update r.2.since w 0 }) := by
  rw [value_of_few h.1]
  have hsince : Function.update r.2.since w 0 w = 0 := Function.update_self ..
  refine ⟨⟨?_, ?_, ?_⟩, fun w' hw => read_apart hw r 0 0 (h.2 w' hw)⟩
  · dsimp only
    rw [hsince, add_zero, ← h.1.net, add_zero]
  · dsimp only
    rw [hsince, zero_sub, neg_neg, h.1.value, sub_zero]
  · dsimp only
    rw [hsince]
    decide

theorem Counted.reset {r : Car K × Pulses} (h : Counted w held gone r) :
    Counted w held (r.2.since w) ((Read_Encoder w.TIMX r.1).2, r.2) := by
  refine ⟨?_, ?_, h.few⟩
  · rw [← h.net]
    cases w <;> rfl
  · rw [sub_self, Int.zero_bmod]
    cases w <;> rfl

theorem Counted.integrate {r : Car K × Pulses} (h : Counted w held gone r) :
    Counted w 0 gone (integrate w held r.1, r.2) := by
  have hsign : w.sign * w.sign = 1 := by cases w <;> rfl
  refine ⟨?_, h.value, h.few⟩
  rw [← h.net, RobotCar.integrate, Wheels.get_set, mul_add, ← mul_assoc, hsign, one_mul, add_zero]

/-! ### Ticks -/

def Car.odometry (s : Car K) : Wheels Int × Counters := (s.Position, s.counters)

theorem odometry_of_hardware {s s' : Car K} (h : s'.hardware = s.hardware) :
    s'.odometry = s.odometry := congrArg (fun o => (o.1, o.2.1)) h

theorem apart_of_odometry {l : ControlAccess K} (r : Car K × Pulses) (w : Wheel)
    (hs : s'.odometry = r.1.odometry) (hl : Pulses.watch l r.1 r.2 = r.2) :
    Apart w l r (s', Pulses.watch l r.1 r.2) := by
  intro held gone h
  rw [hl]
  apply h.congr
  · exact congrArg (fun o => Wheels.get o.1 w) hs
  · exact congrArg (fun o => Counters.value o.2 w) hs
  · rfl
  · rfl

theorem encoder_apart (hw : w ≠ w') :
    ((Encoder_steps w' : Task (ControlAccess K) (Car K) Unit).history Pulses.watch).Only
      (Apart w) := by
  rw [Encoder_steps, Read_Encoder_steps, Task.history_bind, Task.history_bind, Task.history_read]
  apply Task.only_bind
  · apply Task.only_bind
    · exact Task.only_access _ fun r => read_apart hw r
    · intro n
      rw [Task.history_bind]
      exact Task.only_bind (Task.only_access _ fun r => reset_apart hw r) fun _ => trivial
  · exact fun n => Task.only_access _ fun r => integrate_apart hw n r

def Outside (l : ControlAccess K) (r r' : Car K × Pulses) : Prop :=
  ResetsAtOnce l r ∧ ∀ w, Apart w l r r'

theorem compare_outside (ws : List (Compare × Int)) :
    ((compare_steps ws : Task (ControlAccess K) (Car K) Unit).history Pulses.watch).Only
      Outside := by
  induction ws with
  | nil => trivial
  | cons v ws ih =>
    rw [compare_steps, Task.history_bind]
    apply Task.only_bind
    · exact Task.only_access _ fun r => ⟨trivial, fun w => apart_of_odometry r w rfl rfl⟩
    · exact fun _ => ih

def Output_steps : Task (ControlAccess K) (Car K) Unit := do
  Task.update .motors fun s => Xianfu_Pwm 11999 (Control_motors s)
  Set_Pwm_steps

theorem output_outside : ((Output_steps (K := K)).history Pulses.watch).Only Outside := by
  rw [Output_steps, Task.history_bind]
  apply Task.only_bind
  · apply Task.only_access
    intro r
    have hodometry := odometry_of_hardware (Control_motors_hardware r.1)
    exact ⟨trivial, fun w => apart_of_odometry r w hodometry rfl⟩
  · intro _
    rw [Set_Pwm_steps, Task.history_bind]
    apply Task.only_bind
    · exact Task.only_access _ fun r => ⟨trivial, fun w => apart_of_odometry r w rfl rfl⟩
    · exact fun motor => compare_outside _

/-- The steps of a task decide whether the books are straight again at its end. -/
abbrev Settles (t : Task (ControlAccess K) (Car K × Pulses) Unit) (r : Car K × Pulses) : Prop :=
  Decides Counting ResetsAtOnce (fun _ => True) AllCounted (fun _ => Straightened) t r

theorem Straightened.settles {t : Task (ControlAccess K) (Car K × Pulses) Unit}
    {r : Car K × Pulses} (h : Straightened r) (ht : t.Only Outside) : Settles t r := by
  apply Decides.of_safe (ht.mono fun _ _ _ h => h.1)
  have hp : t.Preserves Straightened :=
    ht.preserves fun l r r' h hstep w => hstep.2 w 0 0 (h w)
  exact (Safe.of_preserves straightened_stable hp h).mono (fun _ _ => trivial) fun _ _ h => h

/-- Pulses between the read and the reset are missing at the end of the tick. -/
theorem wheel_settles (w : Wheel) {rest : Task (ControlAccess K) (Car K × Pulses) Unit}
    (hrest : ∀ r, Straightened r → Settles rest r) (hapart : rest.Only (Apart w))
    {r : Car K × Pulses} (h : Straightened r) :
    Settles ((Encoder_steps w).history Pulses.watch >>= fun _ => rest) r := by
  apply Decides.access held_stable (h.held w) fun _ _ => trivial
  · intro r h _
    apply Decides.access held_stable h.read fun _ _ => trivial
    · intro r h hzero
      have hreset : Held w _ 0 ((Read_Encoder w.TIMX r.1).2, r.2) :=
        ⟨hzero ▸ h.1.reset, fun w' hw => reset_apart hw r 0 0 (h.2 w' hw)⟩
      apply Decides.access held_stable hreset fun _ _ => trivial
      · intro r h _
        have hnext : Held w 0 0 (integrate w _ r.1, r.2) :=
          ⟨h.1.integrate, fun w' hw => integrate_apart hw _ r 0 0 (h.2 w' hw)⟩
        exact hrest _ hnext.straightened
      · exact fun r _ hn => absurd trivial hn
    · intro r h hlost
      apply Fails.access counted_stable h.1.reset
      intro r' hr'
      apply Fails.of_only counted_stable hapart (fun _ _ _ h hstep => hstep _ _ h) hr'.integrate
      exact fun _ hend hb => hend.unbalanced hlost h.1.few (hb w)
  · exact fun r _ hn => absurd trivial hn

def Encoders_then (ws : List Wheel) : Task (ControlAccess K) (Car K) Unit :=
  ws.foldr (fun w rest => Encoder_steps w >>= fun _ => rest) Output_steps

theorem encoders_apart {ws : List Wheel} (hw : w ∉ ws) :
    ((Encoders_then (K := K) ws).history Pulses.watch).Only (Apart w) := by
  induction ws with
  | nil => exact output_outside.mono fun _ _ _ h => h.2 w
  | cons w' ws ih =>
    rw [List.mem_cons, not_or] at hw
    change ((Encoder_steps w' >>= fun _ => Encoders_then ws).history Pulses.watch).Only _
    rw [Task.history_bind]
    exact Task.only_bind (encoder_apart hw.1) fun _ => ih hw.2

theorem encoders_settle {ws : List Wheel} (hws : ws.Nodup) {r : Car K × Pulses}
    (h : Straightened r) : Settles ((Encoders_then (K := K) ws).history Pulses.watch) r := by
  induction ws generalizing r with
  | nil => exact h.settles output_outside
  | cons w ws ih =>
    rw [List.nodup_cons] at hws
    change Settles ((Encoder_steps w >>= fun _ => Encoders_then ws).history Pulses.watch) r
    rw [Task.history_bind]
    exact wheel_settles w (fun _ h => ih hws.2 h) (encoders_apart hws.1) h

theorem tick_settles {r : Car K × Pulses} (h : Straightened r) :
    Settles (Control_steps.history Pulses.watch) r := by
  have heq : Control_steps (K := K) = Task.update .targets Control_targets >>= fun _ =>
      Encoders_then [.A, .B, .C, .D] := rfl
  rw [heq, Task.history_bind]
  apply Decides.access straightened_stable h fun _ _ => trivial
  · intro r h _
    apply encoders_settle (by decide)
    have hodometry := odometry_of_hardware (Control_targets_hardware r.1)
    exact fun w => apart_of_odometry r w hodometry rfl 0 0 (h w)
  · exact fun r _ hn => absurd trivial hn

theorem job_settles (job : ControlJob K) {r : Car K × Pulses} (h : Straightened r) :
    Settles ((recordedCounts K).handler job) r := by
  rcases job.tick_or_store with rfl | ⟨t, heq, ht⟩
  · exact tick_settles h
  · change Settles (((controlClient K).handler job).history Pulses.watch) r
    rw [heq]
    apply h.settles
    apply ((ht.zoom _ _).history _).mono
    rintro l r ⟨s', h'⟩ ⟨⟨c, a, rfl, rfl, hs⟩, hh⟩
    cases hh
    exact ⟨trivial, fun w => apart_of_odometry r w (odometry_of_hardware hs) rfl⟩

/-- The books of a run of ticks and commands, in which fewer than 32768 net pulses come between two
readings of a counter, are straight between the ticks exactly when no reset of a counter finds that
net pulses have come since it was read. -/
theorem encoder_counts (es : List (Client.Event (ControlJob K) (Wheel × Bool)))
    (hfew : Transition.StepsMeet (recordedCounts K).step (Client.Meets FewPulses fun _ => True)
      (Client.start (Car.initial, {})) es) :
    let balanced := ∀ n, Client.Idle ((recordedCounts K).run (Car.initial, {}) (es.take n)) →
      AllCounted ((recordedCounts K).run (Car.initial, {}) (es.take n)).shared
    let prompt := Transition.StepsMeet (recordedCounts K).step (Client.Own ResetsAtOnce)
      (Client.start (Car.initial, {})) es
    (prompt → balanced) ∧
      (Client.Idle ((recordedCounts K).run (Car.initial, {}) es) → balanced → prompt) := by
  have hstart : Straightened ((Car.initial : Car K), ({} : Pulses)) := by
    intro w
    constructor
    · cases w <;> rfl
    · cases w <;> rfl
    · exact (by decide : |(0 : Int)| < 32768)
  have hgood := (recordedCounts K).good_of_own (fun r h w => (h w).balanced)
    (fun job r h => job_settles job h) (Client.start (Car.initial, {}))
    (Decides.ret straightened_stable hstart fun _ h => ⟨trivial, h⟩) es hfew
  intro balanced prompt
  constructor
  · exact fun hprompt n => (hgood.1 hprompt n).2
  · exact fun hend hbalanced => hgood.2 hend fun n => ⟨trivial, hbalanced n⟩

end

/-- Two wheels turn before the first tick, and one of them again after it. -/
def firstTick : List (Client.Event (ControlJob ℚ) (Wheel × Bool)) :=
  [.env (.A, true), .env (.D, false), .recv .Control] ++ List.replicate 23 .step ++
    [.env (.A, true)]

theorem firstTick_balanced :
    AllCounted ((recordedCounts ℚ).run (Car.initial, {}) (firstTick.take 27)).shared :=
  (encoder_counts firstTick (by decide +kernel)).1 (by decide +kernel) 27 (by decide +kernel)

/-- A pulse comes between the read of a counter and its reset. -/
theorem pulse_lost :
    ¬∀ es : List (Client.Event (ControlJob ℚ) (Wheel × Bool)),
      Transition.StepsMeet (recordedCounts ℚ).step (Client.Meets FewPulses fun _ => True)
        (Client.start (Car.initial, {})) es →
      Client.Idle ((recordedCounts ℚ).run (Car.initial, {}) es) →
        AllCounted ((recordedCounts ℚ).run (Car.initial, {}) es).shared := by
  intro h
  have hA := h ([.recv .Control, .step, .step, .env (.A, true)] ++ List.replicate 21 .step)
    (by decide +kernel) (by decide +kernel) .A
  revert hA
  decide +kernel

end RobotCar

import RobotCar.MirrorSymmetry
import RobotCar.WheelControllers

namespace RobotCar
open Concurrent CArith
set_option autoImplicit true
set_option linter.unusedSectionVars false

/-! ### A controller that sees no error -/

/-- What an incremental controller remembers from tick to tick. -/
def IncrementalPI.memory (c : IncrementalPI) : Int × Int := (c.Pwm, c.Last_bias)

/-- The bounds that an incremental controller keeps its output in. -/
def IncrementalPI.Bounded (c : IncrementalPI) : Prop := -11999 ≤ c.Pwm ∧ c.Pwm ≤ 11999

def IncrementalPI.held (c : IncrementalPI) : Int := limit 11999 (c.Pwm - 50 * c.Last_bias)

/-- The controller after a tick without an error. -/
def IncrementalPI.hold (c : IncrementalPI) : IncrementalPI where
  Bias := 0
  Pwm := c.held
  Last_bias := 0

theorem IncrementalPI.after_zero (c : IncrementalPI) : c.after 0 = c.hold := by
  have hraw : c.raw 0 = c.Pwm - 50 * c.Last_bias := by
    rw [raw]
    ring
  rw [after, hraw]
  rfl

theorem IncrementalPI.held_bounds (c : IncrementalPI) : -11999 ≤ c.held ∧ c.held ≤ 11999 := by
  have hbounds := c.after_bounds 0
  rw [after_zero] at hbounds
  exact hbounds

theorem IncrementalPI.hold_unchanged_iff {c : IncrementalPI} (h : c.Bounded) :
    c.hold.memory = c.memory ↔ c.Last_bias = 0 := by
  obtain ⟨hle, hge⟩ := h
  simp only [memory, hold, held, limit, Prod.mk.injEq]
  constructor
  · intro heq
    exact heq.2.symm
  · intro hlast
    rw [hlast]
    refine ⟨?_, rfl⟩
    split <;> split <;> omega

theorem IncrementalPI.hold_hold (c : IncrementalPI) : c.hold.hold = c.hold := by
  have hbounds := c.held_bounds
  have hheld : c.hold.held = c.held := by
    simp only [held, hold, limit] at hbounds ⊢
    split <;> split <;> omega
  rw [hold, hheld]
  rfl

theorem Wheels.map_eq_map_iff (f g : α → β) (v : Wheels α) :
    v.map f = v.map g ↔ ∀ w, f (v.get w) = g (v.get w) := by
  simp only [map, Wheels.mk.injEq]
  constructor
  · rintro ⟨hA, hB, hC, hD⟩ w
    cases w <;> assumption
  · exact fun h => ⟨h .A, h .B, h .C, h .D⟩

section
variable {K : Type} [Field K] [LinearOrder K] [IsStrictOrderedRing K] [FloorRing K]

theorem Incremental_PI_hold (c : IncrementalPI) : Incremental_PI K c 0 0 = (c.held, c.hold) := by
  have heq := Incremental_PI_eq (K := K) c ⟨0, 0⟩
  rw [WheelInput.error, sub_zero, IncrementalPI.after_zero] at heq
  exact heq

theorem Incremental_PI_bounded (c : IncrementalPI) (Encoder Target : Int) :
    (Incremental_PI K c Encoder Target).2.Bounded := by
  have heq := Incremental_PI_eq (K := K) c ⟨Encoder, Target⟩
  rw [heq]
  exact c.after_bounds _

section
variable [Libm K]

/-! ### Ticks of a stopped car -/

/-- The car has been stopped and its wheels stand still. -/
structure Stopped (s : Car K) : Prop where
  Run_Flag : s.Run_Flag = 0
  Move : s.Move = ⟨0, 0, 0⟩
  counters : s.counters = {}

theorem Control_bounded {s : Car K} (w : Wheel) : ((Control s).Incremental.get w).Bounded := by
  have hspeeds (targets : Wheels Int) (t : Car K) :
      ((with_speeds targets t).Incremental.get w).Bounded := by
    cases w <;> exact Incremental_PI_bounded (K := K) _ _ _
  change ((Control_motors (Control_encoders (Control_targets s))).Incremental.get w).Bounded
  rw [Control_motors]
  split
  · rw [Control_speed_eq]
    exact hspeeds _ _
  · rw [Control_position, Control_inner_eq]
    exact hspeeds _ _

theorem Stopped.Control_targets {s : Car K} (h : Stopped s) :
    RobotCar.Control_targets s = { s with Target := ⟨0, 0, 0, 0⟩ } := by
  have habs : Control_positioning s = .absolute := by
    rw [Control_positioning, if_neg]
    rw [h.Run_Flag]
    exact fun hrel => absurd hrel.1 (by decide)
  have hzero : trunc (0 : K) = 0 := by
    rw [← Int.cast_zero, trunc_intCast]
  rw [RobotCar.Control_targets, habs]
  simp only [Kinematic_Analysis, h.Move, neg_zero, add_zero, zero_mul, sub_zero, hzero]

theorem Stopped.Control_motors {s : Car K} (h : Stopped s) :
    RobotCar.Control_motors (Control_encoders (RobotCar.Control_targets s)) =
      with_speeds ⟨0, 0, 0, 0⟩ (Control_encoders { s with Target := ⟨0, 0, 0, 0⟩ }) := by
  have hflag : (Control_encoders { s with Target := ⟨0, 0, 0, 0⟩ }).Run_Flag = 0 := h.Run_Flag
  rw [h.Control_targets, RobotCar.Control_motors, if_pos hflag, Control_speed_eq]
  rfl

theorem Stopped.Control_Incremental {s : Car K} (h : Stopped s) :
    (Control s).Incremental = s.Incremental.map IncrementalPI.hold := by
  have hencoders : (Control_encoders { s with Target := ⟨0, 0, 0, 0⟩ }).Encoder =
      ⟨0, 0, 0, 0⟩ := by
    change Wheels.mk (-s.counters.value .A) (-s.counters.value .B) (s.counters.value .C)
      (s.counters.value .D) = _
    rw [h.counters]
    rfl
  change (RobotCar.Control_motors (Control_encoders (RobotCar.Control_targets s))).Incremental = _
  rw [h.Control_motors]
  change (speed_controllers ⟨0, 0, 0, 0⟩ (Control_encoders _)).map (·.2) = _
  rw [speed_controllers, hencoders]
  simp only [Incremental_PI_hold]
  rfl

theorem Stopped.Control {s : Car K} (h : Stopped s) : Stopped (RobotCar.Control s) := by
  refine ⟨(Control_Run_Flag s).trans h.Run_Flag, (Control_Move s).trans h.Move, ?_⟩
  change (RobotCar.Control_motors (Control_encoders (RobotCar.Control_targets s))).counters = _
  rw [h.Control_motors]
  rfl

theorem Stopped.Control_iterate {s : Car K} (h : Stopped s) (n : Nat) :
    Stopped (RobotCar.Control^[n] s) := by
  induction n with
  | zero => exact h
  | succ n ih =>
    rw [Function.iterate_succ_apply']
    exact ih.Control

/-- One tick after a stop, the controllers do not change any more. -/
theorem Stopped.settles {s : Car K} (h : Stopped s) (n : Nat) :
    (RobotCar.Control^[n + 1] s).Incremental = s.Incremental.map IncrementalPI.hold := by
  induction n with
  | zero => exact h.Control_Incremental
  | succ n ih =>
    rw [Function.iterate_succ_apply', (h.Control_iterate (n + 1)).Control_Incremental, ih]
    simp only [Wheels.map, IncrementalPI.hold_hold]

/-! ### Over a run -/

theorem run_bounded (es : List (Client.Event (Message K) CarEvent)) (w : Wheel) :
    ((((carClient K).run Car.initial es).shared).Incremental.get w).Bounded := by
  apply (carClient K).run_invariant (I := fun s => (s.Incremental.get w).Bounded)
  · intro s e h
    cases e with
    | Control => exact Control_bounded w
    | encoders counters => exact h
  · exact fun m s h => h
  · intro m
    apply (callback_commands m).preserves
    intro l s s' h hs
    rw [hs]
    exact h
  · have hzero : ({} : IncrementalPI).Bounded := ⟨by decide, by decide⟩
    cases w <;> exact hzero

/-- The controllers of a stopped car keep whatever output they have: a tick changes nothing exactly
when no controller remembers an error, and none does after the first tick. -/
theorem stopped_unchanged_iff (es : List (Client.Event (Message K) CarEvent)) :
    let s := ((carClient K).run Car.initial es).shared
    s.Run_Flag = 0 → s.Move = ⟨0, 0, 0⟩ → s.counters = {} →
      ((Control s).Incremental.map IncrementalPI.memory =
          s.Incremental.map IncrementalPI.memory ↔
        ∀ w, (s.Incremental.get w).Last_bias = 0) ∧
      ∀ n, (Control^[n + 1] s).Incremental = (Control s).Incremental := by
  intro s hflag hmove hcounters
  have h : Stopped s := ⟨hflag, hmove, hcounters⟩
  constructor
  · have hmap : (s.Incremental.map IncrementalPI.hold).map IncrementalPI.memory =
        s.Incremental.map fun c => c.hold.memory := rfl
    rw [h.Control_Incremental, hmap, Wheels.map_eq_map_iff]
    exact forall_congr' fun w => IncrementalPI.hold_unchanged_iff (run_bounded es w)
  · intro n
    rw [h.settles n, h.Control_Incremental]

end

end

/-- The car is driven, and stopped while its wheels are blocked. -/
def blockedDrive : List (Client.Event (Message ℚ) CarEvent) :=
  [.recv (.speed ⟨0, 100 / (178731 / 10000), 0⟩), .step, .step, .env .Control, .recv (.stop true),
    .step, .step, .env .Control]

theorem blockedDrive_held :
    let s := ((carClient ℚ).run Car.initial blockedDrive).shared
    (Control s).Incremental.A.Pwm = -300 ∧
      ∀ n, (Control^[n + 1] s).Incremental = (Control s).Incremental :=
  ⟨by decide +kernel, (stopped_unchanged_iff blockedDrive (by decide +kernel) (by decide +kernel)
    (by decide +kernel)).2⟩

theorem stopped_driven :
    ¬∀ es : List (Client.Event (Message ℚ) CarEvent),
      let s := ((carClient ℚ).run Car.initial es).shared
      s.Run_Flag = 0 → s.Move = ⟨0, 0, 0⟩ → s.counters = {} →
        (Control s).Incremental = s.Incremental → ∀ w, (s.Incremental.get w).Pwm = 0 := by
  intro h
  have hA := h blockedDrive (by decide +kernel) (by decide +kernel) (by decide +kernel)
    (by decide +kernel) .A
  exact absurd hA (by decide +kernel)

end RobotCar

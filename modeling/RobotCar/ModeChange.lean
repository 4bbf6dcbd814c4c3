import RobotCar.FloatKinematics

namespace RobotCar
open Concurrent CArith Rounding
set_option autoImplicit true
set_option linter.unusedSectionVars false

/-! ### Wheel positions and their pose -/

/-- The wheel positions of a pose have none of it. -/
def slip (p : Wheels Int) : Int := p.B + p.C - p.A - p.D

/-- Absolute targets at the pose of `p` are less than 2 counts from `p`. -/
def BarelySlipped (p : Wheels Int) : Prop :=
  -1 ≤ slip p ∧ slip p ≤ 1 ∨ slip p = 2 ∧ -1 ≤ p.D ∨ slip p = -2 ∧ p.D ≤ 1

instance (p : Wheels Int) : Decidable (BarelySlipped p) := inferInstanceAs (Decidable (_ ∨ _))

section
variable {K : Type} [Field K] [LinearOrder K] [IsStrictOrderedRing K] [FloorRing K]

/-- By how much the wheel positions of the pose of `p` differ from `p`. -/
def drift (p : Wheels Int) : Wheels K where
  A := (slip p : K) / 4
  B := (slip p : K) / 4
  C := -(slip p : K) / 4
  D := 3 * (slip p : K) / 4

theorem wheel_counts_Position_NOW (s : Car K) :
    wheel_counts (Position_NOW s) =
      { A := s.Position.A + (drift s.Position).A
        B := s.Position.B + (drift s.Position).B
        C := s.Position.C + (drift s.Position).C
        D := s.Position.D + (drift s.Position).D } := by
  have hp : (a_PARAMETER + b_PARAMETER : K) ≠ 0 := ne_of_gt parameter_pos
  simp only [wheel_counts, Position_NOW, drift, slip, div_mul_cancel₀ _ hp, Wheels.mk.injEq]
  push_cast
  refine ⟨by ring, by ring, by ring, by ring⟩

theorem wheel_counts_drift (s : Car K) (w : Wheel) :
    (wheel_counts (Position_NOW s)).get w = s.Position.get w + (drift s.Position).get w := by
  rw [wheel_counts_Position_NOW]
  cases w <;> rfl

/-- The targets of absolute positioning at the present pose. -/
def hold_targets (s : Car K) : Wheels Int :=
  (Rounded.Kinematic_Analysis (Rounded.Move_arguments (Rounded.Position_NOW s)) s).Target

variable {s : Car K} {M : Int}

theorem hold_targets_get (hM : ∀ w, |s.Position.get w| ≤ M) (hlt : M < 2 ^ 29) (w : Wheel) :
    (hold_targets s).get w =
      trunc ((Rounded.counts (Rounded.Move_arguments (Rounded.Position_NOW s))).get w) := by
  obtain ⟨hX, hY, hZ⟩ := Rounded.Position_NOW_bounds (K := K) hM
  have hcounts := Rounded.abs_wheel_counts_le hX hY hZ w
  have hclose := Rounded.counts_close (K := K) hM hlt w
  have htriangle := abs_sub_abs_le_abs_sub
    ((Rounded.counts (Rounded.Move_arguments (Rounded.Position_NOW s))).get w)
    ((wheel_counts (Position_NOW s)).get w)
  have hM' : (M : K) ≤ 2 ^ 29 := by exact_mod_cast hlt.le
  rw [hold_targets, Rounded.Kinematic_Analysis_get]
  apply toInt32_eq_trunc
  linarith

theorem hold_targets_drift (hM : ∀ w, |s.Position.get w| ≤ M) (hlt : M < 2 ^ 29) (w : Wheel) :
    |((hold_targets s).get w : K) - (s.Position.get w + (drift s.Position).get w)| <
      1 + M / 2 ^ 20 := by
  have hclose := Rounded.counts_close (K := K) hM hlt w
  rw [wheel_counts_drift] at hclose
  rw [hold_targets_get hM hlt]
  apply lt_of_le_of_lt (abs_sub_le _ _ _)
  exact add_lt_add_of_lt_of_le (abs_trunc_sub_lt_one _) hclose

/-- Up to 2^20 counts the target of a wheel is so near that only the direction of the truncation
is left to decide. -/
theorem hold_targets_close (hM : ∀ w, |s.Position.get w| ≤ M) (hle : M ≤ 2 ^ 20) (w : Wheel) :
    ∃ x : K, (hold_targets s).get w = trunc x ∧
      |x - (s.Position.get w + (drift s.Position).get w)| ≤
        5 / 24 + |(drift s.Position).get w| / 2 ^ 24 := by
  have hclose := Rounded.counts_closer (K := K) hM hle w
  rw [wheel_counts_drift] at hclose
  refine ⟨_, hold_targets_get hM (lt_of_le_of_lt hle (by decide)) w, hclose.trans ?_⟩
  have hposition : |(s.Position.get w : K)| ≤ 2 ^ 20 := by
    exact_mod_cast (hM w).trans hle
  have hsum := abs_add_le (s.Position.get w : K) ((drift s.Position).get w)
  linarith

theorem near_of_close {p : Int} {x : K} (h : |x - p| ≤ 1) : |trunc x - p| < 2 := by
  rw [abs_le] at h
  have hlow : p - 1 ≤ trunc x := le_trunc (by push_cast; linarith)
  have hhigh : trunc x ≤ p + 1 := trunc_le (by push_cast; linarith)
  rw [abs_lt]
  omega

/-- The wheel that drifts most, by three quarters of the slip. -/
theorem near_iff_of_nonneg {p n : Int} {x : K} (hn : 0 ≤ n)
    (h : |x - (p + 3 * (n : K) / 4)| ≤ 5 / 24 + |3 * (n : K) / 4| / 2 ^ 24) :
    |trunc x - p| < 2 ↔ n ≤ 1 ∨ n = 2 ∧ -1 ≤ p := by
  have hn' : (0 : K) ≤ n := Int.cast_nonneg hn
  have habs : |3 * (n : K) / 4| = 3 * n / 4 := abs_of_nonneg (by positivity)
  rw [habs, abs_le] at h
  rcases lt_trichotomy n 2 with hlt | rfl | hgt
  · have hle : (n : K) ≤ 1 := by exact_mod_cast Int.lt_add_one_iff.1 hlt
    have hnear : |x - p| ≤ 1 := abs_le.2 ⟨by linarith, by linarith⟩
    exact iff_of_true (near_of_close hnear) (.inl (by omega))
  · push_cast at h
    have hlow : p + 1 ≤ trunc x := le_trunc (by push_cast; linarith)
    have hhigh : trunc x ≤ p + 2 := trunc_le (by push_cast; linarith)
    -- between `p + 1` and `p + 2`, towards zero
    by_cases hp : -1 ≤ p
    · have hp' : (-1 : K) ≤ p := by exact_mod_cast hp
      have hlt : trunc x < p + 2 := by
        rw [trunc, if_pos (by linarith), Int.floor_lt]
        push_cast
        linarith
      rw [abs_lt]
      omega
    · have hp' : (p : K) ≤ -2 := by exact_mod_cast (by omega : p ≤ -2)
      have hneg : ¬0 ≤ x := by linarith
      have hgt : p + 1 < trunc x := by
        rw [trunc, if_neg hneg, Int.lt_ceil]
        push_cast
        linarith
      rw [abs_lt]
      omega
  · have hle : (3 : K) ≤ n := by exact_mod_cast hgt
    have hfar : p + 2 ≤ trunc x := le_trunc (by push_cast; linarith)
    rw [abs_lt]
    omega

theorem near_iff {p n : Int} {x : K}
    (h : |x - (p + 3 * (n : K) / 4)| ≤ 5 / 24 + |3 * (n : K) / 4| / 2 ^ 24) :
    |trunc x - p| < 2 ↔ -1 ≤ n ∧ n ≤ 1 ∨ n = 2 ∧ -1 ≤ p ∨ n = -2 ∧ p ≤ 1 := by
  rcases le_total 0 n with hn | hn
  · rw [near_iff_of_nonneg hn h]
    omega
  · have hmirror : -x - (((-p : Int) : K) + 3 * ((-n : Int) : K) / 4) =
        -(x - (p + 3 * (n : K) / 4)) := by
      push_cast
      ring
    have hdrift : 3 * ((-n : Int) : K) / 4 = -(3 * (n : K) / 4) := by
      push_cast
      ring
    have hneg := near_iff_of_nonneg (p := -p) (n := -n) (x := -x) (by omega)
      (by rwa [hmirror, hdrift, abs_neg, abs_neg])
    have habs : |trunc x - p| = |trunc (-x) - -p| := by
      rw [trunc_neg, ← abs_neg]
      congr 1
      ring
    rw [habs, hneg]
    omega

theorem hold_targets_near_iff (hM : ∀ w, |s.Position.get w| ≤ M) (hle : M ≤ 2 ^ 20) :
    (∀ w, |(hold_targets s).get w - s.Position.get w| < 2) ↔ BarelySlipped s.Position := by
  obtain ⟨x, hx, hD⟩ := hold_targets_close (K := K) hM hle .D
  have hiff : |(hold_targets s).get .D - s.Position.get .D| < 2 ↔ BarelySlipped s.Position := by
    rw [hx]
    exact near_iff hD
  constructor
  · exact fun h => hiff.1 (h .D)
  · intro h w
    have hslip : -2 ≤ slip s.Position ∧ slip s.Position ≤ 2 := by
      unfold BarelySlipped at h
      omega
    have hlow : (-2 : K) ≤ slip s.Position := by exact_mod_cast hslip.1
    have hhigh : (slip s.Position : K) ≤ 2 := by exact_mod_cast hslip.2
    -- the others drift by a quarter of the slip
    have hother (y : K) (hy : |y| ≤ 1 / 2) (x : K) (n : Int)
        (hx : |x - (n + y)| ≤ 5 / 24 + |y| / 2 ^ 24) : |trunc x - n| < 2 := by
      apply near_of_close
      have hsplit := abs_sub_le x (n + y) n
      rw [add_sub_cancel_left] at hsplit
      linarith
    have hquarter : |(slip s.Position : K) / 4| ≤ 1 / 2 := abs_le.2 ⟨by linarith, by linarith⟩
    have hquarter' : |-(slip s.Position : K) / 4| ≤ 1 / 2 := abs_le.2 ⟨by linarith, by linarith⟩
    obtain ⟨x, hx, hclose⟩ := hold_targets_close (K := K) hM hle w
    rw [hx]
    cases w with
    | A => exact hother _ hquarter x _ hclose
    | B => exact hother _ hquarter x _ hclose
    | C => exact hother _ hquarter' x _ hclose
    | D => exact hx ▸ hiff.2 h

/-! ### The change of the mode, with ticks at any time -/

section
variable [Libm K] (motors : MotorPart K)

/-- The wheels stand where they stood in `s₀`, and the command is one of these. -/
structure Rests (s₀ : Car K) (C : UInt8 → Vec K → UInt8 → Prop) (s : Car K) : Prop where
  Position : s.Position = s₀.Position
  counters : s.counters = {}
  command : C s.Run_Flag s.Move s.relative

theorem rests_stable {s₀ : Car K} {C : UInt8 → Vec K → UInt8 → Prop} (s s' : Car K)
    (h : Rests s₀ C s)
    (hs : (Rounded.modeClient motors).Interference (fun _ e => e = .Control) s s') :
    Rests s₀ C s' := by
  obtain ⟨e, rfl, rfl⟩ := hs
  obtain ⟨hP, hc⟩ := Rounded.Control_at_rest motors h.counters
  obtain ⟨hf, hm, hr⟩ := Rounded.Control_command motors s
  change Rests s₀ C (Rounded.Control motors s)
  refine ⟨hP.trans h.Position, hc, ?_⟩
  rw [hf, hm, hr]
  exact h.command

/-! The command before `callback_mode` stores the pose, after it, and when the mode is stored too -/

def StillRelative (flag : UInt8) (_ : Vec K) (rel : UInt8) : Prop := flag = 1 ∧ rel = 1

def PoseStored (s₀ : Car K) (_ : UInt8) (V : Vec K) (rel : UInt8) : Prop :=
  V = Rounded.Move_arguments (Rounded.Position_NOW s₀) ∧ rel = 1

def PoseHeld (s₀ : Car K) (_ : UInt8) (V : Vec K) (rel : UInt8) : Prop :=
  V = Rounded.Move_arguments (Rounded.Position_NOW s₀) ∧ rel = 0

/-- Once absolute positioning is in force, it holds the pose of `s₀`. -/
def HoldsPose (s₀ s : Car K) : Prop :=
  s.relative = 0 → s.Position = s₀.Position ∧
    s.Move = Rounded.Move_arguments (Rounded.Position_NOW s₀)

theorem callback_mode_holds {s₀ : Car K} (hflag : s₀.Run_Flag = 1) (hrel : s₀.relative = 1)
    (hcounters : s₀.counters = {}) :
    Safe ((Rounded.modeClient motors).Interference fun _ e => e = .Control) (HoldsPose s₀)
      (fun _ => HoldsPose s₀) (Rounded.callback_mode 0) s₀ := by
  have hbefore (s : Car K) (h : Rests s₀ StillRelative s) : HoldsPose s₀ s :=
    fun h₀ => absurd (h.command.2.symm.trans h₀) (by decide)
  have hstored (s : Car K) (h : Rests s₀ (PoseStored s₀) s) : HoldsPose s₀ s :=
    fun h₀ => absurd (h.command.2.symm.trans h₀) (by decide)
  have hheld (s : Car K) (h : Rests s₀ (PoseHeld s₀) s) : HoldsPose s₀ s :=
    fun _ => ⟨h.Position, h.command.1⟩
  have h₀ : Rests s₀ StillRelative s₀ := ⟨rfl, hcounters, hflag, hrel⟩
  change Safe _ _ _ (Rounded.callback_mode_change 0 >>= fun _ => publish_car_status) s₀
  rw [Rounded.callback_mode_change, Task.bind_assoc]
  apply Safe.access (rests_stable motors) h₀ hbefore
  intro s h
  have hne : s.relative ≠ 0 := fun he => absurd (h.command.2.symm.trans he) (by decide)
  rw [if_pos hne, Rounded.callback_mode_entry, Task.bind_assoc, Task.bind_assoc]
  apply Safe.access (rests_stable motors) h hbefore
  intro s h
  have hone : s.Run_Flag = 1 := h.command.1
  rw [if_pos hone, Task.bind_assoc]
  apply Safe.access (rests_stable motors) h hbefore
  intro s h
  have hrel₁ : s.relative = 1 := h.command.2
  rw [if_pos hrel₁, Task.bind_assoc]
  apply Safe.access (rests_stable motors) h hbefore
  intro s h
  have hNOW : Rounded.Position_NOW s = Rounded.Position_NOW s₀ := by
    rw [Rounded.Position_NOW, Rounded.Position_NOW, h.Position]
  rw [hNOW, Task.bind_assoc]
  apply Safe.access (rests_stable motors) h hbefore
  intro s h
  have h : Rests s₀ StillRelative { s with Last_Target := Rounded.Position_NOW s₀ } :=
    ⟨h.Position, h.counters, h.command⟩
  apply Safe.access (rests_stable motors) h hbefore
  intro s h
  have h : Rests s₀ (PoseStored s₀)
      { s with Move := Rounded.Move_arguments (Rounded.Position_NOW s₀) } :=
    ⟨h.Position, h.counters, rfl, h.command.2⟩
  apply Safe.access (rests_stable motors) h hstored
  intro s h
  have h : Rests s₀ (PoseHeld s₀) { s with relative := 0 } :=
    ⟨h.Position, h.counters, h.command.1, rfl⟩
  have hpublish : (publish_car_status (K := K)).Preserves (Rests s₀ (PoseHeld s₀)) :=
    Task.preserves_bind (Task.preserves_read _ _) fun _ => Task.preserves_update _ fun _ h => h
  exact (Safe.of_preserves (rests_stable motors) hpublish h).mono hheld fun _ => hheld

/-- What is left of the callback holds the pose of `s₀`. -/
def WillHold (s₀ : Car K) (k : Client.Config (ControlCall K) (Car K)) : Prop :=
  Safe ((Rounded.modeClient motors).Interference fun _ e => e = .Control) (HoldsPose s₀)
    (fun _ => HoldsPose s₀) k.current k.shared

theorem willHold_step {s₀ : Car K} {k : Client.Config (ControlCall K) (Car K)}
    {e : Client.Event UInt8 CarEvent} (hk : WillHold motors s₀ k)
    (he : e = .step ∨ e = .env .Control) :
    WillHold motors s₀ ((Rounded.modeClient motors).step k e) := by
  apply (Rounded.modeClient motors).safe_event k e hk
  · rintro x rfl
    rcases he with he | he
    · cases he
    · cases he
      rfl
  · rintro m u rfl
    rcases he with he | he <;> cases he

theorem mode_change_holds {s₀ : Car K} (hflag : s₀.Run_Flag = 1) (hrel : s₀.relative = 1)
    (hcounters : s₀.counters = {}) {es : List (Client.Event UInt8 CarEvent)}
    (hes : ∀ e ∈ es, e = .step ∨ e = .env .Control) :
    HoldsPose s₀ ((Rounded.modeClient motors).run s₀ (.recv 0 :: es)).shared := by
  have hstart : WillHold motors s₀ ((Rounded.modeClient motors).step (Client.start s₀) (.recv 0)) :=
    callback_mode_holds motors hflag hrel hcounters
  have hmeet (k) : Transition.StepsMeet (Rounded.modeClient motors).step
      (fun _ e => e = .step ∨ e = .env .Control) k es :=
    Transition.stepsMeet_of_forall (fun e he _ => hes e he) k
  exact (Transition.run_invariant_of_meet (fun _ _ => willHold_step motors) hstart (hmeet _)).holds

/-- The change to absolute positioning holds the pose of the wheels. The targets of the next tick
are off by the drift and the rounding, and up to 2^20 counts they are at the wheels exactly when
these have hardly slipped. -/
theorem mode_change_near_iff (s₀ : Car K) (es : List (Client.Event UInt8 CarEvent))
    (hes : ∀ e ∈ es, e = .step ∨ e = .env .Control) (M : Int) :
    let s := ((Rounded.modeClient motors).run s₀ (.recv 0 :: es)).shared
    s₀.Run_Flag = 1 → s₀.relative = 1 → s₀.counters = {} → s.relative = 0 →
      (∀ w, |s.Position.get w| ≤ M) → M < 2 ^ 29 →
        s.Position = s₀.Position ∧
          (∀ w, |((Rounded.Control motors s).Target.get w : K) -
            (s.Position.get w + (drift s.Position).get w)| < 1 + M / 2 ^ 20) ∧
          (M ≤ 2 ^ 20 → ((∀ w, |(Rounded.Control motors s).Target.get w - s.Position.get w| < 2) ↔
            BarelySlipped s.Position)) := by
  intro s hflag hrel hcounters habs hM hlt
  obtain ⟨hP, hmove⟩ := mode_change_holds motors hflag hrel hcounters hes habs
  have hNOW : s.Move = Rounded.Move_arguments (Rounded.Position_NOW s) := by
    rw [hmove, Rounded.Position_NOW, Rounded.Position_NOW, ← hP]
  have htarget : (Rounded.Control motors s).Target = hold_targets s := by
    have hpos : Control_positioning s = .absolute := by
      rw [Control_positioning, habs, if_neg fun h => absurd h.2 (by decide)]
    rw [Rounded.Control_Target, Rounded.Control_targets, hpos, hNOW]
    rfl
  rw [htarget]
  exact ⟨hP, hold_targets_drift hM hlt, fun hle => hold_targets_near_iff (K := K) hM hle⟩

end

end

def slippedDrive (D : UInt16) : Car ℚ :=
  ((carClient ℚ).run Car.initial
    (.recv (.pos ⟨0, 0, 0⟩) :: List.replicate 8 .step ++
      [.env (.encoders { htim3 := D }), .env .Control])).shared

theorem hardly_slipped_held :
    let s := ((Rounded.modeClient .exact).run (slippedDrive 1)
      (.recv 0 :: List.replicate 10 .step)).shared
    ∀ w, |(Rounded.Control .exact s).Target.get w - s.Position.get w| < 2 :=
  ((mode_change_near_iff .exact (slippedDrive 1) (List.replicate 10 .step)
    (fun e he => .inl (List.eq_of_mem_replicate he)) 1 (by decide +kernel) (by decide +kernel)
    (by decide +kernel) (by decide +kernel) (fun w => by cases w <;> decide +kernel)
    (by decide)).2.2 (by decide)).2 (by decide +kernel)

/-- When wheel D has slipped by 4 counts, its target is 3 counts away. -/
theorem slipped_not_held :
    ¬∀ (s₀ : Car ℚ) (es : List (Client.Event UInt8 CarEvent)),
      (∀ e ∈ es, e = .step ∨ e = .env .Control) →
        let s := ((Rounded.modeClient .exact).run s₀ (.recv 0 :: es)).shared
        s₀.Run_Flag = 1 → s₀.relative = 1 → s₀.counters = {} → s.relative = 0 →
          ∀ w, |(Rounded.Control .exact s).Target.get w - s.Position.get w| < 2 := by
  intro h
  have hD := h (slippedDrive 4) (List.replicate 10 .step)
    (fun e he => .inl (List.eq_of_mem_replicate he)) (by decide +kernel) (by decide +kernel)
    (by decide +kernel) (by decide +kernel) .D
  revert hD
  decide +kernel

end RobotCar

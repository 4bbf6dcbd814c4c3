import RobotCar.Callbacks

namespace RobotCar
open Concurrent
set_option autoImplicit true
set_option linter.unusedSectionVars false

/-! ### Where the targets come from -/

/-- The message whose `Move` the targets were computed from, 0 before the first one. -/
structure Basis (K : Type) where
  message : Nat
  Move : Vec K
  targets : Wheels Int

structure TargetSource (K : Type) where
  /-- the message that is being handled, by its number -/
  message : Nat := 0
  /-- its content, if it is a `/car/pos` message -/
  point : Option (Vec K) := none
  /-- the message that stored `Move` -/
  owner : Nat := 0
  basis : Basis K
  /-- a tick has computed the targets since `Move` was stored -/
  computed : Bool := false

/-- An error that was published, with the state in which it was read. -/
structure StatusReport (K : Type) where
  state : Car K
  source : TargetSource K
  error : K

structure AimHistory (K : Type) where
  now : TargetSource K
  read : Car K × TargetSource K
  reports : List (StatusReport K) := []

section
variable {K : Type} [Field K] [LinearOrder K] [FloorRing K]

/-- `Control` computes the wheel targets in exactly these states. -/
def ComputesTargets (s : Car K) : Prop := Control_positioning s = .relative → s.pending_flag = 1

instance (s : Car K) : Decidable (ComputesTargets s) := inferInstanceAs (Decidable (_ → _))

/-- The targets of a position, or of a displacement. -/
def TargetsOf (V : Vec K) (targets : Wheels Int) : Prop :=
  ∃ s : Car K, targets = (Kinematic_Analysis V s).Target ∨
    targets = (Kinematic_Analysis_Relative V s).Target

theorem Control_keeps_targets [Libm K] {s : Car K} (h : ¬ComputesTargets s) :
    (Control s).Target = s.Target := by
  rw [ComputesTargets, Classical.not_imp] at h
  obtain ⟨hrel, hp⟩ := h
  rw [Control_Target, Control_targets, hrel]
  dsimp only
  rw [if_neg hp]

theorem Control_computes_targets [Libm K] {s : Car K} (h : ComputesTargets s) :
    TargetsOf s.Move (Control s).Target := by
  rw [Control_Target, Control_targets]
  cases hpos : Control_positioning s with
  | absolute => exact ⟨s, .inl rfl⟩
  | relative =>
    dsimp only
    rw [if_pos (h hpos)]
    exact ⟨s, .inr rfl⟩

namespace AimHistory

def initial : AimHistory K :=
  let now : TargetSource K := { basis := ⟨0, ⟨0, 0, 0⟩, ⟨0, 0, 0, 0⟩⟩ }
  { now, read := (Car.initial, now) }

def watch (l : ControlCall K) (s : Car K) (h : AimHistory K) : AimHistory K :=
  match l with
  | .Set_Move => { h with now := { h.now with owner := h.now.message, computed := false } }
  | .Get_Error => { h with read := (s, h.now) }
  | .rcl_publish error => { h with reports := h.reports ++ [⟨h.read.1, h.read.2, error⟩] }
  | _ => h

def watchMessage (m : Message K) (_ : Car K) (h : AimHistory K) : AimHistory K :=
  let point := match m with
    | .pos point => some point
    | _ => none
  { h with now := { h.now with message := h.now.message + 1, point := point } }

def compute (h : AimHistory K) (V : Vec K) (targets : Wheels Int) : AimHistory K :=
  { h with now := { h.now with basis := ⟨h.now.owner, V, targets⟩, computed := true } }

def watchEvent [Libm K] (e : CarEvent) (s : Car K) (h : AimHistory K) : AimHistory K :=
  match e with
  | .Control => if ComputesTargets s then h.compute s.Move (Control s).Target else h
  | .encoders _ => h

end AimHistory

open AimHistory

def recordedTargets (K : Type) [Field K] [LinearOrder K] [FloorRing K] [Libm K] :
    Client (ControlCall K) (Car K × AimHistory K) (Message K) CarEvent :=
  (carClient K).history AimHistory.watch AimHistory.watchEvent AimHistory.watchMessage

/-- The targets were computed from the position or displacement of this very message. -/
def TargetSource.Includes (c : TargetSource K) (point : Vec K) : Prop :=
  c.basis.message = c.message ∧ c.basis.Move = pos_Move point

/-- The targets of a state are those of the recorded message, and if a position is being handled,
they are its own exactly when a tick has computed them since it was stored. -/
structure TargetSource.Explains (c : TargetSource K) (s : Car K) : Prop where
  targets : s.Target = c.basis.targets
  basis : TargetsOf c.basis.Move c.basis.targets
  includes : ∀ point, c.point = some point → (c.Includes point ↔ c.computed = true)

def StatusReport.Explained [Libm K] (u : StatusReport K) : Prop :=
  u.error = Libm.sqrt ((Error_squared u.state : Int) : K) ∧ u.source.Explains u.state

/-! ### What the assertions are about -/

/-- The part of a state that the history depends on. -/
structure Aim (K : Type) where
  Target : Wheels Int
  Move : Vec K
  history : AimHistory K

def aim (r : Car K × AimHistory K) : Aim K := ⟨r.1.Target, r.1.Move, r.2⟩

def Aim.compute (a : Aim K) (targets : Wheels Int) : Aim K :=
  { a with Target := targets, history := a.history.compute a.Move targets }

section
variable [Libm K]

theorem env_aim (r : Car K × AimHistory K) (e : CarEvent) :
    aim ((recordedTargets K).env e r) = aim r ∨
      ∃ targets, TargetsOf r.1.Move targets ∧
        aim ((recordedTargets K).env e r) = (aim r).compute targets := by
  cases e with
  | encoders counters => exact .inl rfl
  | Control =>
    have hmove := Control_Move r.1
    have heq : aim ((recordedTargets K).env .Control r) =
        ⟨(Control r.1).Target, (Control r.1).Move,
          if ComputesTargets r.1 then r.2.compute r.1.Move (Control r.1).Target else r.2⟩ := rfl
    rw [heq, hmove]
    by_cases h : ComputesTargets r.1
    · rw [if_pos h]
      exact .inr ⟨_, Control_computes_targets h, rfl⟩
    · rw [if_neg h, Control_keeps_targets h]
      exact .inl rfl

/-- A tick that computes the targets keeps the assertion. -/
def Stable (P : Aim K → Prop) : Prop :=
  ∀ a targets, P a → TargetsOf a.Move targets → P (a.compute targets)

variable {P : Aim K → Prop}

theorem Stable.env (hP : Stable P) {r : Car K × AimHistory K} (h : P (aim r)) (e : CarEvent) :
    P (aim ((recordedTargets K).env e r)) := by
  rcases env_aim r e with he | ⟨targets, ht, he⟩
  · rw [he]
    exact h
  · rw [he]
    exact hP _ _ h ht

end

end

section
variable {K : Type} [Field K] [LinearOrder K] [FloorRing K]

/-- The square of the distance of the wheels from their targets. -/
def distance_squared (s : Car K) : Int :=
  (s.Position.A - s.Target.A) ^ 2 + (s.Position.B - s.Target.B) ^ 2 +
    (s.Position.C - s.Target.C) ^ 2 + (s.Position.D - s.Target.D) ^ 2

theorem Error_squared_eq (s : Car K) : Error_squared s = CArith.wrap32 (distance_squared s) := by
  simp only [Error_squared, distance_squared, Int.pow_succ, Int.pow_zero, Int.one_mul]

theorem distance_squared_nonneg (s : Car K) : 0 ≤ distance_squared s := by
  unfold distance_squared
  positivity

theorem distance_squared_zero {s : Car K} (h : distance_squared s = 0) : s.Position = s.Target := by
  have hA := sq_nonneg (s.Position.A - s.Target.A)
  have hB := sq_nonneg (s.Position.B - s.Target.B)
  have hC := sq_nonneg (s.Position.C - s.Target.C)
  have hD := sq_nonneg (s.Position.D - s.Target.D)
  rw [distance_squared] at h
  have hzero {d : Int} (hd : d ^ 2 = 0) : d = 0 := (pow_eq_zero_iff two_ne_zero).1 hd
  have ha : s.Position.A = s.Target.A := Int.sub_eq_zero.1 (hzero (by omega))
  have hb : s.Position.B = s.Target.B := Int.sub_eq_zero.1 (hzero (by omega))
  have hc : s.Position.C = s.Target.C := Int.sub_eq_zero.1 (hzero (by omega))
  have hd : s.Position.D = s.Target.D := Int.sub_eq_zero.1 (hzero (by omega))
  change Wheels.mk _ _ _ _ = Wheels.mk _ _ _ _
  rw [ha, hb, hc, hd]

theorem Error_squared_exact_iff (s : Car K) :
    Error_squared s = distance_squared s ↔ distance_squared s < 2147483648 := by
  have hnonneg := distance_squared_nonneg s
  rw [Error_squared_eq, CArith.wrap32_eq_self_iff]
  constructor
  · intro h
    exact h.2
  · intro h
    exact ⟨by omega, h⟩

/-- The status that is published tells the distance exactly as long as the square of the distance
fits a `long int`. -/
theorem distance_published_iff [Libm K] (hsqrt : ∀ n : Nat, Libm.sqrt (n : K) = 0 → n = 0)
    (s : Car K) (h : AimHistory K) :
    (Error_squared s = distance_squared s ∧
      ∃ error, (publish_car_status.history AimHistory.watch).run (s, h) =
          some ((), (s, { h with
            read := (s, h.now)
            reports := h.reports ++ [⟨s, h.now, error⟩] })) ∧
        (error = 0 → s.Position = s.Target)) ↔
      distance_squared s < 2147483648 := by
  rw [Error_squared_exact_iff, and_iff_left_iff_imp]
  intro hlt
  refine ⟨Libm.sqrt ((Error_squared s : Int) : K), rfl, fun hzero => ?_⟩
  rw [(Error_squared_exact_iff s).2 hlt] at hzero
  have hnat : ((distance_squared s).toNat : Int) = distance_squared s :=
    Int.toNat_of_nonneg (distance_squared_nonneg s)
  rw [← hnat, Int.cast_natCast] at hzero
  have hn := hsqrt _ hzero
  exact distance_squared_zero (by omega)

end

theorem sqrt_eq_zero (n : Nat) (h : Libm.sqrt (n : ℚ) = 0) : n = 0 := by
  have hfloor : ⌊(n : ℚ) * 1000000000000⌋.toNat = n * 1000000000000 := by
    have hcast : ((n : ℚ) * 1000000000000) = ((n * 1000000000000 : Nat) : ℚ) := by push_cast; rfl
    rw [hcast, Int.floor_natCast, Int.toNat_natCast]
  have hroot : Nat.sqrt (n * 1000000000000) = 0 := by
    change (Nat.sqrt ⌊(n : ℚ) * 1000000000000⌋.toNat : ℚ) / 1000000 = 0 at h
    rw [hfloor, div_eq_zero_iff, Nat.cast_eq_zero] at h
    exact h.resolve_right (by norm_num)
  rw [Nat.sqrt_eq_zero] at hroot
  omega

theorem short_distance_published :
    let s : Car ℚ := { Car.initial with Target := ⟨-17873, 17873, -17873, 17873⟩ }
    Error_squared s = distance_squared s ∧
      ∃ error, (publish_car_status.history AimHistory.watch).run (s, AimHistory.initial) =
          some ((), (s, { AimHistory.initial with
            read := (s, AimHistory.initial.now)
            reports := AimHistory.initial.reports ++ [⟨s, AimHistory.initial.now, error⟩] })) ∧
        (error = 0 → s.Position = s.Target) :=
  (distance_published_iff sqrt_eq_zero _ _).2 (by decide)

/-- 18.334 cm from its target, the car is reported to be on it. -/
theorem distance_overflows :
    ¬∀ s : Car ℚ, |s.Position.A - s.Target.A| ≤ 2000000 → |s.Position.B - s.Target.B| ≤ 2000000 →
      |s.Position.C - s.Target.C| ≤ 2000000 → |s.Position.D - s.Target.D| ≤ 2000000 →
      Error_squared s = distance_squared s ∧
        ∀ error, Get_Error.run s = some (error, s) → error = 0 → s.Position = s.Target := by
  intro h
  have hs := h (Control ((callback_pos ⟨18334 / 1000, 0, 0⟩).exec Car.initial)) (by decide +kernel)
    (by decide +kernel) (by decide +kernel) (by decide +kernel)
  exact absurd (hs.2 _ rfl (by decide +kernel)) (by decide +kernel)

end RobotCar

import Mathlib.Tactic.FieldSimp
import Mathlib.Tactic.Ring
import RobotCar.Callbacks

namespace RobotCar
open Concurrent CArith
set_option autoImplicit true
set_option linter.unusedSectionVars false

section
variable {K : Type} [Field K] [LinearOrder K] [IsStrictOrderedRing K] [FloorRing K]

/-! ### Poses and wheel counts -/

instance : Add (Vec K) := ⟨fun u v => ⟨u.X + v.X, u.Y + v.Y, u.Z + v.Z⟩⟩

/-- The wheel counts of a pose, before they are truncated. -/
def wheel_counts (V : Vec K) : Wheels K where
  A := -V.X + V.Y - V.Z * (a_PARAMETER + b_PARAMETER)
  B := V.X + V.Y - V.Z * (a_PARAMETER + b_PARAMETER)
  C := -V.X + V.Y + V.Z * (a_PARAMETER + b_PARAMETER)
  D := V.X + V.Y + V.Z * (a_PARAMETER + b_PARAMETER)

/-- The pose that wheel counts stand for. -/
def pose (n : Wheels K) : Vec K where
  X := (n.B - n.A) / 2
  Y := (n.B + n.C) / 2
  Z := (n.C - n.A + n.D - n.B) / 4 / (a_PARAMETER + b_PARAMETER)

theorem parameter_pos : (0 : K) < a_PARAMETER + b_PARAMETER := by
  rw [a_PARAMETER, b_PARAMETER]
  norm_num

theorem pose_wheel_counts (V : Vec K) : pose (wheel_counts V) = V := by
  have hp : (a_PARAMETER + b_PARAMETER : K) ≠ 0 := ne_of_gt parameter_pos
  cases V with
  | mk x y z =>
    simp only [pose, wheel_counts, Vec.mk.injEq]
    refine ⟨by ring, by ring, ?_⟩
    field_simp
    ring

theorem pose_add (m n : Wheels K) :
    pose ⟨m.A + n.A, m.B + n.B, m.C + n.C, m.D + n.D⟩ = pose m + pose n := by
  change pose _ = Vec.mk _ _ _
  simp only [pose, Vec.mk.injEq]
  refine ⟨by ring, by ring, by ring⟩

theorem pos_msg_add (U V : Vec K) : pos_msg (U + V) = pos_msg U + pos_msg V := by
  change pos_msg (Vec.mk _ _ _) = Vec.mk _ _ _
  simp only [pos_msg, add_div]

/-- What `Kinematic_Analysis` cuts off the targets. -/
def truncation (V : Vec K) : Wheels K where
  A := (trunc (wheel_counts V).A : K) - (wheel_counts V).A
  B := (trunc (wheel_counts V).B : K) - (wheel_counts V).B
  C := (trunc (wheel_counts V).C : K) - (wheel_counts V).C
  D := (trunc (wheel_counts V).D : K) - (wheel_counts V).D

theorem truncation_lt_one (V : Vec K) :
    |(truncation V).A| < 1 ∧ |(truncation V).B| < 1 ∧ |(truncation V).C| < 1 ∧
      |(truncation V).D| < 1 :=
  ⟨abs_trunc_sub_lt_one _, abs_trunc_sub_lt_one _, abs_trunc_sub_lt_one _, abs_trunc_sub_lt_one _⟩

theorem abs_pose_lt {e : Wheels K} (hA : |e.A| < 1) (hB : |e.B| < 1) (hC : |e.C| < 1)
    (hD : |e.D| < 1) :
    |(pose e).X| < 1 ∧ |(pose e).Y| < 1 ∧ |(pose e).Z| < 1 / (a_PARAMETER + b_PARAMETER) := by
  rw [abs_lt] at hA hB hC hD
  have hp : (0 : K) < a_PARAMETER + b_PARAMETER := parameter_pos
  have hx : |(pose e).X| < 1 := by
    rw [pose, abs_lt]
    constructor <;> linarith
  have hy : |(pose e).Y| < 1 := by
    rw [pose, abs_lt]
    constructor <;> linarith
  have hz : |(e.C - e.A + e.D - e.B) / 4| < 1 := by
    rw [abs_lt]
    constructor <;> linarith
  refine ⟨hx, hy, ?_⟩
  rw [pose, abs_div, abs_of_pos hp]
  exact div_lt_div_of_pos_right hz hp

/-! ### Odometry -/

/-- On the targets of a pose, the odometry gives the pose and what truncation makes of it. -/
theorem Position_NOW_eq {s : Car K} (h : s.Position = (Kinematic_Analysis V t).Target) :
    Position_NOW s = V + pose (truncation V) := by
  have hnow : Position_NOW s = pose ⟨(s.Position.A : K), s.Position.B, s.Position.C,
      s.Position.D⟩ := by
    simp only [Position_NOW, pose, Int.cast_sub, Int.cast_add]
  have hsum := pose_add (wheel_counts V) (truncation V)
  rw [pose_wheel_counts] at hsum
  rw [hnow, h, ← hsum]
  simp only [truncation, add_sub_cancel]
  rfl

/-- Odometry inverts the kinematics but for less than a count. -/
theorem Get_Position_NOW_inverts (V : Vec K) (s t : Car K)
    (h : s.Position = (Kinematic_Analysis V t).Target) :
    ∃ NOW, Get_Position_NOW.run s = some (NOW, s) ∧ |NOW.X - V.X| < 1 ∧ |NOW.Y - V.Y| < 1 ∧
      |NOW.Z - V.Z| < 1 / (a_PARAMETER + b_PARAMETER) := by
  have hlt := truncation_lt_one V
  have herror := abs_pose_lt hlt.1 hlt.2.1 hlt.2.2.1 hlt.2.2.2
  refine ⟨Position_NOW s, rfl, ?_⟩
  rw [Position_NOW_eq h]
  change |V.X + _ - V.X| < 1 ∧ |V.Y + _ - V.Y| < 1 ∧ |V.Z + _ - V.Z| < _
  rw [add_sub_cancel_left, add_sub_cancel_left, add_sub_cancel_left]
  exact herror

theorem turn_inverted :
    let V : Vec ℚ := ⟨1 / 2, -7 / 3, 100⟩
    let s : Car ℚ := { Car.initial with Position := ⟨-144, -143, 138, 139⟩ }
    ∃ NOW, Get_Position_NOW.run s = some (NOW, s) ∧ |NOW.X - V.X| < 1 ∧ |NOW.Y - V.Y| < 1 ∧
      |NOW.Z - V.Z| < 1 / (a_PARAMETER + b_PARAMETER) :=
  Get_Position_NOW_inverts ⟨1 / 2, -7 / 3, 100⟩ _ Car.initial (by decide +kernel)

/-! ### From the command to the report -/

/-- The wheels stand on their targets. -/
def Car.arrived (s : Car K) : Car K := { s with Position := s.Target }

theorem Position_NOW_arrived {s : Car K} (h : s.Target = (Kinematic_Analysis V s).Target) :
    Position_NOW s.arrived = V + pose (truncation V) :=
  Position_NOW_eq (s := s.arrived) h

theorem pos_msg_pos_Move (point : Vec K) :
    pos_msg (pos_Move point) = ⟨point.X, point.Y, point.Z / (116667 / 100000)⟩ := by
  have hR : (R : K) ≠ 0 := by
    rw [R]
    norm_num
  simp only [pos_msg, pos_Move, Vec.mk.injEq]
  refine ⟨mul_div_cancel_right₀ _ (by norm_num), mul_div_cancel_right₀ _ (by norm_num), ?_⟩
  field_simp

theorem exec_callback_pos_command [Libm K] (point : Vec K) (s : Car K) :
    ((callback_pos point).exec s).Move = pos_Move point ∧
      ((callback_pos point).exec s).relative = s.relative := by
  rw [exec_callback_pos]
  dsimp only
  split <;> split <;> exact ⟨rfl, rfl⟩

/-- In absolute positioning, a tick after the message computes its targets. -/
theorem targets_of_message [Libm K] {s : Car K} (hrel : s.relative ≠ 1) (point : Vec K) :
    (Control ((callback_pos point).exec s)).Target =
      (Kinematic_Analysis (pos_Move point) s).Target := by
  obtain ⟨hmove, hrelative⟩ := exec_callback_pos_command point s
  have habs : Control_positioning ((callback_pos point).exec s) = .absolute := by
    rw [Control_positioning, hrelative, if_neg fun h => hrel h.2]
  rw [Control_Target, Control_targets, habs, hmove]
  rfl

/-- Of a pose that has been reached, the report is right up to the truncation of the targets
exactly when the command does not turn the car. -/
theorem pose_reported [Libm K] (s : Car K) (hrel : s.relative ≠ 1) (point : Vec K) :
    let t := (Control ((callback_pos point).exec s)).arrived
    let error := truncation (pos_Move point)
    (|error.A| < 1 ∧ |error.B| < 1 ∧ |error.C| < 1 ∧ |error.D| < 1) ∧
      ∃ reported, publish_pos.run t = some (reported, t) ∧
        (reported = point + pos_msg (pose error) ↔ point.Z = 0) := by
  intro t error
  have hnow : Position_NOW t = pos_Move point + pose error :=
    Position_NOW_arrived (targets_of_message hrel point)
  refine ⟨truncation_lt_one _, pos_msg (Position_NOW t), rfl, ?_⟩
  rw [hnow, pos_msg_add, pos_msg_pos_Move]
  change Vec.mk _ _ _ = Vec.mk _ _ _ ↔ _
  simp only [Vec.mk.injEq, true_and, add_left_inj]
  rw [div_eq_iff (by norm_num)]
  constructor
  · intro h
    linarith
  · intro h
    rw [h, zero_mul]

end

theorem straight_reported :
    let s : Car ℚ := { Car.initial with relative := 0 }
    let t := (Control ((callback_pos ⟨30, -20, 0⟩).exec s)).arrived
    ∃ reported, publish_pos.run t = some (reported, t) ∧
      reported = ⟨30, -20, 0⟩ + pos_msg (pose (truncation (pos_Move ⟨30, -20, 0⟩))) := by
  intro s t
  obtain ⟨-, reported, hr, hiff⟩ := pose_reported s (by decide) ⟨30, -20, 0⟩
  exact ⟨reported, hr, hiff.2 rfl⟩

/-- A turn by 100 is reported as one by less than 86. -/
theorem turn_misreported :
    ¬∀ (s : Car ℚ) (point : Vec ℚ), s.relative ≠ 1 →
      let t := (Control ((callback_pos point).exec s)).arrived
      ∀ reported, publish_pos.run t = some (reported, t) →
        reported = point + pos_msg (pose (truncation (pos_Move point))) ∨
          |point.Z - reported.Z| ≤ 14 := by
  intro h
  have hz := h { Car.initial with relative := 0 } ⟨0, 0, 100⟩ (by decide) _ rfl
  revert hz
  decide +kernel

end RobotCar

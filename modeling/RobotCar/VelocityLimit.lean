import Mathlib.Analysis.Real.Sqrt
import RobotCar.MirrorSymmetry

namespace RobotCar
open Concurrent CArith
set_option autoImplicit true
set_option linter.unusedSectionVars false

/-! ### One wheel -/

theorem myabs_eq (a : Int) : myabs a = a.natAbs := by
  unfold myabs
  split <;> omega

theorem limit_of_neg (h : amplitude < 0) (motor : Int) : limit amplitude motor = amplitude := by
  simp only [limit]
  split <;> split <;> omega

theorem abs_limit_le (h : 0 ≤ amplitude) (motor : Int) : |limit amplitude motor| ≤ amplitude := by
  simp only [limit, abs_le]
  split <;> split <;> omega

/-- The wheel is not turned round and does not become faster. -/
def Slows (motor limited : Int) : Prop := 0 ≤ motor * limited ∧ |limited| ≤ |motor|

instance (motor limited : Int) : Decidable (Slows motor limited) :=
  inferInstanceAs (Decidable (_ ∧ _))

theorem limit_slows (h : 0 ≤ amplitude) (motor : Int) : Slows motor (limit amplitude motor) := by
  rcases le_total 0 motor with hm | hm
  · have hlow : 0 ≤ limit amplitude motor ∧ limit amplitude motor ≤ motor := by
      simp only [limit]
      split <;> split <;> omega
    refine ⟨mul_nonneg hm hlow.1, ?_⟩
    rw [abs_of_nonneg hlow.1, abs_of_nonneg hm]
    exact hlow.2
  · have hhigh : limit amplitude motor ≤ 0 ∧ motor ≤ limit amplitude motor := by
      simp only [limit]
      split <;> split <;> omega
    refine ⟨mul_nonneg_of_nonpos_of_nonpos hm hhigh.1, ?_⟩
    rw [abs_of_nonpos hhigh.1, abs_of_nonpos hm]
    exact neg_le_neg hhigh.2

theorem limit_slows_iff (amplitude motor : Int) :
    Slows motor (limit amplitude motor) ↔ 0 ≤ amplitude ∨ motor ≤ amplitude := by
  rcases le_or_gt 0 amplitude with h | h
  · exact iff_of_true (limit_slows h motor) (.inl h)
  · rw [limit_of_neg h, or_iff_right (not_le.2 h), Slows]
    constructor
    · rintro ⟨hsign, habs⟩
      have hm : motor ≤ 0 := nonpos_of_mul_nonneg_left hsign h
      rw [abs_of_neg h, abs_of_nonpos hm] at habs
      exact neg_le_neg_iff.1 habs
    · intro hle
      have hm : motor ≤ 0 := hle.trans h.le
      refine ⟨mul_nonneg_of_nonpos_of_nonpos hm h.le, ?_⟩
      rw [abs_of_neg h, abs_of_nonpos hm]
      exact neg_le_neg hle

section
variable {K : Type} [Field K] [LinearOrder K] [IsStrictOrderedRing K] [FloorRing K] [Libm K]

/-! ### The limits of a tick -/

/-- The limit of a wheel before it is truncated, with the rate and the divider in force. -/
def wheel_limit (s : Car K) (w : Wheel) : K :=
  (travel s).RC_Velocity * myabs ((travel s).Rate.get w) / (travel s).Divider

theorem Count_Velocity_get_Motor (s : Car K) (w : Wheel) :
    (Count_Velocity s).Motor.get w = limit (trunc (wheel_limit s w)) (s.Motor.get w) := by
  rw [Count_Velocity_eq]
  cases w <;> rfl

/-- After a message on `/car/speedlimit`, the limiter slows every wheel down exactly when no limit
is negative, but for wheels that run faster backwards anyway. -/
theorem speed_limiter_iff (data : K) (s : Car K) :
    let t := (callback_speedlimit data).exec s
    (∀ w, Slows (t.Motor.get w) ((Count_Velocity t).Motor.get w)) ↔
      ∀ w, -1 < wheel_limit t w ∨ (t.Motor.get w : K) < wheel_limit t w + 1 := by
  intro t
  apply forall_congr'
  intro w
  rw [Count_Velocity_get_Motor, limit_slows_iff, trunc_nonneg_iff]
  rcases lt_or_ge (-1) (wheel_limit t w) with h | h
  · exact iff_of_true (.inl h) (.inl h)
  · rw [le_trunc_iff h]

end

theorem speed_limited :
    let t := (callback_speedlimit 10).exec
      { (Car.initial : Car ℚ) with
        Rate := ⟨-100, 100, -100, 100⟩, Divider := 100, Motor := ⟨-300, 300, 0, 10⟩ }
    (Count_Velocity t).Motor = ⟨-178, 178, 0, 10⟩ ∧
      ∀ w, Slows (t.Motor.get w) ((Count_Velocity t).Motor.get w) := by
  refine ⟨by decide +kernel, (speed_limiter_iff 10 _).2 fun w => .inl ?_⟩
  cases w <;> decide +kernel

/-- A negative speed limit drives wheels that nothing else drives. -/
theorem speed_limit_drives :
    ¬∀ (data : ℚ) (s : Car ℚ), (travel ((callback_speedlimit data).exec s)).Divider ≠ 0 →
      let t := (callback_speedlimit data).exec s
      ∀ w, Slows (t.Motor.get w) ((Count_Velocity t).Motor.get w) := by
  intro h
  have hA := h (-10) { Car.initial with Rate := ⟨-100, 100, -100, 100⟩, Divider := 100 }
    (by decide +kernel) .A
  revert hA
  decide +kernel

/-! ### The four wheels together -/

/-- The velocity of the body that is closest to four wheel speeds. -/
def body_velocity [Field K] (m : Wheels K) : Vec K where
  X := (-m.A + m.B - m.C + m.D) / 4
  Y := (m.A + m.B + m.C + m.D) / 4
  Z := (-m.A - m.B + m.C + m.D) / 4 / (a_PARAMETER + b_PARAMETER)

def Displaces [Zero K] (V : Vec K) : Prop := V.X ≠ 0 ∨ V.Y ≠ 0 ∨ V.Z ≠ 0

instance [Zero K] [DecidableEq K] (V : Vec K) : Decidable (Displaces V) :=
  inferInstanceAs (Decidable (_ ∨ _))

section
variable {K : Type} [Field K] [LinearOrder K] [IsStrictOrderedRing K] [FloorRing K]

theorem body_velocity_wheel_counts (V : Vec K) : body_velocity (wheel_counts V) = V := by
  have hp : (a_PARAMETER + b_PARAMETER : K) ≠ 0 := ne_of_gt parameter_pos
  cases V with
  | mk x y z =>
    simp only [body_velocity, wheel_counts, Vec.mk.injEq]
    refine ⟨by ring, by ring, ?_⟩
    field_simp
    ring

/-- What is left is the part of the speeds with which the wheels work against each other. -/
theorem body_velocity_le (m : Wheels K) :
    (body_velocity m).X ^ 2 + (body_velocity m).Y ^ 2 ≤
      (m.A ^ 2 + m.B ^ 2 + m.C ^ 2 + m.D ^ 2) / 4 := by
  have hsum : (m.A ^ 2 + m.B ^ 2 + m.C ^ 2 + m.D ^ 2) / 4 =
      (body_velocity m).X ^ 2 + (body_velocity m).Y ^ 2 + ((-m.A - m.B + m.C + m.D) / 4) ^ 2 +
        ((m.A - m.B - m.C + m.D) / 4) ^ 2 := by
    rw [body_velocity]
    ring
  have hturn := sq_nonneg ((-m.A - m.B + m.C + m.D) / 4)
  have hrest := sq_nonneg ((m.A - m.B - m.C + m.D) / 4)
  linarith

theorem wheel_counts_squares (V : Vec K) :
    (wheel_counts V).A ^ 2 + (wheel_counts V).B ^ 2 + (wheel_counts V).C ^ 2 +
        (wheel_counts V).D ^ 2 =
      4 * (V.X ^ 2 + V.Y ^ 2 + (a_PARAMETER + b_PARAMETER) ^ 2 * V.Z ^ 2) := by
  rw [wheel_counts]
  ring

theorem Displaces.norm_pos {V : Vec K} (h : Displaces V) : 0 < V.X ^ 2 + V.Y ^ 2 + V.Z ^ 2 := by
  have hx := sq_nonneg V.X
  have hy := sq_nonneg V.Y
  have hz := sq_nonneg V.Z
  rcases h with h | h | h
  · have hpos := sq_pos_of_ne_zero h
    linarith
  · have hpos := sq_pos_of_ne_zero h
    linarith
  · have hpos := sq_pos_of_ne_zero h
    linarith

section
variable [Libm K]

/-- The rates and the divider are those of a displacement. -/
structure Heads (V : Vec K) (s : Car K) : Prop where
  displaces : Displaces V
  Rate : s.Rate = (wheel_counts V).map trunc
  Divider : s.Divider = Libm.sqrt (V.X * V.X + V.Y * V.Y + V.Z * V.Z)

theorem Heads.congr {s t : Car K} (h : Heads V s) (hr : t.Rate = s.Rate)
    (hd : t.Divider = s.Divider) : Heads V t :=
  ⟨h.displaces, hr.trans h.Rate, hd.trans h.Divider⟩

def last_displacement (s : Car K) (last : Option (Vec K)) : Option (Vec K) :=
  if Displaces (Count_Velocity_Bias s) then some (Count_Velocity_Bias s) else last

theorem travel_heads {s : Car K} (h : ∀ V, last = some V → Heads V s)
    (hV : last_displacement s last = some V) : Heads V (travel s) := by
  rw [last_displacement] at hV
  by_cases hd : Displaces (Count_Velocity_Bias s)
  · rw [if_pos hd, Option.some.injEq] at hV
    subst hV
    have ht : travel s = Kinematic_Analysis2 (Count_Velocity_Bias s)
        { s with Divider := Libm.sqrt _ } := if_pos hd
    rw [ht]
    exact ⟨hd, rfl, rfl⟩
  · rw [if_neg hd] at hV
    have ht : travel s = s := if_neg hd
    rw [ht]
    exact h V hV

theorem abs_Motor_le (hsqrt : ∀ x : K, 0 ≤ x → 0 ≤ Libm.sqrt x) {s : Car K}
    (hV : Heads V (travel s)) (hvel : 0 ≤ (travel s).RC_Velocity) (w : Wheel) :
    |((Count_Velocity s).Motor.get w : K)| ≤
      (travel s).RC_Velocity * |(wheel_counts V).get w| / (travel s).Divider := by
  have hnorm : 0 ≤ V.X * V.X + V.Y * V.Y + V.Z * V.Z :=
    add_nonneg (add_nonneg (mul_self_nonneg _) (mul_self_nonneg _)) (mul_self_nonneg _)
  have hdiv : 0 ≤ (travel s).Divider := hV.Divider ▸ hsqrt _ hnorm
  have hlimit : 0 ≤ wheel_limit s w :=
    div_nonneg (mul_nonneg hvel (Nat.cast_nonneg _)) hdiv
  have htrunc : 0 ≤ trunc (wheel_limit s w) := trunc_nonneg_iff.2 (by linarith)
  have hrate : ((myabs ((travel s).Rate.get w) : Nat) : K) ≤ |(wheel_counts V).get w| := by
    have habs : ((myabs ((travel s).Rate.get w) : Nat) : K) = |((travel s).Rate.get w : K)| := by
      rw [myabs_eq, Nat.cast_natAbs, Int.cast_abs]
    rw [habs, hV.Rate]
    cases w <;> exact abs_trunc_le _
  calc |((Count_Velocity s).Motor.get w : K)|
      = ((|(Count_Velocity s).Motor.get w| : Int) : K) := (Int.cast_abs).symm
    _ ≤ ((trunc (wheel_limit s w) : Int) : K) := by
        rw [Count_Velocity_get_Motor, Int.cast_le]
        exact abs_limit_le htrunc _
    _ ≤ wheel_limit s w := by
        have hle := abs_trunc_le (wheel_limit s w)
        rw [abs_of_nonneg hlimit] at hle
        exact (le_abs_self _).trans hle
    _ ≤ (travel s).RC_Velocity * |(wheel_counts V).get w| / (travel s).Divider :=
        div_le_div_of_nonneg_right (mul_le_mul_of_nonneg_left hrate hvel) hdiv

theorem wheels_squares_le
    (hsqrt : ∀ x : K, 0 ≤ x → 0 ≤ Libm.sqrt x ∧ Libm.sqrt x * Libm.sqrt x = x) {s : Car K}
    (hV : Heads V (travel s)) (hvel : 0 ≤ (travel s).RC_Velocity) :
    let m := (Count_Velocity s).Motor
    ((m.A : K) ^ 2 + (m.B : K) ^ 2 + (m.C : K) ^ 2 + (m.D : K) ^ 2) / 4 ≤
      (travel s).RC_Velocity ^ 2 *
          (V.X ^ 2 + V.Y ^ 2 + (a_PARAMETER + b_PARAMETER) ^ 2 * V.Z ^ 2) /
        (V.X ^ 2 + V.Y ^ 2 + V.Z ^ 2) := by
  intro m
  have hpos := hV.displaces.norm_pos
  have hnorm : V.X * V.X + V.Y * V.Y + V.Z * V.Z = V.X ^ 2 + V.Y ^ 2 + V.Z ^ 2 := by ring
  have hdiv : (travel s).Divider ^ 2 = V.X ^ 2 + V.Y ^ 2 + V.Z ^ 2 := by
    rw [hV.Divider, hnorm, sq]
    exact (hsqrt _ hpos.le).2
  have hwheel (w : Wheel) : (m.get w : K) ^ 2 ≤
      (travel s).RC_Velocity ^ 2 * (wheel_counts V).get w ^ 2 /
        (V.X ^ 2 + V.Y ^ 2 + V.Z ^ 2) := by
    have hle := abs_Motor_le (fun x hx => (hsqrt x hx).1) hV hvel w
    have hsq := pow_le_pow_left₀ (abs_nonneg _) hle 2
    rw [sq_abs, div_pow, mul_pow, sq_abs, hdiv] at hsq
    exact hsq
  have hsum := add_le_add (add_le_add (add_le_add (hwheel .A) (hwheel .B)) (hwheel .C)) (hwheel .D)
  rw [← add_div, ← add_div, ← add_div, ← mul_add, ← mul_add, ← mul_add] at hsum
  change _ ≤ _ * ((wheel_counts V).A ^ 2 + (wheel_counts V).B ^ 2 + (wheel_counts V).C ^ 2 +
    (wheel_counts V).D ^ 2) / _ at hsum
  rw [wheel_counts_squares, mul_left_comm, mul_div_assoc] at hsum
  rw [div_le_iff₀ (by norm_num : (0 : K) < 4), mul_comm _ (4 : K)]
  exact hsum

/-! ### Over a run -/

/-- What a tick calls `Count_Velocity` with, in position mode. -/
def limiter_input (s : Car K) : Car K := Control_outer (Control_encoders (Control_targets s))

def watchDisplacement (e : CarEvent) (s : Car K) (last : Option (Vec K)) : Option (Vec K) :=
  match e with
  | .Control => if s.Run_Flag = 0 then last else last_displacement (limiter_input s) last
  | .encoders _ => last

def recordedDisplacements (K : Type) [Field K] [LinearOrder K] [FloorRing K] [Libm K] :
    Client (ControlCall K) (Car K × Option (Vec K)) (Message K) CarEvent :=
  (carClient K).history (fun _ _ last => last) watchDisplacement fun _ _ last => last

/-- The rates and the divider are those of the last displacement. -/
def Headed (r : Car K × Option (Vec K)) : Prop := ∀ V, r.2 = some V → Heads V r.1

theorem limiter_input_heads {s : Car K} (h : Heads V s) : Heads V (limiter_input s) := by
  have ht : (Control_targets s).Rate = s.Rate ∧ (Control_targets s).Divider = s.Divider := by
    unfold Control_targets
    split
    · split <;> exact ⟨rfl, rfl⟩
    · exact ⟨rfl, rfl⟩
  exact h.congr ht.1 ht.2

theorem Control_headed {s : Car K} (h : Headed (s, last)) :
    Headed (Control s, watchDisplacement .Control s last) := by
  have hflag : (Control_encoders (Control_targets s)).Run_Flag = s.Run_Flag :=
    congrArg (·.1) (Control_targets_command s)
  have hin (V : Vec K) (hV : last = some V) : Heads V (limiter_input s) :=
    limiter_input_heads (h V hV)
  intro V hV
  change watchDisplacement .Control s last = some V at hV
  rw [watchDisplacement] at hV
  have hmotors : Heads V (Control_motors (Control_encoders (Control_targets s))) := by
    rw [Control_motors, hflag]
    by_cases hspeed : s.Run_Flag = 0
    · rw [if_pos hspeed] at hV ⊢
      exact (hin V hV).congr rfl rfl
    · rw [if_neg hspeed] at hV ⊢
      apply (travel_heads hin hV).congr
      · change (Count_Velocity (limiter_input s)).Rate = _
        rw [Count_Velocity_eq]
      · change (Count_Velocity (limiter_input s)).Divider = _
        rw [Count_Velocity_eq]
  exact hmotors.congr rfl rfl

theorem run_headed (s : Car K) (es : List (Client.Event (Message K) CarEvent)) :
    Headed ((recordedDisplacements K).run (s, none) es).shared := by
  apply Client.run_invariant
  · rintro ⟨s, last⟩ e h
    cases e with
    | Control => exact Control_headed h
    | encoders counters => exact fun V hV => (h V hV).congr rfl rfl
  · exact fun m r h => h
  · intro m
    apply ((callback_commands m).history _).preserves
    rintro l ⟨s, last⟩ ⟨s', last'⟩ h ⟨hs, rfl⟩ V hV
    have heads := h V hV
    change s' = _ at hs
    rw [hs]
    exact heads.congr rfl rfl
  · exact fun V hV => absurd hV nofun

/-- Whatever the position controllers ask for, the limiter keeps the total speed of the four wheels
in proportion to the speed limit, and in a translation the speed of the body below it. -/
theorem total_speed_limited
    (hsqrt : ∀ x : K, 0 ≤ x → 0 ≤ Libm.sqrt x ∧ Libm.sqrt x * Libm.sqrt x = x) (s₀ : Car K)
    (es : List (Client.Event (Message K) CarEvent)) (vel : K) (hvel : 0 ≤ vel)
    (motor : Wheels Int) :
    let r := ((recordedDisplacements K).run (s₀, none) es).shared
    let s := { limiter_input r.1 with RC_Velocity := vel, Motor := motor }
    let m := (Count_Velocity s).Motor
    ∀ V, last_displacement s r.2 = some V →
      ((m.A : K) ^ 2 + (m.B : K) ^ 2 + (m.C : K) ^ 2 + (m.D : K) ^ 2) / 4 ≤
        vel ^ 2 * (V.X ^ 2 + V.Y ^ 2 + (a_PARAMETER + b_PARAMETER) ^ 2 * V.Z ^ 2) /
          (V.X ^ 2 + V.Y ^ 2 + V.Z ^ 2) ∧
      (V.Z = 0 →
        (body_velocity ⟨(m.A : K), m.B, m.C, m.D⟩).X ^ 2 +
          (body_velocity ⟨(m.A : K), m.B, m.C, m.D⟩).Y ^ 2 ≤ vel ^ 2) := by
  intro r s m V hV
  have hin (V : Vec K) (h : r.2 = some V) : Heads V s :=
    (limiter_input_heads (run_headed s₀ es V h)).congr rfl rfl
  have hheads := travel_heads hin hV
  have hRC : (travel s).RC_Velocity = vel := by
    unfold travel
    dsimp only
    split <;> rfl
  have hle := wheels_squares_le hsqrt hheads (hRC.symm ▸ hvel)
  rw [hRC] at hle
  refine ⟨hle, fun hz => ?_⟩
  have hbody := body_velocity_le ⟨(m.A : K), m.B, m.C, m.D⟩
  have hpos := hheads.displaces.norm_pos
  have hone : vel ^ 2 * (V.X ^ 2 + V.Y ^ 2 + (a_PARAMETER + b_PARAMETER) ^ 2 * V.Z ^ 2) /
      (V.X ^ 2 + V.Y ^ 2 + V.Z ^ 2) = vel ^ 2 := by
    rw [hz] at hpos ⊢
    rw [zero_pow two_ne_zero, add_zero] at hpos ⊢
    rw [mul_zero, add_zero, mul_div_cancel_right₀ _ (ne_of_gt hpos)]
  rw [hone] at hle
  exact hbody.trans hle

end

end

/-- The square root of exact arithmetic. -/
noncomputable instance : Libm ℝ where
  sqrt := Real.sqrt

theorem translation_limited :
    let s₀ : Car ℝ := { Car.initial with Run_Flag := 1, Move := ⟨30, 40, 0⟩ }
    let m := (Count_Velocity
      { limiter_input s₀ with RC_Velocity := 160, Motor := ⟨-500, 500, 500, 500⟩ }).Motor
    (body_velocity ⟨(m.A : ℝ), m.B, m.C, m.D⟩).X ^ 2 +
      (body_velocity ⟨(m.A : ℝ), m.B, m.C, m.D⟩).Y ^ 2 ≤ 160 ^ 2 := by
  intro s₀ m
  have hsqrt (x : ℝ) (hx : 0 ≤ x) : 0 ≤ Libm.sqrt x ∧ Libm.sqrt x * Libm.sqrt x = x :=
    ⟨Real.sqrt_nonneg x, Real.mul_self_sqrt hx⟩
  have hV : last_displacement
      { limiter_input s₀ with RC_Velocity := 160, Motor := ⟨-500, 500, 500, 500⟩ } none =
        some ⟨30, 40, 0⟩ :=
    if_pos (.inl (OfNat.ofNat_ne_zero 30))
  exact (total_speed_limited hsqrt s₀ [] 160 (by norm_num) ⟨-500, 500, 500, 500⟩ _ hV).2 rfl

end RobotCar

import RobotCar.VelocityLimit

namespace RobotCar
open Concurrent
set_option autoImplicit true
set_option linter.unusedSectionVars false

/-- An execution of `Count_Velocity`: the displacement it finds, and what it divides by. -/
structure Division (K : Type) where
  Bias : Vec K
  Divider : K
  deriving DecidableEq, Repr

section
variable {K : Type} [Field K] [LinearOrder K] [IsStrictOrderedRing K] [FloorRing K] [Libm K]

/-- A tick in position mode executes `Count_Velocity`. -/
def watchDivision (e : CarEvent) (s : Car K) (divisions : List (Division K)) :
    List (Division K) :=
  match e with
  | .Control =>
    if s.Run_Flag = 0 then divisions
    else divisions ++ [⟨Count_Velocity_Bias s, (travel (limiter_input s)).Divider⟩]
  | .encoders _ => divisions

def recordedDivisions (K : Type) [Field K] [LinearOrder K] [FloorRing K] [Libm K] :
    Client (ControlCall K) (Car K × List (Division K)) (Message K) CarEvent :=
  (carClient K).history (fun _ _ divisions => divisions) watchDivision
    fun _ _ divisions => divisions

def divisions (es : List (Client.Event (Message K) CarEvent)) : List (Division K) :=
  ((recordedDivisions K).run (Car.initial, []) es).shared.2

/-! ### One tick -/

theorem limiter_input_Bias (s : Car K) :
    Count_Velocity_Bias (limiter_input s) = Count_Velocity_Bias s := by
  have hlast : (limiter_input s).Last_Target = s.Last_Target := by
    change (Control_targets s).Last_Target = _
    unfold Control_targets
    split
    · split <;> rfl
    · rfl
  have hc := Control_targets_command s
  have hmove : (limiter_input s).Move = s.Move := congrArg (·.2.1) hc
  have hrel : (limiter_input s).relative = s.relative := congrArg (·.2.2.1) hc
  rw [Count_Velocity_Bias, Count_Velocity_Bias, Count_Velocity_positioning,
    Count_Velocity_positioning, hlast, hmove, hrel]

theorem limiter_input_Divider (s : Car K) : (limiter_input s).Divider = s.Divider := by
  change (Control_targets s).Divider = _
  unfold Control_targets
  split
  · split <;> rfl
  · rfl

theorem Control_Divider (s : Car K) :
    (Control s).Divider =
      if s.Run_Flag = 0 then s.Divider else (travel (limiter_input s)).Divider := by
  have hflag : (Control_encoders (Control_targets s)).Run_Flag = s.Run_Flag :=
    congrArg (·.1) (Control_targets_command s)
  change (Control_motors (Control_encoders (Control_targets s))).Divider = _
  rw [Control_motors, hflag]
  split
  · exact limiter_input_Divider s
  · change (Count_Velocity (limiter_input s)).Divider = _
    rw [Count_Velocity_eq]

theorem travel_Divider_ne_zero_iff (hsqrt : ∀ x : K, 0 < x → Libm.sqrt x ≠ 0) (s : Car K) :
    (travel (limiter_input s)).Divider ≠ 0 ↔ Displaces (Count_Velocity_Bias s) ∨ s.Divider ≠ 0 := by
  rw [← limiter_input_Bias]
  by_cases h : Displaces (Count_Velocity_Bias (limiter_input s))
  · have ht : travel (limiter_input s) = Kinematic_Analysis2 (Count_Velocity_Bias (limiter_input s))
        { limiter_input s with Divider := Libm.sqrt _ } := if_pos h
    have hpos := h.norm_pos
    rw [sq, sq, sq] at hpos
    rw [ht]
    exact iff_of_true (hsqrt _ hpos) (.inl h)
  · have ht : travel (limiter_input s) = limiter_input s := if_neg h
    rw [ht, limiter_input_Divider, or_iff_right h]

/-! ### Over a run -/

/-- Until the first execution the divider is 0. If the first execution finds a displacement, it is
not 0 any more. -/
structure Divided (r : Car K × List (Division K)) : Prop where
  unset : r.2 = [] → r.1.Divider = 0
  set : ∀ u, r.2.head? = some u → Displaces u.Bias →
    r.1.Divider ≠ 0 ∧ ∀ v ∈ r.2, v.Divider ≠ 0
  missed : ∀ u, r.2.head? = some u → ¬Displaces u.Bias → u.Divider = 0

theorem Divided.divide {r r' : Car K × List (Division K)} (h : Divided r) (hu : r'.2 = r.2 ++ [u])
    (hD : r'.1.Divider = u.Divider)
    (hiff : u.Divider ≠ 0 ↔ Displaces u.Bias ∨ r.1.Divider ≠ 0) : Divided r' := by
  obtain ⟨s, us⟩ := r
  obtain ⟨hunset, hset, hmissed⟩ := h
  cases us with
  | nil =>
    have hzero : s.Divider = 0 := hunset rfl
    have hone : u.Divider ≠ 0 ↔ Displaces u.Bias :=
      hiff.trans (or_iff_left fun hne => hne hzero)
    have hfirst (v : Division K) (hv : r'.2.head? = some v) : u = v := by
      rw [hu] at hv
      exact Option.some.inj hv
    refine ⟨fun he => ?_, fun v hv hdisp => ?_, fun v hv hdisp => ?_⟩
    · rw [hu] at he
      exact absurd he (List.cons_ne_nil u [])
    · rw [hD, hu]
      have hne := hone.2 (hfirst v hv ▸ hdisp)
      exact ⟨hne, fun w hw => List.mem_singleton.1 hw ▸ hne⟩
    · rw [← hfirst v hv]
      exact not_not.1 fun hne => hdisp (hfirst v hv ▸ hone.1 hne)
  | cons v us =>
    have hfirst : r'.2.head? = some v := by
      rw [hu]
      rfl
    refine ⟨fun he => ?_, fun w hw hdisp => ?_, fun w hw => ?_⟩
    · rw [hu] at he
      exact absurd he (List.cons_ne_nil v _)
    · obtain ⟨hne, hall⟩ := hset w (hfirst.symm.trans hw) hdisp
      have hune : u.Divider ≠ 0 := hiff.2 (.inr hne)
      rw [hD, hu]
      refine ⟨hune, fun x hx => ?_⟩
      rcases List.mem_append.1 hx with hx | hx
      · exact hall x hx
      · exact List.mem_singleton.1 hx ▸ hune
    · exact hmissed w (hfirst.symm.trans hw)

theorem Divided.congr {r r' : Car K × List (Division K)} (h : Divided r) (hu : r'.2 = r.2)
    (hD : r'.1.Divider = r.1.Divider) : Divided r' := by
  constructor
  · rw [hu, hD]
    exact h.unset
  · rw [hu, hD]
    exact h.set
  · rw [hu]
    exact h.missed

theorem run_divided (hsqrt : ∀ x : K, 0 < x → Libm.sqrt x ≠ 0)
    (es : List (Client.Event (Message K) CarEvent)) :
    Divided ((recordedDivisions K).run (Car.initial, []) es).shared := by
  apply Client.run_invariant
  · rintro ⟨s, us⟩ e h
    cases e with
    | Control =>
      by_cases hflag : s.Run_Flag = 0
      · apply h.congr
        · exact if_pos hflag
        · exact (Control_Divider s).trans (if_pos hflag)
      · apply h.divide
        · exact if_neg hflag
        · exact (Control_Divider s).trans (if_neg hflag)
        · exact travel_Divider_ne_zero_iff hsqrt s
    | encoders counters => exact h.congr rfl rfl
  · exact fun m r h => h
  · intro m
    apply ((callback_commands m).history _).preserves
    rintro l r r' h ⟨hs, hu⟩
    apply h.congr hu
    change r'.1 = _ at hs
    rw [hs]
  · exact ⟨fun _ => rfl, nofun, nofun⟩

/-- Whatever the messages and however ticks preempt their handling, no tick divides by zero exactly
when the first one in position mode finds a displacement. -/
theorem no_division_by_zero_iff (hsqrt : ∀ x : K, 0 < x → Libm.sqrt x ≠ 0)
    (es : List (Client.Event (Message K) CarEvent)) :
    (∀ u ∈ divisions es, u.Divider ≠ 0) ↔
      ∀ u, (divisions es).head? = some u → Displaces u.Bias := by
  have h := run_divided hsqrt es
  constructor
  · intro hall u hu
    by_contra hdisp
    exact hall u (List.mem_of_mem_head? hu) (h.missed u hu hdisp)
  · intro hfirst v hv
    cases hu : (divisions es).head? with
    | none => exact absurd (List.head?_eq_none_iff.1 hu ▸ hv) List.not_mem_nil
    | some u => exact (h.set u hu (hfirst u hu)).2 v hv

end

def posThenTick (point : Vec K) : List (Client.Event (Message K) CarEvent) :=
  .recv (.pos point) :: List.replicate 8 .step ++ [.env .Control]

theorem no_division_by_zero_after_displacement :
    let us := divisions (posThenTick (⟨10, 0, 0⟩ : Vec ℝ))
    us.length = 1 ∧ ∀ u ∈ us, u.Divider ≠ 0 := by
  refine ⟨rfl, (no_division_by_zero_iff (fun x hx => (Real.sqrt_pos.2 hx).ne') _).2 ?_⟩
  intro u hu
  have hBias : u.Bias = pos_Move ⟨10, 0, 0⟩ := by
    cases hu
    rfl
  left
  rw [hBias, pos_Move]
  norm_num

/-- After power-up, a move by nothing divides by zero. -/
theorem move_by_nothing_divides_by_zero :
    ¬∀ es : List (Client.Event (Message ℚ) CarEvent), ∀ u ∈ divisions es, u.Divider ≠ 0 := by
  intro h
  exact h (posThenTick ⟨0, 0, 0⟩) ⟨⟨0, 0, 0⟩, 0⟩ (by decide +kernel) rfl

/-- So does a tick between the setters of the first move. -/
example : divisions [.recv (.pos (⟨10, 0, 0⟩ : Vec ℚ)), .step, .step, .step, .env .Control] =
    [⟨⟨0, 0, 0⟩, 0⟩] := by
  decide +kernel

end RobotCar

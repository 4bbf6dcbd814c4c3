import Mathlib.Data.List.Induction
import Mathlib.Tactic.Ring
import RobotCar.Control

namespace RobotCar
open CArith Transition
set_option autoImplicit true
set_option linter.unusedSectionVars false

/-- What the controllers of all wheels are called with: a measured value, and its target. -/
structure WheelInput where
  Encoder : Int
  Target : Int
  deriving DecidableEq, Repr

namespace WheelInput

def error (u : WheelInput) : Int := u.Encoder - u.Target

end WheelInput

/-- All wheels have the same value. -/
def Wheels.Alike (v : Wheels α) : Prop := v.A = v.B ∧ v.A = v.C ∧ v.A = v.D

instance [DecidableEq α] (v : Wheels α) : Decidable v.Alike :=
  inferInstanceAs (Decidable (_ ∧ _ ∧ _))

section
variable {K : Type} [Field K] [LinearOrder K] [FloorRing K]

def Incremental_PI_tick (u : WheelInput) (s : Car K) : Wheels Int × Car K :=
  let (a, s) := Incremental_PI_A u.Encoder u.Target s
  let (b, s) := Incremental_PI_B u.Encoder u.Target s
  let (c, s) := Incremental_PI_C u.Encoder u.Target s
  let (d, s) := Incremental_PI_D u.Encoder u.Target s
  (⟨a, b, c, d⟩, s)

/-- `flag_clear_i` is raised or left as it is. -/
def raise (clear : Bool) (s : Car K) : Car K := if clear then { s with flag_clear_i := 1 } else s

/-- The position controllers in the order of `Control`, with one input, and before them the flag
is raised or not. -/
def Position_PID_tick (u : WheelInput × Bool) (s : Car K) : Wheels Int × Car K :=
  let (a, s) := Position_PID_A u.1.Encoder u.1.Target (raise u.2 s)
  let (b, s) := Position_PID_B u.1.Encoder u.1.Target s
  let (c, s) := Position_PID_C u.1.Encoder u.1.Target s
  let (d, s) := Position_PID_D u.1.Encoder u.1.Target s
  (⟨a, b, c, d⟩, s)

end

section
variable {K : Type} [Field K] [LinearOrder K] [IsStrictOrderedRing K] [FloorRing K]

/-! ### The incremental law -/

/-- The incremental law before the output is limited. -/
def IncrementalPI.raw (c : IncrementalPI) (error : Int) : Int :=
  c.Pwm + 50 * (error - c.Last_bias) + 3 * error

/-- The controller after an error. -/
def IncrementalPI.after (c : IncrementalPI) (error : Int) : IncrementalPI where
  Bias := error
  Pwm := limit 11999 (c.raw error)
  Last_bias := error

theorem Incremental_PI_eq (c : IncrementalPI) (u : WheelInput) :
    Incremental_PI K c u.Encoder u.Target = ((c.after u.error).Pwm, c.after u.error) := by
  have hsum : (c.Pwm : K) + (Velocity_KP * ((u.Encoder - u.Target - c.Last_bias : Int) : K) +
      Velocity_KI * ((u.Encoder - u.Target : Int) : K)) = ((c.raw u.error : Int) : K) := by
    rw [Velocity_KP, Velocity_KI, IncrementalPI.raw, WheelInput.error]
    push_cast
    ring
  have hlimit (n : Int) : (let Pwm := if n > 11999 then 11999 else n
      if Pwm < -11999 then -11999 else Pwm) = limit 11999 n := by
    simp only [limit]
    split_ifs <;> omega
  simp only [Incremental_PI, hsum, trunc_intCast]
  exact congrArg (fun out => (out, IncrementalPI.mk u.error out u.error)) (hlimit _)

theorem IncrementalPI.after_bounds (c : IncrementalPI) (error : Int) :
    -11999 ≤ (c.after error).Pwm ∧ (c.after error).Pwm ≤ 11999 := by
  simp only [after, limit]
  split <;> split <;> omega

def last_error (us : List WheelInput) : Int := (us.getLast?.map WheelInput.error).getD 0

def sum_errors (us : List WheelInput) : Int := (us.map WheelInput.error).sum

/-- The positional law. -/
def PI_law (K : Type) [Field K] (us : List WheelInput) : K :=
  Velocity_KP * (last_error us : K) + Velocity_KI * (sum_errors us : K)

/-- A controller that started at zero obeys the positional law. -/
def IncrementalPI.Obeys (K : Type) [Field K] (us : List WheelInput) (c : IncrementalPI) : Prop :=
  (c.Pwm : K) = PI_law K us ∧ c.Last_bias = last_error us

theorem IncrementalPI.obeys_zero : IncrementalPI.Obeys K [] {} := by
  refine ⟨?_, rfl⟩
  rw [PI_law, last_error, sum_errors]
  simp

theorem IncrementalPI.Obeys.after {c : IncrementalPI} (h : c.Obeys K us) {u : WheelInput}
    (hu : |PI_law K (us ++ [u])| ≤ 11999) : (c.after u.error).Obeys K (us ++ [u]) := by
  obtain ⟨hPwm, hlast⟩ := h
  have hlast' : last_error (us ++ [u]) = u.error := by
    rw [last_error, List.getLast?_concat]
    rfl
  have hsum : sum_errors (us ++ [u]) = sum_errors us + u.error := by
    rw [sum_errors, List.map_append, List.sum_append, List.map_singleton, List.sum_singleton]
    rfl
  have hraw : ((c.raw u.error : Int) : K) = PI_law K (us ++ [u]) := by
    rw [PI_law, hlast', hsum, raw, hlast]
    push_cast
    rw [hPwm, PI_law, Velocity_KP, Velocity_KI]
    ring
  have hlimit : limit 11999 (c.raw u.error) = c.raw u.error := by
    rw [← hraw, ← Int.cast_abs] at hu
    have hle : |c.raw u.error| ≤ 11999 := by exact_mod_cast hu
    rw [abs_le] at hle
    rw [limit]
    split <;> split <;> omega
  refine ⟨?_, hlast'.symm⟩
  change ((limit 11999 (c.raw u.error) : Int) : K) = _
  rw [hlimit, hraw]

theorem run_Incremental_PI_A_obeys (s : Car K) {us : List WheelInput}
    (h : ∀ n, |PI_law K (us.take n)| ≤ 11999) :
    ((run (fun s u => (Incremental_PI_A u.Encoder u.Target s).2)
      { s with Incremental := { s.Incremental with A := {} } } us).Incremental.A).Obeys K us := by
  induction us using List.reverseRecOn with
  | nil => exact IncrementalPI.obeys_zero
  | append_singleton us u ih =>
    have hus (n : Nat) : |PI_law K (us.take n)| ≤ 11999 := by
      rcases le_or_gt n us.length with hn | hn
      · have htake := h n
        rw [List.take_append_of_le_length hn] at htake
        exact htake
      · have htake := h us.length
        rw [List.take_left] at htake
        rw [List.take_of_length_le hn.le]
        exact htake
    have hu := h (us ++ [u]).length
    rw [List.take_length] at hu
    have hafter := (ih hus).after hu
    rw [run_snoc]
    change (Incremental_PI K _ u.Encoder u.Target).2.Obeys K _
    rw [Incremental_PI_eq]
    exact hafter

/-- From zero, and as long as nothing is limited, the incremental controller computes the positional
law that it documents, and its output is always within the limits. -/
theorem Incremental_PI_A_positional (s : Car K) :
    (∀ (us : List WheelInput) (u : WheelInput),
      (∀ n, |PI_law K ((us ++ [u]).take n)| ≤ 11999) →
        ∃ r, (outputs (fun u => Incremental_PI_A u.Encoder u.Target)
          { s with Incremental := { s.Incremental with A := {} } } (us ++ [u])).getLast? = some r ∧
            (r : K) = PI_law K (us ++ [u])) ∧
      ∀ us : List WheelInput, ∀ r ∈ outputs (fun u => Incremental_PI_A u.Encoder u.Target) s us,
        -11999 ≤ r ∧ r ≤ 11999 := by
  constructor
  · intro us u h
    have hPwm := (run_Incremental_PI_A_obeys s h).1
    rw [run_snoc] at hPwm
    change (((Incremental_PI K _ u.Encoder u.Target).2.Pwm : Int) : K) = _ at hPwm
    rw [Incremental_PI_eq] at hPwm
    rw [outputs_append]
    refine ⟨_, List.getLast?_concat, ?_⟩
    change (((Incremental_PI K _ u.Encoder u.Target).1 : Int) : K) = _
    rw [Incremental_PI_eq]
    exact hPwm
  · intro us
    have hbounds (s : Car K) (u : WheelInput) :
        -11999 ≤ (Incremental_PI_A u.Encoder u.Target s).1 ∧
          (Incremental_PI_A u.Encoder u.Target s).1 ≤ 11999 := by
      change -11999 ≤ (Incremental_PI K _ u.Encoder u.Target).1 ∧ (Incremental_PI K _ _ _).1 ≤ _
      rw [Incremental_PI_eq]
      exact IncrementalPI.after_bounds _ _
    exact forall_outputs (C := fun _ _ => True) (I := fun _ => True)
      (fun s u _ _ => ⟨hbounds s u, trivial⟩) trivial (stepsMeet_of_forall (fun _ _ _ => trivial) s)

end

theorem three_inputs_positional :
    ∃ r, (outputs (fun u : WheelInput => Incremental_PI_A u.Encoder u.Target) (Car.initial : Car ℚ)
      [⟨10, 0⟩, ⟨4, 7⟩, ⟨7, 0⟩]).getLast? = some r ∧
        (r : ℚ) = PI_law ℚ [⟨10, 0⟩, ⟨4, 7⟩, ⟨7, 0⟩] := by
  apply (Incremental_PI_A_positional (Car.initial : Car ℚ)).1 [⟨10, 0⟩, ⟨4, 7⟩] ⟨7, 0⟩
  intro n
  match n with
  | 0 | 1 | 2 => decide +kernel
  | n + 3 =>
    rw [List.take_of_length_le (by simp)]
    decide +kernel

section
variable {K : Type} [Field K] [LinearOrder K] [IsStrictOrderedRing K] [FloorRing K]

/-! ### The position controllers -/

theorem flag_raise (clear : Bool) {s : Car K} (h : s.flag_clear_i = 0) :
    (raise clear s).flag_clear_i = if clear then 1 else 0 := by
  cases clear with
  | false => exact h
  | true => rfl

theorem Position_PID_tick_eq (u : WheelInput × Bool) {s : Car K} (h : s.flag_clear_i = 0) :
    let r (c : PositionPID K) (flag : Int) := Position_PID c flag u.1.Encoder u.1.Target
    let a := r s.PositionPID.A (if u.2 then 1 else 0)
    let b := r s.PositionPID.B 0
    let c := r s.PositionPID.C 0
    let d := r s.PositionPID.D 0
    Position_PID_tick u s =
      (⟨a.1, b.1, c.1, d.1⟩,
        { s with PositionPID := ⟨a.2.1, b.2.1, c.2.1, d.2.1⟩, flag_clear_i := 0 }) := by
  obtain ⟨u, clear⟩ := u
  rw [← flag_raise clear h]
  cases clear <;> rfl

theorem Position_PID_of_clear {c : PositionPID K} {flag : Int}
    (h : flag ≠ 0 → c.Integral_bias = 0) (Encoder Target : Int) :
    Position_PID c flag Encoder Target = Position_PID c 0 Encoder Target := by
  have hI : (if flag ≠ 0 then 0 else c.Integral_bias) = c.Integral_bias := by
    split
    · rename_i hflag
      exact (h hflag).symm
    · rfl
  simp only [Position_PID, hI, ne_eq, not_true_eq_false, if_false]

/-- The four controllers have the same memory, and the flag is not raised. -/
def SameMemory (s : Car K) : Prop := s.PositionPID.Alike ∧ s.flag_clear_i = 0

/-- If the flag is raised, there is nothing to clear. -/
def NothingToClear (s : Car K) (u : WheelInput × Bool) : Prop :=
  u.2 = true → s.PositionPID.A.Integral_bias = 0

theorem Position_PID_tick_alike {s : Car K} (h : SameMemory s) (hu : NothingToClear s u) :
    (Position_PID_tick u s).1.Alike ∧ SameMemory (Position_PID_tick u s).2 := by
  obtain ⟨⟨hB, hC, hD⟩, hflag⟩ := h
  have hclear : (if u.2 then (1 : Int) else 0) ≠ 0 → s.PositionPID.A.Integral_bias = 0 := by
    cases hu₂ : u.2 with
    | false => exact fun h => absurd rfl h
    | true => exact fun _ => hu hu₂
  rw [Position_PID_tick_eq u hflag, ← hB, ← hC, ← hD]
  dsimp only
  rw [Position_PID_of_clear hclear]
  exact ⟨⟨rfl, rfl, rfl⟩, ⟨rfl, rfl, rfl⟩, rfl⟩

theorem sameMemory_initial : SameMemory (Car.initial : Car K) := ⟨⟨rfl, rfl, rfl⟩, rfl⟩

/-! ### Whole numbers -/

/-- What the limiter makes of the sum of the errors. -/
def integral_limit (sum : Int) : Int :=
  let sum := if sum > 100000 then 10000 else sum
  if sum < -100000 then -10000 else sum

theorem integral_limit_cast (sum : Int) :
    (let sum : K := if (sum : K) > 100000 then 10000 else sum
      if sum < -100000 then -10000 else sum) = (integral_limit sum : K) := by
  have hhigh : (sum : K) > 100000 ↔ sum > 100000 := by exact_mod_cast Iff.rfl
  have hlow : (sum : K) < -100000 ↔ sum < -100000 := by exact_mod_cast Iff.rfl
  have hten : ¬(10000 : K) < -100000 := by norm_num
  dsimp only
  rw [integral_limit]
  by_cases h : sum > 100000
  · rw [if_pos (hhigh.2 h), if_pos h, if_neg hten]
    norm_num
  · rw [if_neg (mt hhigh.1 h), if_neg h]
    by_cases h' : sum < -100000
    · rw [if_pos (hlow.2 h'), if_pos h']
      norm_num
    · rw [if_neg (mt hlow.1 h'), if_neg h']

/-- The memory of a position controller consists of whole numbers. -/
def PositionPID.Whole (i l : Int) (c : PositionPID K) : Prop :=
  c.Integral_bias = i ∧ c.Last_Bias = l

/-- The result in 25ths: `Position_KI / 100` is one. -/
def PID_result (sum l error : Int) : Int :=
  (1000 * error - 375 * l + integral_limit sum).tdiv 25

theorem Position_PID_whole {c : PositionPID K} (h : c.Whole i l) (flag : Int) (u : WheelInput) :
    let sum := (if flag ≠ 0 then 0 else i) + u.error
    (Position_PID c flag u.Encoder u.Target).1 = PID_result sum l u.error ∧
      (Position_PID c flag u.Encoder u.Target).2.1.Whole (integral_limit sum) u.error := by
  intro sum
  obtain ⟨hi, hl⟩ := h
  have hsum : (if flag ≠ 0 then 0 else c.Integral_bias) + ((u.Encoder - u.Target : Int) : K) =
      (sum : K) := by
    rw [hi, Int.cast_add]
    split <;> simp [WheelInput.error]
  have hlimit := integral_limit_cast (K := K) sum
  dsimp only at hlimit
  have hresult : Position_KP * ((u.Encoder - u.Target : Int) : K) +
      Position_KI / 100 * (integral_limit sum : K) +
        Position_KD * (((u.Encoder - u.Target : Int) : K) - c.Last_Bias) =
      ((1000 * u.error - 375 * l + integral_limit sum : Int) : K) / (25 : Nat) := by
    rw [hl, Position_KP, Position_KI, Position_KD, WheelInput.error]
    push_cast
    ring
  simp only [Position_PID, hsum, hlimit, hresult, trunc_intCast_div]
  exact ⟨rfl, rfl, rfl⟩

/-! ### The wheels together -/

theorem Incremental_PI_tick_eq (u : WheelInput) (s : Car K) :
    let r (c : IncrementalPI) := Incremental_PI K c u.Encoder u.Target
    let a := r s.Incremental.A
    let b := r s.Incremental.B
    let c := r s.Incremental.C
    let d := r s.Incremental.D
    Incremental_PI_tick u s =
      (⟨a.1, b.1, c.1, d.1⟩, { s with Incremental := ⟨a.2, b.2, c.2, d.2⟩ }) := rfl

structure Remembers (i l : Int) (s : Car K) : Prop where
  A : s.PositionPID.A.Whole i l
  B : s.PositionPID.B.Whole i l
  flag_clear_i : s.flag_clear_i = 0

theorem Remembers.tick {s : Car K} (h : Remembers i l s) (u : WheelInput × Bool) :
    (Position_PID_tick u s).1.A = PID_result ((if u.2 then 0 else i) + u.1.error) l u.1.error ∧
      (Position_PID_tick u s).1.B = PID_result (i + u.1.error) l u.1.error ∧
      ((u.2 = true → i = 0) →
        Remembers (integral_limit (i + u.1.error)) u.1.error (Position_PID_tick u s).2) := by
  obtain ⟨hA, hB, hflag⟩ := h
  obtain ⟨⟨E, T⟩, clear⟩ := u
  rw [Position_PID_tick_eq _ hflag]
  have ha := Position_PID_whole hA (if clear then 1 else 0) ⟨E, T⟩
  have hb := Position_PID_whole hB 0 ⟨E, T⟩
  dsimp only at ha hb ⊢
  cases clear with
  | false => exact ⟨ha.1, hb.1, fun _ => ⟨ha.2, hb.2, rfl⟩⟩
  | true =>
    refine ⟨ha.1, hb.1, fun hi => ?_⟩
    obtain rfl : i = 0 := hi rfl
    exact ⟨ha.2, hb.2, rfl⟩

theorem remembers_zero (clear : List Bool) :
    Remembers 0 0 (run (fun s u => (Position_PID_tick u s).2) (Car.initial : Car K)
      (clear.map fun c => (⟨0, 0⟩, c))) := by
  have hzero : (0 : K) = ((0 : Int) : K) := Int.cast_zero.symm
  apply run_invariant_of_meet (C := fun _ u => u.1.error = 0) (I := Remembers 0 0)
  · intro s u h hu
    have hnext := (h.tick u).2.2 fun _ => rfl
    rw [hu] at hnext
    exact hnext
  · exact ⟨⟨hzero, hzero⟩, ⟨hzero, hzero⟩, rfl⟩
  · apply stepsMeet_of_forall
    intro u hu s
    obtain ⟨c, -, rfl⟩ := List.mem_map.1 hu
    rfl

/-- An error of 100 that the flag clears for wheel A alone. -/
theorem cleared_unlike (before after : List Bool) (c : Bool) :
    ∃ us : List (WheelInput × Bool), us.map Prod.snd = before ++ c :: true :: after ∧
      ∃ m ∈ outputs Position_PID_tick (Car.initial : Car K) us, ¬m.Alike := by
  let quiet (c : Bool) : WheelInput × Bool := (⟨0, 0⟩, c)
  let s : Car K := run (fun s u => (Position_PID_tick u s).2) Car.initial (before.map quiet)
  let s₁ := (Position_PID_tick (⟨100, 0⟩, c) s).2
  have h : Remembers 0 0 s := remembers_zero before
  have h₁ : Remembers 100 100 s₁ := (h.tick (⟨100, 0⟩, c)).2.2 fun _ => rfl
  obtain ⟨hA, hB, -⟩ := h₁.tick (⟨0, 0⟩, true)
  refine ⟨before.map quiet ++ (⟨100, 0⟩, c) :: (⟨0, 0⟩, true) :: after.map quiet, ?_,
    (Position_PID_tick (⟨0, 0⟩, true) s₁).1, ?_, ?_⟩
  · simp [quiet, Function.comp_def]
  · rw [outputs_append]
    apply List.mem_append_right
    exact List.mem_cons_of_mem _ List.mem_cons_self
  · rintro ⟨hAB, -⟩
    rw [hA, hB] at hAB
    exact absurd hAB (by decide)

theorem alike_of_nothing_to_clear {us : List (WheelInput × Bool)}
    (h : StepsMeet (fun s u => (Position_PID_tick u s).2) NothingToClear (Car.initial : Car K) us) :
    ∀ m ∈ outputs Position_PID_tick (Car.initial : Car K) us, m.Alike :=
  forall_outputs (fun _ _ hs hu => Position_PID_tick_alike hs hu) sameMemory_initial h

/-- Whatever the inputs, the position controllers return the same exactly when the flag is not
raised after the first tick. -/
theorem position_controllers_alike_iff (clear : List Bool) :
    (∀ us : List (WheelInput × Bool), us.map Prod.snd = clear →
      ∀ m ∈ outputs Position_PID_tick (Car.initial : Car K) us, m.Alike) ↔ true ∉ clear.tail := by
  constructor
  · intro h hmem
    cases clear with
    | nil => exact absurd hmem List.not_mem_nil
    | cons c clear =>
      obtain ⟨before, after, rfl⟩ := List.append_of_mem hmem
      rcases List.eq_nil_or_concat (c :: before) with hn | ⟨first, c', hc⟩
      · exact absurd hn (List.cons_ne_nil c before)
      rw [List.concat_eq_append] at hc
      obtain ⟨us, hus, m, hm, hunlike⟩ := cleared_unlike (K := K) first after c'
      refine hunlike (h us ?_ m hm)
      rw [hus]
      change _ = (c :: before) ++ true :: after
      rw [hc, List.append_assoc]
      rfl
  · rintro hclear us rfl
    apply alike_of_nothing_to_clear
    cases us with
    | nil => trivial
    | cons u us =>
      refine ⟨fun _ => rfl, stepsMeet_of_forall (fun u hu s hraised => ?_) _⟩
      exact absurd (hraised ▸ List.mem_map_of_mem hu) hclear

/-- The position controllers are alike in every history in which the flag is raised only when there
is nothing to clear, so in all histories if it is raised before the first tick at most. The speed
controllers are always alike. -/
theorem wheel_controllers_alike :
    (∀ us : List (WheelInput × Bool),
      StepsMeet (fun s u => (Position_PID_tick u s).2) NothingToClear (Car.initial : Car K) us →
        ∀ m ∈ outputs Position_PID_tick (Car.initial : Car K) us, m.Alike) ∧
      (∀ clear : List Bool,
        (∀ us : List (WheelInput × Bool), us.map Prod.snd = clear →
          ∀ m ∈ outputs Position_PID_tick (Car.initial : Car K) us, m.Alike) ↔
            true ∉ clear.tail) ∧
      ∀ us : List WheelInput,
        ∀ m ∈ outputs Incremental_PI_tick (Car.initial : Car K) us, m.Alike := by
  refine ⟨fun us => alike_of_nothing_to_clear, position_controllers_alike_iff, fun us => ?_⟩
  have htick (s : Car K) (u : WheelInput) (h : s.Incremental.Alike) :
      (Incremental_PI_tick u s).1.Alike ∧ (Incremental_PI_tick u s).2.Incremental.Alike := by
    obtain ⟨hB, hC, hD⟩ := h
    rw [Incremental_PI_tick_eq]
    dsimp only
    rw [← hB, ← hC, ← hD]
    exact ⟨⟨rfl, rfl, rfl⟩, rfl, rfl, rfl⟩
  exact forall_outputs (C := fun _ _ => True) (I := fun s => s.Incremental.Alike)
    (fun s u h _ => htick s u h) ⟨rfl, rfl, rfl⟩ (stepsMeet_of_forall (fun _ _ _ => trivial) _)

end

theorem raised_at_start_alike :
    let ms := outputs Position_PID_tick (Car.initial : Car ℚ) [(⟨100, 0⟩, true), (⟨-3, 4⟩, false)]
    ms.length = 2 ∧ ∀ m ∈ ms, m.Alike :=
  ⟨rfl, wheel_controllers_alike.1 _ ⟨fun _ => rfl, fun h => absurd h (by decide), trivial⟩⟩

/-- A flag that is raised after an error of 100 clears it for wheel A alone. -/
theorem wheel_controllers_unlike :
    ¬∀ us : List (WheelInput × Bool),
      ∀ m ∈ outputs Position_PID_tick (Car.initial : Car ℚ) us, m.Alike := by
  intro h
  have hm := h [(⟨100, 0⟩, false), (⟨0, 0⟩, true)] ⟨-1500, -1496, -1496, -1496⟩ (by decide +kernel)
  exact absurd hm (by decide)

section
variable {K : Type} [Field K] [LinearOrder K] [IsStrictOrderedRing K] [FloorRing K]

/-! ### Monotony -/

/-- The limiter replaces one of the sums and not the other. -/
def Straddles (sum sum' : K) : Prop :=
  sum ≤ 100000 ∧ 100000 < sum' ∨ sum < -100000 ∧ -100000 ≤ sum'

instance (sum sum' : K) : Decidable (Straddles sum sum') := inferInstanceAs (Decidable (_ ∨ _))

theorem straddles_cast (sum sum' : Int) :
    Straddles (sum : K) sum' ↔ sum ≤ 100000 ∧ 100000 < sum' ∨ sum < -100000 ∧ -100000 ≤ sum' := by
  rw [Straddles]
  exact_mod_cast Iff.rfl

theorem PID_result_mono_iff {e e' : Int} (h : e ≤ e') (i l : Int) :
    PID_result (i + e) l e ≤ PID_result (i + e') l e' ↔
      (i + e ≤ 100000 ∧ 100000 < i + e' ∨ i + e < -100000 ∧ -100000 ≤ i + e' → 90 ≤ e' - e) := by
  have hsign : Int.sign 25 = 1 := rfl
  rw [PID_result, PID_result, integral_limit, integral_limit, Int.tdiv_eq_ediv, Int.tdiv_eq_ediv,
    hsign]
  split_ifs <;> omega

/-- After any ticks, the memory of wheel A consists of whole numbers. -/
theorem run_whole (us : List (WheelInput × Bool)) :
    let s := run (fun s u => (Position_PID_tick u s).2) (Car.initial : Car K) us
    s.flag_clear_i = 0 ∧ ∃ i l, s.PositionPID.A.Whole i l := by
  have hzero : (0 : K) = ((0 : Int) : K) := Int.cast_zero.symm
  apply run_invariant (I := fun s : Car K => s.flag_clear_i = 0 ∧ ∃ i l, s.PositionPID.A.Whole i l)
  · rintro s u ⟨hflag, i, l, h⟩
    rw [Position_PID_tick_eq u hflag]
    exact ⟨rfl, _, _, (Position_PID_whole h (if u.2 then 1 else 0) u.1).2⟩
  · exact ⟨rfl, 0, 0, hzero, hzero⟩

/-- In every state that is reached, a larger error gets a result that is not smaller, unless the
limiter cuts the integral of one of two errors that are less than 90 apart. -/
theorem Position_PID_A_mono_iff (us : List (WheelInput × Bool)) (clear : Bool) (u v : WheelInput)
    (h : u.error ≤ v.error) :
    let s := run (fun s u => (Position_PID_tick u s).2) (Car.initial : Car K) us
    let i := if clear then 0 else s.PositionPID.A.Integral_bias
    (Position_PID_A u.Encoder u.Target (raise clear s)).1 ≤
        (Position_PID_A v.Encoder v.Target (raise clear s)).1 ↔
      (Straddles (i + u.error) (i + v.error) → 90 ≤ v.error - u.error) := by
  intro s i
  obtain ⟨hflag, n, l, hA⟩ := run_whole (K := K) us
  have hresult (u : WheelInput) : (Position_PID_A u.Encoder u.Target (raise clear s)).1 =
      PID_result ((if clear then 0 else n) + u.error) l u.error := by
    have hr := (Position_PID_whole hA (if clear then 1 else 0) u).1
    change (Position_PID (raise clear s).PositionPID.A _ _ _).1 = _
    rw [flag_raise clear hflag]
    cases clear <;> exact hr
  have hi : i = ((if clear then 0 else n : Int) : K) := by
    cases clear with
    | false => exact hA.1
    | true => exact Int.cast_zero.symm
  rw [hresult, hresult, hi, ← Int.cast_add, ← Int.cast_add, straddles_cast]
  exact PID_result_mono_iff h _ l

end

theorem small_errors_monotone :
    (Position_PID_A 40 0 (Car.initial : Car ℚ)).1 ≤ (Position_PID_A 50 0 (Car.initial : Car ℚ)).1 :=
  (Position_PID_A_mono_iff [] false ⟨40, 0⟩ ⟨50, 0⟩ (by decide)).2
    fun h => absurd h (by decide +kernel)

/-- After an error of 100000 an error of 1 gets a weaker correction than none. -/
theorem limited_integral_not_monotone :
    ¬∀ (us : List (WheelInput × Bool)) (u v : WheelInput), u.error ≤ v.error →
      let s := run (fun s u => (Position_PID_tick u s).2) (Car.initial : Car ℚ) us
      (Position_PID_A u.Encoder u.Target s).1 ≤ (Position_PID_A v.Encoder v.Target s).1 := by
  intro h
  have hle := h [(⟨100000, 0⟩, false)] ⟨0, 0⟩ ⟨1, 0⟩ (by decide)
  revert hle
  decide +kernel

end RobotCar

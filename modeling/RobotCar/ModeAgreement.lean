import RobotCar.Callbacks

namespace RobotCar
open Concurrent
set_option autoImplicit true
set_option linter.unusedSectionVars false

section
variable {K : Type} [Field K] [LinearOrder K] [FloorRing K] [Libm K]

/-- A position message handled in this state raises `pending_flag`. -/
def RaisesPending (s : Car K) : Prop :=
  ∀ msgin : Vec K, ((callback_pos msgin).exec { s with pending_flag := 0 }).pending_flag = 1

/-- The parts of the controller read `Move` in the same way. -/
def Agree (s : Car K) : Prop :=
  (Control_positioning s = .absolute ↔ Count_Velocity_positioning s = .absolute) ∧
    (Control_positioning s = .relative ↔
      Count_Velocity_positioning s = .relative ∧ RaisesPending s)

theorem raisesPending_iff (s : Car K) : RaisesPending s ↔ s.relative = 1 := by
  have he (msgin : Vec K) :
      ((callback_pos msgin).exec { s with pending_flag := 0 }).pending_flag = 1 ↔
        s.relative = 1 := by
    rw [exec_callback_pos]
    dsimp only
    split <;> split <;> simp_all
  constructor
  · intro h
    exact (he ⟨0, 0, 0⟩).1 (h _)
  · intro h msgin
    exact (he msgin).2 h

theorem agree_iff {s : Car K} (h : s.Run_Flag = 1) :
    Agree s ↔ s.relative = 0 ∨ s.relative = 1 := by
  unfold Agree
  rw [raisesPending_iff, Control_positioning, Count_Velocity_positioning]
  by_cases h₀ : s.relative = 0
  · simp [h, h₀]
  · by_cases h₁ : s.relative = 1
    · simp [h, h₁]
    · simp [h₀, h₁]

/-- The mode values that the topic documents. -/
def Documented : Message K → Prop
  | .mode data => data = 0 ∨ data = 1
  | _ => True

def TwoValued (s : Car K) : Prop := s.relative = 0 ∨ s.relative = 1

theorem publish_preserves {I : Car K → Prop} : (publish_car_status (K := K)).Preserves I :=
  Task.preserves_bind (Task.preserves_read _ _) fun _ =>
    Task.preserves_update _ fun _ h => h

theorem callback_preserves (m : Message K) (hm : Documented m) :
    (callback m).Preserves TwoValued := by
  have hmove (V : Vec K) : (Set_Move V).Preserves TwoValued :=
    Task.preserves_update _ fun _ h => h
  have hflag (flag : UInt8) : (Set_Run_Flag (K := K) flag).Preserves TwoValued :=
    Task.preserves_update _ fun _ h => h
  have hlast (V : Vec K) : (Set_Last_Target V).Preserves TwoValued :=
    Task.preserves_update _ fun _ h => h
  have hread {α : Type} (l : ControlCall K) (g : Car K → α) :
      (Task.read l g).Preserves TwoValued := Task.preserves_read _ _
  have hpure : (pure () : Task (ControlCall K) (Car K) Unit).Preserves TwoValued := trivial
  cases m with
  | speed point => exact Task.preserves_bind (hflag 0) fun _ => hmove _
  | pos point =>
    refine Task.preserves_bind ?_ fun _ => Task.preserves_bind (hflag 1) fun _ =>
      Task.preserves_bind (hmove _) fun _ => Task.preserves_bind ?_ fun _ => publish_preserves
    · refine Task.preserves_bind (hread _ _) fun _ => Task.preserves_ite ?_ hpure
      refine Task.preserves_bind (hread _ _) fun _ => Task.preserves_ite ?_ hpure
      exact Task.preserves_bind (hread _ _) fun _ => hlast _
    · refine Task.preserves_bind (hread _ _) fun _ => Task.preserves_ite ?_ hpure
      exact Task.preserves_update _ fun _ h => h
  | speedlimit data => exact Task.preserves_update _ fun _ h => h
  | mode data =>
    refine Task.preserves_bind ?_ fun _ => publish_preserves
    refine Task.preserves_bind (hread _ _) fun _ => Task.preserves_ite ?_ hpure
    refine Task.preserves_bind ?_ fun _ => Task.preserves_update _ fun _ _ => hm
    refine Task.preserves_bind (hread _ _) fun _ => Task.preserves_ite ?_ hpure
    refine Task.preserves_bind (hread _ _) fun _ => Task.preserves_ite ?_ hpure
    exact Task.preserves_bind (hread _ _) fun _ =>
      Task.preserves_bind (hlast _) fun _ => hmove _
  | stop data =>
    cases data with
    | false => trivial
    | true => exact Task.preserves_bind (hflag 0) fun _ => hmove _

theorem run_twoValued {es : List (Client.Event (Message K) CarEvent)}
    (h : ∀ data, .recv (.mode data) ∈ es → data = 0 ∨ data = 1) :
    TwoValued ((carClient K).run Car.initial es).shared := by
  have henv (s : Car K) (e : CarEvent) (hs : TwoValued s) :
      TwoValued ((carClient K).env e s) := by
    unfold TwoValued
    rw [(carClient_env e s).2.2]
    exact hs
  have hD : ∀ m, .recv m ∈ es → Documented m := by
    intro m hm
    cases m with
    | mode data => exact h data hm
    | _ => trivial
  refine ((carClient K).safe_of_meet (fun s e hs _ => henv s e hs) (fun s hs => hs) ?_ (.inr rfl)
    ((carClient K).meets_of_messages _ hD)).holds
  intro m s hm hs
  refine Safe.of_preserves ?_ (callback_preserves m hm) hs
  rintro s s' hs ⟨e, -, rfl⟩
  exact henv s e hs

/-- In position mode the parts of the controller agree exactly when the mode value is one of the
two that the topic documents, as it is after documented messages only. -/
theorem mode_agreement (es : List (Client.Event (Message K) CarEvent)) :
    let s := ((carClient K).run Car.initial es).shared
    s.Run_Flag = 1 →
      (Agree s ↔ s.relative = 0 ∨ s.relative = 1) ∧
        ((∀ data, .recv (.mode data) ∈ es → data = 0 ∨ data = 1) → Agree s) := by
  intro s hs
  exact ⟨agree_iff hs, fun h => (agree_iff hs).2 (run_twoValued h)⟩

end

def modeThenPos (data : UInt8) : List (Client.Event (Message ℚ) CarEvent) :=
  .recv (.mode data) :: List.replicate 5 .step ++
    .recv (.pos ⟨10, 0, 0⟩) :: List.replicate 8 .step

theorem mode_agreement_absolute :
    Agree ((carClient ℚ).run Car.initial (modeThenPos 0)).shared := by
  refine (mode_agreement (modeThenPos 0) rfl).2 fun data h => ?_
  simp only [modeThenPos, List.cons_append, List.mem_cons, List.mem_append, List.mem_replicate,
    Client.Event.recv.injEq, Message.mode.injEq, reduceCtorEq, and_false, or_false] at h
  exact .inl h

/-- After the mode value 2 the parts of the controller disagree about a position. -/
theorem mode_disagreement :
    ¬∀ es : List (Client.Event (Message ℚ) CarEvent),
      let s := ((carClient ℚ).run Car.initial es).shared
      s.Run_Flag = 1 → Agree s := by
  intro h
  have hr : ((carClient ℚ).run Car.initial (modeThenPos 2)).shared.relative = 2 := rfl
  have hs := (agree_iff rfl).1 (h (modeThenPos 2) rfl)
  rw [hr] at hs
  revert hs
  decide

end RobotCar

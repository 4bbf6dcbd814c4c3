import Mathlib.Data.List.Induction
import RobotCar.Callbacks

namespace RobotCar
open Concurrent
set_option autoImplicit true
set_option linter.unusedSectionVars false

/-- The messages that replace the command of the control loop. -/
inductive Command (K : Type) where
  | speed (point : Vec K)
  | pos (point : Vec K)
  | stop (data : Bool)

/-- What the callbacks have done to the pair `(Run_Flag, Move)`. -/
structure CommandHistory (K : Type) where
  started : List (Command K) := []
  /-- `Run_Flag` is stored and the `Move` that goes with it is not -/
  torn : Bool := false

section
variable {K : Type}

def Command.message : Command K → Message K
  | .speed point => .speed point
  | .pos point => .pos point
  | .stop data => .stop data

def Car.pair (s : Car K) : UInt8 × Vec K := (s.Run_Flag, s.Move)

def CommandHistory.watch (l : ControlCall K) (_ : Car K) (h : CommandHistory K) :
    CommandHistory K :=
  match l with
  | .Set_Run_Flag => { h with torn := true }
  | .Set_Move => { h with torn := false }
  | _ => h

def CommandHistory.watchMessage (m : Command K) (_ : Car K) (h : CommandHistory K) :
    CommandHistory K :=
  { h with started := h.started ++ [m] }

end

section
variable {K : Type} [Field K] [LinearOrder K] [FloorRing K] [Libm K]

def commandClient : Client (ControlCall K) (Car K) (Command K) CarEvent where
  handler m := callback m.message
  env := (carClient K).env

def recordedCommands : Client (ControlCall K) (Car K × CommandHistory K) (Command K) CarEvent :=
  commandClient.history CommandHistory.watch (fun _ _ h => h) CommandHistory.watchMessage

/-- The pair that the callbacks of these messages leave when each is handled to its end. -/
def pairAfter (ms : List (Command K)) : UInt8 × Vec K :=
  (ms.foldl (fun s m => (callback m.message).exec s) Car.initial).pair

/-- The pair is the one before the first message or the one that whole callbacks leave. -/
def WholePair (r : Car K × CommandHistory K) : Prop :=
  ∃ k ≤ r.2.started.length, r.1.pair = pairAfter (r.2.started.take k)

/-- The mode that the last message asks for, with the `Move` of the messages before it. -/
def mixedPair (ms : List (Command K)) : UInt8 × Vec K :=
  ((pairAfter ms).1, (pairAfter ms.dropLast).2)

/-- A velocity is used in speed mode, and a displacement in position mode. -/
def UsedAsMeant (r : Car K × CommandHistory K) : Prop :=
  (r.1.Run_Flag = 0 ∧
      (r.1.Move = ⟨0, 0, 0⟩ ∨ ∃ point, .speed point ∈ r.2.started ∧ r.1.Move = speed_Move point)) ∨
    (r.1.Run_Flag = 1 ∧ ∃ point, .pos point ∈ r.2.started ∧ r.1.Move = pos_Move point)

/-! ### Whole callbacks -/

def Command.pair (p : UInt8 × Vec K) : Command K → UInt8 × Vec K
  | .speed point => (0, speed_Move point)
  | .pos point => (1, pos_Move point)
  | .stop true => (0, ⟨0, 0, 0⟩)
  | .stop false => p

theorem exec_callback_pair (m : Command K) (s : Car K) :
    ((callback m.message).exec s).pair = m.pair s.pair := by
  cases m with
  | speed point =>
    change ((callback_speed point).exec s).pair = _
    rw [exec_callback_speed]
    rfl
  | pos point =>
    change ((callback_pos point).exec s).pair = _
    rw [exec_callback_pos]
    dsimp only
    split <;> split <;> rfl
  | stop data =>
    change ((callback_stop data).exec s).pair = _
    rw [exec_callback_stop]
    cases data <;> rfl

theorem pairAfter_snoc (ms : List (Command K)) (m : Command K) :
    pairAfter (ms ++ [m]) = m.pair (pairAfter ms) := by
  rw [pairAfter, List.foldl_append]
  exact exec_callback_pair m _

theorem mixedPair_snoc (ms : List (Command K)) (m : Command K) :
    mixedPair (ms ++ [m]) = ((m.pair (pairAfter ms)).1, (pairAfter ms).2) := by
  rw [mixedPair, pairAfter_snoc, List.dropLast_concat]

theorem pairAfter_meant (torn : Bool) (ms : List (Command K)) (s : Car K)
    (h : s.pair = pairAfter ms) : UsedAsMeant (s, ⟨ms, torn⟩) := by
  induction ms using List.reverseRecOn generalizing s with
  | nil =>
    obtain ⟨hf, hm⟩ := Prod.mk.inj h
    exact .inl ⟨hf, .inl hm⟩
  | append_singleton ms m ih =>
    rw [pairAfter_snoc] at h
    have hmem : m ∈ ms ++ [m] := List.mem_concat_self
    cases m with
    | speed point =>
      obtain ⟨hf, hm⟩ := Prod.mk.inj h
      exact .inl ⟨hf, .inr ⟨point, hmem, hm⟩⟩
    | pos point =>
      obtain ⟨hf, hm⟩ := Prod.mk.inj h
      exact .inr ⟨hf, point, hmem, hm⟩
    | stop data =>
      cases data with
      | true =>
        obtain ⟨hf, hm⟩ := Prod.mk.inj h
        exact .inl ⟨hf, .inl hm⟩
      | false =>
        rcases ih s h with ⟨hf, hm⟩ | ⟨hf, point, hp, hm⟩
        · rcases hm with hm | ⟨point, hp, hm⟩
          · exact .inl ⟨hf, .inl hm⟩
          · exact .inl ⟨hf, .inr ⟨point, List.mem_append_left _ hp, hm⟩⟩
        · exact .inr ⟨hf, point, List.mem_append_left _ hp, hm⟩

theorem WholePair.meant {r : Car K × CommandHistory K} (h : WholePair r) : UsedAsMeant r := by
  obtain ⟨k, -, hp⟩ := h
  have hsub {m : Command K} (hm : m ∈ r.2.started.take k) : m ∈ r.2.started :=
    List.mem_of_mem_take hm
  rcases pairAfter_meant r.2.torn _ _ hp with ⟨hf, hm⟩ | ⟨hf, point, hpos, hm⟩
  · rcases hm with hm | ⟨point, hspeed, hm⟩
    · exact .inl ⟨hf, .inl hm⟩
    · exact .inl ⟨hf, .inr ⟨point, hsub hspeed, hm⟩⟩
  · exact .inr ⟨hf, point, hsub hpos, hm⟩

/-! ### Runs -/

def At (h : CommandHistory K) (p : UInt8 × Vec K) (r : Car K × CommandHistory K) : Prop :=
  r.2 = h ∧ r.1.pair = p

theorem at_stable {h : CommandHistory K} (r r' : Car K × CommandHistory K) (ha : At h p r)
    (hr : recordedCommands.Interference (fun _ _ => True) r r') : At h p r' := by
  obtain ⟨e, -, rfl⟩ := hr
  obtain ⟨hf, hm, -⟩ := carClient_env e r.1
  have hp : ((carClient K).env e r.1).pair = r.1.pair := Prod.ext hf hm
  exact ⟨ha.1, hp.trans ha.2⟩

/-- At every moment the pair is whole, or mixed between the two stores of a callback. -/
def Explained (r : Car K × CommandHistory K) : Prop :=
  (r.2.torn = false → WholePair r) ∧ (r.2.torn = true → r.1.pair = mixedPair r.2.started)

theorem explained_whole {ms : List (Command K)} (hk : k ≤ ms.length)
    (h : At ⟨ms, false⟩ (pairAfter (ms.take k)) r) : Explained r := by
  obtain ⟨hh, hp⟩ := h
  unfold Explained WholePair
  rw [hh]
  exact ⟨fun _ => ⟨k, hk, hp⟩, fun ht => Bool.noConfusion ht⟩

theorem explained_done {ms : List (Command K)} (h : At ⟨ms, false⟩ (pairAfter ms) r) :
    Explained r := by
  apply explained_whole le_rfl
  rw [List.take_length]
  exact h

theorem explained_before {ms : List (Command K)} (h : At ⟨ms ++ [m], false⟩ (pairAfter ms) r) :
    Explained r := by
  have hk : ms.length ≤ (ms ++ [m]).length := by simp
  apply explained_whole hk
  rw [List.take_left]
  exact h

theorem explained_torn {ms : List (Command K)} (h : At ⟨ms, true⟩ (mixedPair ms) r) :
    Explained r := by
  obtain ⟨hh, hp⟩ := h
  unfold Explained
  rw [hh]
  exact ⟨fun ht => Bool.noConfusion ht, fun _ => hp⟩

def Between (r : Car K × CommandHistory K) : Prop := ∃ ms, At ⟨ms, false⟩ (pairAfter ms) r

theorem preserves_read_at {α : Type} {h : CommandHistory K} (l : ControlCall K) (g : Car K → α)
    (hl : ∀ s h, CommandHistory.watch l s h = h) :
    ((Task.read l g).history CommandHistory.watch).Preserves (At h p) := by
  apply Task.preserves_access
  intro r hr
  rw [At, hl]
  exact hr

theorem preserves_update_at {h : CommandHistory K} (l : ControlCall K) (f : Car K → Car K)
    (hl : ∀ s h, CommandHistory.watch l s h = h) (hf : ∀ s, (f s).pair = s.pair) :
    ((Task.update l f).history CommandHistory.watch).Preserves (At h p) := by
  apply Task.preserves_update
  intro r hr
  rw [At, hl, hf]
  exact hr

theorem publish_preserves_at {h : CommandHistory K} :
    (publish_car_status.history CommandHistory.watch).Preserves (At h p) := by
  rw [publish_car_status, Task.history_bind]
  apply Task.preserves_bind
  · exact preserves_read_at _ _ fun _ _ => rfl
  · intro error
    exact preserves_update_at _ _ (fun _ _ => rfl) fun _ => rfl

theorem entry_preserves_at {h : CommandHistory K} :
    (callback_pos_entry.history CommandHistory.watch).Preserves (At h p) := by
  rw [callback_pos_entry, Task.history_bind]
  apply Task.preserves_bind (preserves_read_at _ _ fun _ _ => rfl)
  intro flag
  by_cases hf : flag = 0
  · rw [if_pos hf, Task.history_bind]
    apply Task.preserves_bind (preserves_read_at _ _ fun _ _ => rfl)
    intro rel
    by_cases hr : rel = 0
    · rw [if_pos hr, Task.history_bind]
      apply Task.preserves_bind (preserves_read_at _ _ fun _ _ => rfl)
      intro NOW
      exact preserves_update_at _ _ (fun _ _ => rfl) fun _ => rfl
    · rw [if_neg hr]
      trivial
  · rw [if_neg hf]
    trivial

theorem pending_preserves_at {h : CommandHistory K} :
    (callback_pos_pending.history CommandHistory.watch).Preserves (At h p) := by
  rw [callback_pos_pending, Task.history_bind]
  apply Task.preserves_bind (preserves_read_at _ _ fun _ _ => rfl)
  intro rel
  by_cases hr : rel = 1
  · rw [if_pos hr]
    exact preserves_update_at _ _ (fun _ _ => rfl) fun _ => rfl
  · rw [if_neg hr]
    trivial

theorem store_pair_explained {ms : List (Command K)} {V : Vec K}
    {rest : Task (ControlCall K) (Car K) Unit} (hm : ∀ p, m.pair p = (flag, V))
    (hrest : ∀ h p, (rest.history CommandHistory.watch).Preserves (At h p))
    (h : At ⟨ms ++ [m], false⟩ (pairAfter ms) r) :
    Safe (recordedCommands.Interference fun _ _ => True) Explained (fun _ => Between)
      ((do Set_Run_Flag flag; Set_Move V; rest).history CommandHistory.watch) r := by
  rw [Task.history_bind]
  apply Safe.access at_stable h fun _ => explained_before
  intro r h
  have ht : At ⟨ms ++ [m], true⟩ (mixedPair (ms ++ [m]))
      ({ r.1 with Run_Flag := flag }, CommandHistory.watch .Set_Run_Flag r.1 r.2) := by
    rw [mixedPair_snoc, hm, ← h.2, h.1]
    exact ⟨rfl, rfl⟩
  rw [Task.history_bind]
  apply Safe.access at_stable ht fun _ => explained_torn
  intro r h
  have hd : At ⟨ms ++ [m], false⟩ (pairAfter (ms ++ [m]))
      ({ r.1 with Move := V }, CommandHistory.watch .Set_Move r.1 r.2) := by
    obtain ⟨hh, hp⟩ := h
    rw [mixedPair_snoc, hm] at hp
    rw [pairAfter_snoc, hm, hh]
    have hf : r.1.Run_Flag = flag := congrArg Prod.fst hp
    exact ⟨rfl, Prod.ext hf rfl⟩
  have hs := Safe.of_preserves at_stable (hrest _ _) hd
  exact hs.mono (fun _ => explained_done) fun _ _ h => ⟨_, h⟩

theorem callback_explained (m : Command K) (r : Car K × CommandHistory K) (h : Between r) :
    Safe (recordedCommands.Interference fun _ _ => True) Explained (fun _ => Between)
      (recordedCommands.handler m) (recordedCommands.arrive m r) := by
  obtain ⟨ms, hh, hp⟩ := h
  have ha : At ⟨ms ++ [m], false⟩ (pairAfter ms) (recordedCommands.arrive m r) := by
    refine ⟨?_, hp⟩
    change CommandHistory.watchMessage m r.1 r.2 = _
    rw [hh]
    rfl
  have hpure : ∀ h p, ((pure () : Task (ControlCall K) (Car K) Unit).history
      CommandHistory.watch).Preserves (At h p) := fun _ _ => trivial
  cases m with
  | speed point => exact store_pair_explained (fun _ => rfl) hpure ha
  | pos point =>
    have he := Safe.of_preserves at_stable (entry_preserves_at (K := K)) ha
    change Safe _ _ _ ((callback_pos point).history CommandHistory.watch) _
    rw [callback_pos, Task.history_bind]
    apply Safe.bind
    apply he.mono fun _ => explained_before
    intro _ r hr
    apply store_pair_explained (fun _ => rfl) _ hr
    intro h p
    rw [Task.history_bind]
    exact Task.preserves_bind pending_preserves_at fun _ => publish_preserves_at
  | stop data =>
    cases data with
    | true => exact store_pair_explained (fun _ => rfl) hpure ha
    | false =>
      have hd : At ⟨ms ++ [.stop false], false⟩ (pairAfter (ms ++ [.stop false]))
          (recordedCommands.arrive (.stop false) r) := by
        rw [pairAfter_snoc]
        exact ha
      exact Safe.ret at_stable hd fun _ h => ⟨explained_done h, _, h⟩

theorem run_explained (es : List (Client.Event (Command K) CarEvent)) :
    Explained (recordedCommands.run (Car.initial, {}) es).shared := by
  have henv (r : Car K × CommandHistory K) (e : CarEvent) (h : Between r) :
      Between (recordedCommands.env e r) := by
    obtain ⟨ms, h⟩ := h
    exact ⟨ms, at_stable r _ h ⟨e, trivial, rfl⟩⟩
  have hI (r : Car K × CommandHistory K) (h : Between r) : Explained r := by
    obtain ⟨ms, h⟩ := h
    exact explained_done h
  have h₀ : Between (K := K) (Car.initial, {}) := ⟨[], rfl, rfl⟩
  exact ((recordedCommands (K := K)).safe henv hI callback_explained h₀ es).holds

/-- Every tick works with a whole pair, except that one between the two stores of a callback
works with the mixed pair, and is right only if that pair has been in force as a whole. -/
theorem command_atomicity (es : List (Client.Event (Command K) CarEvent)) :
    let r := (recordedCommands.run (Car.initial, {}) es).shared
    (WholePair r ↔ (r.2.torn = true →
        ∃ k ≤ r.2.started.length, mixedPair r.2.started = pairAfter (r.2.started.take k))) ∧
      (WholePair r → UsedAsMeant r) := by
  intro r
  obtain ⟨hwhole, hmixed⟩ := run_explained (K := K) es
  refine ⟨⟨?_, ?_⟩, WholePair.meant⟩
  · intro ⟨k, hk, hp⟩ ht
    exact ⟨k, hk, (hmixed ht).symm.trans hp⟩
  · intro h
    cases ht : r.2.torn with
    | false => exact hwhole ht
    | true =>
      obtain ⟨k, hk, hp⟩ := h ht
      exact ⟨k, hk, (hmixed ht).trans hp⟩

end

/-- A tick after the first store of `callback_speed` takes the displacement of the message
before it as a velocity. -/
theorem displacement_used_as_velocity :
    ∃ es : List (Client.Event (Command ℚ) CarEvent),
      let r := (recordedCommands.run (Car.initial, {}) es).shared
      ¬WholePair r ∧ ¬UsedAsMeant r := by
  let es : List (Client.Event (Command ℚ) CarEvent) :=
    .recv (.pos ⟨10, 0, 0⟩) :: List.replicate 8 .step ++ [.recv (.speed ⟨5, 0, 0⟩), .step]
  have hu : ¬UsedAsMeant (recordedCommands.run (Car.initial, {}) es).shared := by
    intro hu
    rcases hu with ⟨-, hm⟩ | ⟨hf, -⟩
    · rcases hm with hm | ⟨point, hp, hm⟩
      · have hX : (10 * (17873100 / 10000) : ℚ) = 0 := congrArg Vec.X hm
        norm_num at hX
      · have hp' : Command.speed point ∈ [.pos ⟨10, 0, 0⟩, .speed (⟨5, 0, 0⟩ : Vec ℚ)] := hp
        simp only [List.mem_cons, reduceCtorEq, Command.speed.injEq, List.not_mem_nil, or_false,
          false_or] at hp'
        subst hp'
        have hX : (10 * (17873100 / 10000) : ℚ) = 5 * (178731 / 10000) := congrArg Vec.X hm
        norm_num at hX
    · exact absurd hf (by decide)
  exact ⟨es, fun hw => hu hw.meant, hu⟩

end RobotCar

import Mathlib.Data.List.Nodup
import RobotCar.Callbacks

namespace RobotCar
open Concurrent
set_option autoImplicit true
set_option linter.unusedSectionVars false

/-- The message that a callback handles: its number, and `relative` at its arrival. -/
structure MoveSource where
  message : Nat := 0
  isPos : Bool := false
  relative : UInt8 := 1
  deriving DecidableEq, Repr

/-- Where `Move` comes from and where relative moves have used it. -/
structure MoveHistory where
  current : MoveSource := {}
  source : MoveSource := {}
  /-- `pending_flag` was raised after the last store of `Move` -/
  fresh : Bool := false
  uses : List MoveSource := []
  deriving DecidableEq, Repr

namespace MoveHistory

def Relative (u : MoveSource) : Prop := u.isPos = true ∧ u.relative = 1

/-- Every use is the relative move of a message, and no message is used twice. -/
def UsedOnce (h : MoveHistory) : Prop := (∀ u ∈ h.uses, Relative u) ∧ h.uses.Nodup

section
variable {K : Type}

def watch (l : ControlCall K) (_ : Car K) (h : MoveHistory) : MoveHistory :=
  match l with
  | .Set_Move => { h with source := h.current, fresh := false }
  | .Set_pending_flag => { h with fresh := true }
  | _ => h

def watchMessage (m : Message K) (s : Car K) (h : MoveHistory) : MoveHistory :=
  let isPos := match m with
    | .pos _ => true
    | _ => false
  { h with current := ⟨h.current.message + 1, isPos, s.relative⟩ }

end

def watchEvent [Field K] [LinearOrder K] [FloorRing K] (e : CarEvent) (s : Car K)
    (h : MoveHistory) : MoveHistory :=
  match e with
  | .Control => if TakesRelative s then { h with uses := h.uses ++ [h.source] } else h
  | .encoders _ => h

end MoveHistory

open MoveHistory

section
variable {K : Type} [Field K] [LinearOrder K] [FloorRing K] [Libm K]

def recordedMoves : Client (ControlCall K) (Car K × MoveHistory) (Message K) CarEvent :=
  (carClient K).history MoveHistory.watch MoveHistory.watchEvent MoveHistory.watchMessage

/-- A tick takes a relative move only if the flag was raised for the present `Move`. -/
def FreshTick (r : Car K × MoveHistory) (e : CarEvent) : Prop :=
  match e with
  | .Control => TakesRelative r.1 → r.2.fresh = true
  | .encoders _ => True

instance (r : Car K × MoveHistory) (e : CarEvent) : Decidable (FreshTick r e) :=
  match e with
  | .Control => inferInstanceAs (Decidable (_ → _))
  | .encoders _ => instDecidableTrue

structure MovesOnce (r : Car K × MoveHistory) : Prop where
  once : UsedOnce r.2
  unused : r.1.pending_flag = 1 → r.2.fresh = true → Relative r.2.source ∧ r.2.source ∉ r.2.uses
  uses_message : ∀ u ∈ r.2.uses, u.message ≤ r.2.current.message
  source_message : r.2.source.message ≤ r.2.current.message

theorem env_history (r : Car K × MoveHistory) (e : CarEvent) (hC : FreshTick r e) :
    (((recordedMoves (K := K)).env e r).1.pending_flag = r.1.pending_flag ∧
        ((recordedMoves (K := K)).env e r).2 = r.2) ∨
      (((recordedMoves (K := K)).env e r).1.pending_flag = 0 ∧ r.1.pending_flag = 1 ∧
        r.2.fresh = true ∧
        ((recordedMoves (K := K)).env e r).2 = { r.2 with uses := r.2.uses ++ [r.2.source] }) := by
  cases e with
  | Control =>
    have hp := Control_pending_flag r.1
    by_cases ht : TakesRelative r.1
    · rw [if_pos ht] at hp
      exact .inr ⟨hp, ht.2.2, hC ht, if_pos ht⟩
    · rw [if_neg ht] at hp
      exact .inl ⟨hp, if_neg ht⟩
  | encoders counters => exact .inl ⟨rfl, rfl⟩

theorem forall_uses {h : MoveHistory} {P : MoveSource → Prop} (hu : ∀ u ∈ h.uses, P u)
    (hs : P h.source) : ∀ u ∈ h.uses ++ [h.source], P u := by
  intro u hm
  rcases List.mem_append.1 hm with hm | hm
  · exact hu u hm
  · rw [List.mem_singleton.1 hm]
    exact hs

theorem usedOnce_snoc {h : MoveHistory} (ho : UsedOnce h) (hr : Relative h.source)
    (hn : h.source ∉ h.uses) : UsedOnce { h with uses := h.uses ++ [h.source] } := by
  obtain ⟨hrel, hnodup⟩ := ho
  constructor
  · exact forall_uses hrel hr
  · apply List.nodup_append.2
    refine ⟨hnodup, List.nodup_singleton _, ?_⟩
    intro u hu v hv he
    rw [List.mem_singleton] at hv
    exact hn (hv ▸ he ▸ hu)

theorem MovesOnce.env {r : Car K × MoveHistory} (h : MovesOnce r) (e : CarEvent)
    (hC : FreshTick r e) : MovesOnce (recordedMoves.env e r) := by
  rcases env_history r e hC with ⟨hp, hh⟩ | ⟨hp, hp₁, hf, hh⟩
  · constructor
    · rw [hh]
      exact h.once
    · rw [hh, hp]
      exact h.unused
    · rw [hh]
      exact h.uses_message
    · rw [hh]
      exact h.source_message
  · obtain ⟨hrel, hn⟩ := h.unused hp₁ hf
    constructor
    · rw [hh]
      exact usedOnce_snoc h.once hrel hn
    · intro hp'
      rw [hp] at hp'
      exact absurd hp' (by decide)
    · rw [hh]
      exact forall_uses h.uses_message h.source_message
    · rw [hh]
      exact h.source_message

theorem movesOnce_stable (r r' : Car K × MoveHistory) (h : MovesOnce r)
    (hr : recordedMoves.Interference FreshTick r r') : MovesOnce r' := by
  obtain ⟨e, hC, rfl⟩ := hr
  exact h.env e hC

theorem preserves_update_moves (l : ControlCall K) (f : Car K → Car K)
    (hl : ∀ s h, watch l s h = h ∨ watch l s h = { h with source := h.current, fresh := false })
    (hf : ∀ s, (f s).pending_flag = s.pending_flag) :
    ((Task.update l f).history watch).Preserves MovesOnce := by
  apply Task.preserves_update
  intro r h
  rcases hl r.1 r.2 with hw | hw
  · rw [hw]
    refine ⟨h.once, ?_, h.uses_message, h.source_message⟩
    rw [hf]
    exact h.unused
  · rw [hw]
    refine ⟨h.once, ?_, h.uses_message, le_rfl⟩
    intro _ hfresh
    exact Bool.noConfusion hfresh

theorem preserves_read_moves {α : Type} (l : ControlCall K) (g : Car K → α)
    (hl : ∀ s h, watch l s h = h) : ((Task.read l g).history watch).Preserves MovesOnce := by
  apply Task.preserves_access
  intro r h
  rw [hl]
  exact h

theorem publish_preserves_moves :
    (publish_car_status.history watch).Preserves (MovesOnce (K := K)) := by
  rw [publish_car_status, Task.history_bind]
  apply Task.preserves_bind
  · exact preserves_read_moves _ _ fun _ _ => rfl
  · intro error
    exact preserves_update_moves _ _ (fun _ _ => .inl rfl) fun _ => rfl

theorem mode_change_preserves_moves (data : UInt8) :
    ((callback_mode_change data).history watch).Preserves (MovesOnce (K := K)) := by
  have hread {α : Type} (l : ControlCall K) (g : Car K → α) (hl : ∀ s h, watch l s h = h) :=
    preserves_read_moves l g hl
  rw [callback_mode_change, Task.history_bind]
  apply Task.preserves_bind (hread _ _ fun _ _ => rfl)
  intro rel
  by_cases hd : rel = data
  · rw [if_neg (not_not.2 hd)]
    trivial
  rw [if_pos hd, Task.history_bind]
  apply Task.preserves_bind
  · rw [callback_mode_entry, Task.history_bind]
    apply Task.preserves_bind (hread _ _ fun _ _ => rfl)
    intro flag
    by_cases hf : flag = 1
    · rw [if_pos hf, Task.history_bind]
      apply Task.preserves_bind (hread _ _ fun _ _ => rfl)
      intro rel
      by_cases hr : rel = 1
      · rw [if_pos hr, Task.history_bind]
        apply Task.preserves_bind (hread _ _ fun _ _ => rfl)
        intro NOW
        rw [Task.history_bind]
        apply Task.preserves_bind
        · exact preserves_update_moves _ _ (fun _ _ => .inl rfl) fun _ => rfl
        · intro _
          exact preserves_update_moves _ _ (fun _ _ => .inr rfl) fun _ => rfl
      · rw [if_neg hr]
        trivial
    · rw [if_neg hf]
      trivial
  · intro _
    exact preserves_update_moves _ _ (fun _ _ => .inl rfl) fun _ => rfl

theorem store_pair_preserves_moves (flag : UInt8) (V : Vec K) :
    ((do Set_Run_Flag flag; Set_Move V : Task (ControlCall K) (Car K) Unit).history
      watch).Preserves MovesOnce := by
  rw [Task.history_bind]
  apply Task.preserves_bind
  · exact preserves_update_moves _ _ (fun _ _ => .inl rfl) fun _ => rfl
  · intro _
    exact preserves_update_moves _ _ (fun _ _ => .inr rfl) fun _ => rfl

/-! ### A position message -/

/-- In `callback_pos`, before it stores `Move`. -/
structure BeforeMove (c : MoveSource) (r : Car K × MoveHistory) : Prop where
  moves : MovesOnce r
  current : r.2.current = c
  relative : r.1.relative = c.relative
  uses_message : ∀ u ∈ r.2.uses, u.message < c.message
  source_message : r.2.source.message < c.message

/-- In `callback_pos`, after it stored `Move`: no tick may use it before the flag is raised. -/
structure AfterMove (c : MoveSource) (r : Car K × MoveHistory) : Prop where
  moves : MovesOnce r
  source : r.2.source = c
  relative : r.1.relative = c.relative
  stale : r.2.fresh = false
  notMem : c ∉ r.2.uses

theorem beforeMove_stable (r r' : Car K × MoveHistory) (h : BeforeMove c r)
    (hr : recordedMoves.Interference FreshTick r r') : BeforeMove c r' := by
  have hm := movesOnce_stable r r' h.moves hr
  obtain ⟨e, hC, rfl⟩ := hr
  have hrel := (carClient_env e r.1).2.2.trans h.relative
  rcases env_history r e hC with ⟨-, hh⟩ | ⟨-, -, -, hh⟩
  · refine ⟨hm, ?_, hrel, ?_, ?_⟩
    · rw [hh]
      exact h.current
    · rw [hh]
      exact h.uses_message
    · rw [hh]
      exact h.source_message
  · refine ⟨hm, ?_, hrel, ?_, ?_⟩
    · rw [hh]
      exact h.current
    · rw [hh]
      exact forall_uses h.uses_message h.source_message
    · rw [hh]
      exact h.source_message

theorem afterMove_stable (r r' : Car K × MoveHistory) (h : AfterMove c r)
    (hr : recordedMoves.Interference FreshTick r r') : AfterMove c r' := by
  have hm := movesOnce_stable r r' h.moves hr
  obtain ⟨e, hC, rfl⟩ := hr
  have hrel := (carClient_env e r.1).2.2.trans h.relative
  rcases env_history r e hC with ⟨-, hh⟩ | ⟨-, -, hf, -⟩
  · refine ⟨hm, ?_, hrel, ?_, ?_⟩
    · rw [hh]
      exact h.source
    · rw [hh]
      exact h.stale
    · rw [hh]
      exact h.notMem
  · rw [h.stale] at hf
    exact Bool.noConfusion hf

theorem preserves_read_before {α : Type} (l : ControlCall K) (g : Car K → α)
    (hl : ∀ s h, watch l s h = h) : ((Task.read l g).history watch).Preserves (BeforeMove c) := by
  apply Task.preserves_access
  intro r h
  rw [hl]
  exact h

theorem entry_preserves_before :
    (callback_pos_entry.history watch).Preserves (BeforeMove (K := K) c) := by
  rw [callback_pos_entry, Task.history_bind]
  apply Task.preserves_bind (preserves_read_before _ _ fun _ _ => rfl)
  intro flag
  by_cases hf : flag = 0
  · rw [if_pos hf, Task.history_bind]
    apply Task.preserves_bind (preserves_read_before _ _ fun _ _ => rfl)
    intro rel
    by_cases hr : rel = 0
    · rw [if_pos hr, Task.history_bind]
      apply Task.preserves_bind (preserves_read_before _ _ fun _ _ => rfl)
      intro NOW
      apply Task.preserves_update
      intro r h
      exact ⟨⟨h.moves.once, h.moves.unused, h.moves.uses_message, h.moves.source_message⟩,
        h.current, h.relative, h.uses_message, h.source_message⟩
    · rw [if_neg hr]
      trivial
  · rw [if_neg hf]
    trivial

theorem BeforeMove.store {r : Car K × MoveHistory} (h : BeforeMove c r) (V : Vec K) :
    AfterMove c ({ r.1 with Move := V }, watch .Set_Move r.1 r.2) := by
  have hn : c ∉ r.2.uses := fun hc => lt_irrefl _ (h.uses_message c hc)
  refine ⟨⟨h.moves.once, ?_, h.moves.uses_message, le_rfl⟩, h.current, h.relative, rfl, hn⟩
  intro _ hfresh
  exact Bool.noConfusion hfresh

/-- The flag is raised for the `Move` that was just stored, and only in relative mode. -/
theorem AfterMove.raise {r : Car K × MoveHistory} (h : AfterMove c r) (hpos : c.isPos = true)
    (hrel : c.relative = 1) :
    MovesOnce ({ r.1 with pending_flag := 1 }, watch .Set_pending_flag r.1 r.2) := by
  refine ⟨h.moves.once, ?_, h.moves.uses_message, h.moves.source_message⟩
  intro _ _
  change Relative r.2.source ∧ r.2.source ∉ r.2.uses
  rw [h.source]
  exact ⟨⟨hpos, hrel⟩, h.notMem⟩

theorem pending_safe {r : Car K × MoveHistory} (h : AfterMove c r) (hpos : c.isPos = true) :
    Safe (recordedMoves.Interference FreshTick) (fun r => UsedOnce r.2) (fun _ => MovesOnce)
      (callback_pos_pending.history watch) r := by
  rw [callback_pos_pending, Task.history_bind]
  apply Safe.access (P := AfterMove c) afterMove_stable h fun r h => h.moves.once
  intro r h
  by_cases hr : r.1.relative = 1
  · have hrel : c.relative = 1 := h.relative.symm.trans hr
    rw [if_pos hr]
    apply Safe.atomic (P := AfterMove c) afterMove_stable h fun r h => h.moves.once
    intro r r' h ha
    cases ha
    exact Safe.ret movesOnce_stable (h.raise hpos hrel) fun r h => ⟨h.once, h⟩
  · rw [if_neg hr]
    exact Safe.ret movesOnce_stable h.moves fun r h => ⟨h.once, h⟩

theorem safe_of_moves {t : Task (ControlCall K) (Car K × MoveHistory) Unit}
    (ht : t.Preserves MovesOnce) (h : MovesOnce r) :
    Safe (recordedMoves.Interference FreshTick) (fun r => UsedOnce r.2) (fun _ => MovesOnce) t r :=
  (Safe.of_preserves movesOnce_stable ht h).mono (fun _ h => h.once) fun _ _ h => h

theorem MovesOnce.arrive {r : Car K × MoveHistory} (h : MovesOnce r) (m : Message K) :
    MovesOnce (recordedMoves.arrive m r) := by
  refine ⟨h.once, h.unused, ?_, h.source_message.trans (Nat.le_succ _)⟩
  intro u hu
  exact (h.uses_message u hu).trans (Nat.le_succ _)

theorem callback_pos_safe {r : Car K × MoveHistory} (point : Vec K) (h : MovesOnce r) :
    Safe (recordedMoves.Interference FreshTick) (fun r => UsedOnce r.2) (fun _ => MovesOnce)
      (recordedMoves.handler (.pos point)) (recordedMoves.arrive (.pos point) r) := by
  let c : MoveSource := ⟨r.2.current.message + 1, true, r.1.relative⟩
  have hc : BeforeMove c (recordedMoves.arrive (.pos point) r) :=
    ⟨h.arrive _, rfl, rfl, fun u hu => Nat.lt_succ_of_le (h.uses_message u hu),
      Nat.lt_succ_of_le h.source_message⟩
  have he := Safe.of_preserves beforeMove_stable entry_preserves_before hc
  change Safe _ _ _ ((callback_pos point).history watch) _
  rw [callback_pos, Task.history_bind]
  apply Safe.bind
  apply he.mono fun r h => h.moves.once
  intro _ r h
  rw [Task.history_bind]
  apply Safe.access beforeMove_stable h fun r h => h.moves.once
  intro r h
  have hflag : BeforeMove c ({ r.1 with Run_Flag := 1 }, watch .Set_Run_Flag r.1 r.2) :=
    ⟨⟨h.moves.once, h.moves.unused, h.moves.uses_message, h.moves.source_message⟩,
      h.current, h.relative, h.uses_message, h.source_message⟩
  rw [Task.history_bind]
  apply Safe.access beforeMove_stable hflag fun r h => h.moves.once
  intro r h
  rw [Task.history_bind]
  apply Safe.bind
  apply (pending_safe (h.store _) rfl).mono fun r h => h
  intro _ r h
  exact safe_of_moves publish_preserves_moves h

theorem callback_safe (m : Message K) (r : Car K × MoveHistory) (h : MovesOnce r) :
    Safe (recordedMoves.Interference FreshTick) (fun r => UsedOnce r.2) (fun _ => MovesOnce)
      (recordedMoves.handler m) (recordedMoves.arrive m r) := by
  cases m with
  | speed point => exact safe_of_moves (store_pair_preserves_moves _ _) (h.arrive _)
  | pos point => exact callback_pos_safe point h
  | speedlimit data =>
    have hs := preserves_update_moves (K := K) .Set_RC_Velocity
      (fun s => { s with RC_Velocity := data * (178731 / 10000) }) (fun _ _ => .inl rfl)
      fun _ => rfl
    exact safe_of_moves hs (h.arrive _)
  | mode data =>
    apply safe_of_moves _ (h.arrive _)
    change ((callback_mode data).history watch).Preserves MovesOnce
    rw [callback_mode, Task.history_bind]
    exact Task.preserves_bind (mode_change_preserves_moves data) fun _ => publish_preserves_moves
  | stop data =>
    apply safe_of_moves _ (h.arrive _)
    cases data with
    | true => exact store_pair_preserves_moves _ _
    | false => trivial

/-- If every tick that takes a relative move finds `pending_flag` raised for the present `Move`,
each such move is the relative move of a message, and no message is used twice. -/
theorem relative_moves_once (es : List (Client.Event (Message K) CarEvent))
    (hm : Transition.StepsMeet recordedMoves.step
      (Client.Meets FreshTick fun _ => True) (Client.start (Car.initial, {})) es) :
    UsedOnce ((recordedMoves (K := K)).run (Car.initial, {}) es).shared.2 := by
  have h₀ : MovesOnce (K := K) (Car.initial, {}) := by
    refine ⟨⟨?_, List.nodup_nil⟩, ?_, ?_, le_rfl⟩
    · intro u hu
      exact absurd hu List.not_mem_nil
    · intro _ hf
      exact Bool.noConfusion hf
    · intro u hu
      exact absurd hu List.not_mem_nil
  have hrecv (m : Message K) (r : Car K × MoveHistory) (_ : True) (h : MovesOnce r) :=
    callback_safe m r h
  have henv (r : Car K × MoveHistory) (e : CarEvent) (h : MovesOnce r) := h.env e
  exact ((recordedMoves (K := K)).safe_of_meet henv (fun r h => h.once) hrecv h₀ hm).holds

end

def oneMove : List (Client.Event (Message ℚ) CarEvent) :=
  .recv (.pos ⟨10, 0, 0⟩) :: List.replicate 8 .step ++ [.env .Control, .env .Control]

theorem oneMove_used_once :
    UsedOnce ((recordedMoves (K := ℚ)).run (Car.initial, {}) oneMove).shared.2 :=
  relative_moves_once oneMove (by decide +kernel)

/-- A tick inside the second of two position messages finds the flag of the first one raised,
and the next tick applies the displacement again. -/
theorem relative_move_used_twice :
    ¬∀ es : List (Client.Event (Message ℚ) CarEvent),
      UsedOnce (recordedMoves.run (Car.initial, {}) es).shared.2 := by
  intro h
  have hu := (h (.recv (.pos ⟨10, 0, 0⟩) :: List.replicate 8 .step ++
    .recv (.pos ⟨20, 0, 0⟩) :: List.replicate 3 .step ++
    .env .Control :: List.replicate 2 .step ++ [.env .Control])).2
  exact absurd hu (by decide +kernel)

end RobotCar

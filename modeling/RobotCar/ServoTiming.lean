import Mathlib.Data.List.Chain
import RobotCar.ServoQueue

namespace RobotCar
open Concurrent
set_option autoImplicit true

/-- The true times of a call: of the test of the waiting time, and of the reading that is stored
in `time_start`. -/
structure Stamp where
  checked : Nat
  started : Nat
  byServer : Bool
  deriving DecidableEq, Repr

inductive TimedCall where
  | Servo_Add_Action (New storage : Nat) (action : act) (time : Int)
  | Servo_Server

/-- A call that begins `delay` ms after the last one and reads the clock again `gap` ms later. -/
structure TimedEvent where
  delay : Nat
  gap : Nat
  call : TimedCall

/-- What `HAL_GetTick` returns at a true time. -/
def HAL_GetTick (t : Nat) : UInt32 := UInt32.ofNat t

/-- The state of the queue with the true time. -/
structure Timed where
  clock : Nat
  state : Servo × ServoHistory Stamp

namespace Timed

def event (clock : Nat) (e : TimedEvent) : Stamp × ServoCall :=
  let t := clock + e.delay
  let t' := t + e.gap
  match e.call with
  | .Servo_Add_Action New storage action time =>
    (⟨t, t', false⟩, .Servo_Add_Action New storage (HAL_GetTick t') action time)
  | .Servo_Server => (⟨t, t', true⟩, .Servo_Server (HAL_GetTick t) (HAL_GetTick t'))

def step (r : Timed) (e : TimedEvent) : Timed :=
  ⟨r.clock + e.delay + e.gap, ServoCall.step r.state (event r.clock e)⟩

end Timed

/-! ### True times on the abstract queue -/

theorem elapsed_le (h : t ≤ t') (time : UInt32) (ht : HAL_GetTick t' - HAL_GetTick t ≥ time) :
    t + time.toNat ≤ t' := by
  have hsub : HAL_GetTick t' - HAL_GetTick t = UInt32.ofNat (t' - t) := by
    rw [HAL_GetTick, HAL_GetTick, UInt32.ofNat_sub h]
  have hle : time.toNat ≤ (UInt32.ofNat (t' - t)).toNat := by
    rw [← hsub]
    exact UInt32.le_iff_toNat_le.1 ht
  rw [UInt32.toNat_ofNat'] at hle
  have hmod := Nat.mod_le (t' - t) (2 ^ 32)
  omega

/-- An action that the server dispatched was checked when the time of the one before it was
over. -/
def OnTime (i j : Issue Stamp) : Prop :=
  j.tag.byServer = true → i.tag.started + i.time.toNat ≤ j.tag.checked

/-- The invariant of the abstract queue at a true time. -/
structure Punctual (clock : Nat) (q : Fifo Stamp) : Prop where
  exact : q.Exact
  onTime : q.history.issued.IsChain OnTime
  first : ∀ i ∈ q.history.issued.head?, i.tag.byServer = false
  running : ∀ pace, q.head = some pace → ∃ i, q.history.issued.getLast? = some i ∧
    i.time = pace.time ∧ q.time_start = HAL_GetTick i.tag.started ∧ i.tag.started ≤ clock
  elapsed : q.head = none → ∀ i ∈ q.history.issued.getLast?, i.tag.started + i.time.toNat ≤ clock

theorem Punctual.later {q : Fifo Stamp} (h : Punctual clock q) (hc : clock ≤ clock') :
    Punctual clock' q := by
  refine ⟨h.exact, h.onTime, h.first, ?_, fun hq i hi => (h.elapsed hq i hi).trans hc⟩
  intro time hq
  obtain ⟨i, hi, ht, hs, hle⟩ := h.running time hq
  exact ⟨i, hi, ht, hs, hle.trans hc⟩

theorem isChain_concat {R : α → α → Prop} {l : List α} (h : l.IsChain R)
    (hj : ∀ i ∈ l.getLast?, R i j) : (l ++ [j]).IsChain R := by
  apply List.isChain_append.2
  refine ⟨h, List.isChain_singleton j, ?_⟩
  intro i hi k hk
  cases hk
  exact hj i hi

theorem head_concat {P : α → Prop} {l : List α} (hl : ∀ i ∈ l.head?, P i)
    (hj : l = [] → P j) : ∀ i ∈ (l ++ [j]).head?, P i := by
  intro i hi
  cases l with
  | nil =>
    cases hi
    exact hj rfl
  | cons k l => exact hl i hi

theorem Punctual.add {q : Fifo Stamp} (h : Punctual clock q) (action : act) (pace : Pace)
    (t : Nat) (hc : clock ≤ clock') :
    Punctual clock' (q.add ⟨t, clock', false⟩ (HAL_GetTick clock') action pace) := by
  have hexact := h.exact.add ⟨t, clock', false⟩ (HAL_GetTick clock') action pace
  cases hq : q.head with
  | none =>
    rw [Fifo.add_of_idle hq] at hexact ⊢
    refine ⟨hexact, isChain_concat h.onTime fun i _ hs => Bool.noConfusion hs,
      head_concat h.first fun _ => rfl, ?_, ?_⟩
    · intro pace' ht
      cases ht
      exact ⟨_, List.getLast?_concat .., rfl, rfl, le_rfl⟩
    · intro hn
      exact absurd hn (Option.some_ne_none _)
  | some head =>
    have h' := h.later hc
    rw [Fifo.add_of_busy hq] at hexact ⊢
    exact ⟨hexact, h'.onTime, h'.first, h'.running, h'.elapsed⟩

/-- The server dispatches the next action only when the time of the head is over. -/
theorem Punctual.serve {q : Fifo Stamp} (h : Punctual clock q) (hc : clock ≤ t) (hc' : t ≤ t') :
    Punctual t' (q.serve ⟨t, t', true⟩ (HAL_GetTick t) (HAL_GetTick t')) := by
  have hexact := h.exact.serve ⟨t, t', true⟩ (HAL_GetTick t) (HAL_GetTick t')
  have h' := h.later (hc.trans hc')
  cases hq : q.head with
  | none =>
    rw [Fifo.serve_of_idle hq]
    exact h'
  | some pace =>
    obtain ⟨i, hi, htime, hstart, hle⟩ := h.running pace hq
    by_cases hdue : HAL_GetTick t - q.time_start ≥ pace.time
    · have hover : i.tag.started + i.time.toNat ≤ t := by
        rw [htime]
        exact elapsed_le (hle.trans hc) pace.time (hstart ▸ hdue)
      have hlast (j : Issue Stamp) (hj : j ∈ q.history.issued.getLast?) : j = i :=
        Option.some.inj (hj.symm.trans hi)
      cases hw : q.waiting with
      | nil =>
        rw [Fifo.serve_last hq hdue hw] at hexact ⊢
        refine ⟨hexact, h.onTime, h.first, fun t ht => absurd ht.symm (Option.some_ne_none t), ?_⟩
        intro _ j hj
        rw [hlast j hj]
        exact hover.trans hc'
      | cons w waiting =>
        rw [Fifo.serve_next hq hdue hw] at hexact ⊢
        refine ⟨hexact, ?_, ?_, ?_, fun hn => absurd hn (Option.some_ne_none _)⟩
        · apply isChain_concat h.onTime
          intro j hj _
          rw [hlast j hj]
          exact hover
        · apply head_concat h.first
          intro hn
          rw [hn] at hi
          cases hi
        · intro pace' ht
          cases ht
          exact ⟨_, List.getLast?_concat .., rfl, rfl, le_rfl⟩
    · rw [Fifo.serve_of_not_due hq hdue]
      exact h'

/-! ### Runs -/

theorem Represents.current_time {r : Servo × ServoHistory τ} {q : Fifo τ} (h : Represents r q)
    (hq : q.head = some pace) :
    (r.1.heap r.1.Current).map action_servo.time = some pace.time := by
  obtain ⟨cells, hc⟩ := h.list
  obtain ⟨p, ps, -, hbusy⟩ := hc.cons_of_busy hq
  obtain ⟨node, hnode, -, rfl, -⟩ := hbusy.head
  rw [hnode, Option.map_some]
  rfl

def retired (r : Servo × ServoHistory τ) : Nat :=
  if r.1.Current = 0 then r.2.issued.length else r.2.issued.length - 1

theorem Represents.retired_eq {r : Servo × ServoHistory τ} {q : Fifo τ} (h : Represents r q) :
    retired r = if q.head = none then q.history.issued.length
      else q.history.issued.length - 1 := by
  rw [retired, h.history]
  by_cases hC : r.1.Current = 0
  · rw [if_pos hC, if_pos (h.current_iff.1 hC)]
  · rw [if_neg hC, if_neg fun hn => hC (h.current_iff.2 hn)]

/-- One call of the server retires at most one action. -/
theorem retired_serve {r r' : Servo × ServoHistory τ} {q : Fifo τ} (h : Represents r q)
    (h' : Represents r' (q.serve tag now now')) : retired r' ≤ retired r + 1 := by
  rw [h.retired_eq, h'.retired_eq]
  cases hq : q.head with
  | none =>
    rw [Fifo.serve_of_idle hq, if_pos hq, if_pos rfl]
    exact Nat.le_succ _
  | some pace =>
    rw [if_neg (Option.some_ne_none pace)]
    by_cases hdue : now - q.time_start ≥ pace.time
    · cases hw : q.waiting with
      | nil =>
        rw [Fifo.serve_last hq hdue hw, if_pos rfl]
        dsimp only
        omega
      | cons w waiting =>
        rw [Fifo.serve_next hq hdue hw, if_neg (Option.some_ne_none w.2)]
        dsimp only
        rw [List.length_append, List.length_singleton]
        omega
    · rw [Fifo.serve_of_not_due hq hdue, hq, if_neg (Option.some_ne_none pace)]
      exact Nat.le_succ _

theorem Is_Servo_Idle_run {s s' : Servo} (h : Is_Servo_Idle.run s = some (idle, s')) :
    idle = decide (s.Current = 0) := by
  cases hl : s.Servo_Lock with
  | true =>
    simp [Is_Servo_Idle, xSemaphoreTake, hl] at h
  | false =>
    simp [Is_Servo_Idle, xSemaphoreTake, xSemaphoreGive, hl] at h
    exact h.1.symm

theorem timed_start (clock : Nat) (s : Servo) :
    ∃ q : Fifo Stamp, Represents
      ({ s with Current := 0, Last := 0, Servo_Lock := false }, ({} : ServoHistory Stamp)) q ∧
        Punctual clock q := by
  refine ⟨{ time_start := s.time_start, steppers := s.steppers }, represents_empty s,
    ⟨rfl, fun _ => rfl⟩, List.isChain_nil, ?_, ?_, ?_⟩
  · intro i hi
    cases hi
  · intro time ht
    cases ht
  · intro _ i hi
    cases hi

theorem timed_step {r : Timed} (h : ∃ q, Represents r.state q ∧ Punctual r.clock q)
    (e : TimedEvent) :
    ∃ q, Represents (r.step e).state q ∧ Punctual (r.step e).clock q := by
  obtain ⟨q, hr, hq⟩ := h
  obtain ⟨q', hr', hstep⟩ := step_refines hr (Timed.event r.clock e)
  have hc : r.clock ≤ r.clock + e.delay := Nat.le_add_right _ _
  have hc' : r.clock + e.delay ≤ r.clock + e.delay + e.gap := Nat.le_add_right _ _
  refine ⟨q', hr', ?_⟩
  obtain ⟨delay, gap, call⟩ := e
  cases call with
  | Servo_Add_Action New storage action time =>
    rcases hstep with rfl | ⟨pace, rfl, -⟩
    · exact hq.later (hc.trans hc')
    · exact hq.add action pace _ (hc.trans hc')
  | Servo_Server =>
    cases hstep
    exact hq.serve hc hc'

/-- Along the true time, whatever the wraps of the tick counter: the server dispatches an action
only when the time of the one before it is over, it retires at most one action in a call, and the
queue is reported idle only when everything was dispatched and the last time is over. -/
theorem no_early_start (clock : Nat) (s : Servo) (es : List TimedEvent) :
    let r := Transition.run Timed.step
      ⟨clock, ({ s with Current := 0, Last := 0, Servo_Lock := false }, {})⟩ es
    let issued := r.state.2.issued
    (issued.IsChain OnTime ∧ ∀ i ∈ issued.head?, i.tag.byServer = false) ∧
      (r.state.1.Current ≠ 0 → ∃ i, issued.getLast? = some i ∧
        r.state.1.time_start = HAL_GetTick i.tag.started ∧
        (r.state.1.heap r.state.1.Current).map action_servo.time = some i.time) ∧
      (∀ delay gap, retired (r.step ⟨delay, gap, .Servo_Server⟩).state ≤ retired r.state + 1) ∧
      ∀ s', Is_Servo_Idle.run r.state.1 = some (true, s') →
        issued.map Issue.action = r.state.2.enqueued ∧
          ∀ i ∈ issued.getLast?, i.tag.started + i.time.toNat ≤ r.clock := by
  intro r issued
  obtain ⟨q, hr, hq⟩ : ∃ q, Represents r.state q ∧ Punctual r.clock q :=
    Transition.run_invariant (I := fun r : Timed => ∃ q, Represents r.state q ∧ Punctual r.clock q)
      (fun r e h => timed_step h e) (timed_start clock s) es
  have hissued : issued = q.history.issued := congrArg ServoHistory.issued hr.history
  refine ⟨⟨?_, ?_⟩, ?_, ?_, ?_⟩
  · rw [hissued]
    exact hq.onTime
  · rw [hissued]
    exact hq.first
  · intro hC
    cases hh : q.head with
    | none => exact absurd (hr.current_iff.2 hh) hC
    | some pace =>
      obtain ⟨i, hi, ht, hs, -⟩ := hq.running pace hh
      rw [hissued, hr.time_start, hr.current_time hh]
      exact ⟨i, hi, hs, congrArg some ht.symm⟩
  · intro delay gap
    obtain ⟨q', hr', hstep⟩ := step_refines hr (Timed.event r.clock ⟨delay, gap, .Servo_Server⟩)
    cases hstep
    exact retired_serve hr hr'
  · intro s' hidle
    have hC : r.state.1.Current = 0 := of_decide_eq_true (Is_Servo_Idle_run hidle).symm
    have hh : q.head = none := hr.current_iff.1 hC
    have ho := hq.exact.order
    rw [hq.exact.idle hh, List.map_nil, List.append_nil] at ho
    rw [hissued, hr.history]
    exact ⟨ho, hq.elapsed hh⟩

end RobotCar

import Mathlib.Algebra.Group.Nat.Defs
import RobotCar.ServoTiming

namespace RobotCar
open Concurrent Linked Transition
set_option autoImplicit true

/-- A run of the queue, with the true time at which the server tested a waiting time last. -/
structure Served where
  timed : Timed
  served : Nat

namespace Served

def step (r : Served) (e : TimedEvent) : Served where
  timed := r.timed.step e
  served := match e.call with
    | .Servo_Server => r.timed.clock + e.delay
    | .Servo_Add_Action .. => r.served

/-- The server is called again within `P` ms, and a call of it is over within `G` ms. -/
def Regular (P G : Nat) (r : Served) (e : TimedEvent) : Prop :=
  match e.call with
  | .Servo_Server => r.timed.clock + e.delay ≤ r.served + P ∧ e.gap ≤ G
  | .Servo_Add_Action .. => True

instance (P G : Nat) (r : Served) (e : TimedEvent) : Decidable (Regular P G r e) :=
  match e with
  | ⟨_, _, .Servo_Server⟩ => inferInstanceAs (Decidable (_ ∧ _))
  | ⟨_, _, .Servo_Add_Action ..⟩ => instDecidableTrue

end Served

/-- An action that the server dispatched was checked at most `P` ms after the time of the one before
it was over. -/
def InTime (P : Nat) (i j : Issue Stamp) : Prop :=
  j.tag.byServer = true → i.time.toNat + P < 2 ^ 32 →
    j.tag.checked ≤ i.tag.started + i.time.toNat + P

/-- At its last test, the server did not yet find the time of the head over. -/
structure Prompt (P served clock : Nat) (q : Fifo Stamp) : Prop where
  inTime : q.history.issued.IsChain (InTime P)
  tested : q.head ≠ none → ∀ i ∈ q.history.issued.getLast?, i.time.toNat + P < 2 ^ 32 →
    served ≤ i.tag.started + (i.time.toNat - 1)
  served_le : served ≤ clock

/-- A difference of two readings that is not too long is the true time between them. -/
theorem elapsed_lt (h : t ≤ t') (hlt : t' - t < 2 ^ 32) (time : UInt32)
    (ht : ¬HAL_GetTick t' - HAL_GetTick t ≥ time) : t' < t + time.toNat := by
  have hsub : HAL_GetTick t' - HAL_GetTick t = UInt32.ofNat (t' - t) := by
    rw [HAL_GetTick, HAL_GetTick, UInt32.ofNat_sub h]
  rw [hsub, ge_iff_le, UInt32.not_le, UInt32.lt_iff_toNat_lt, UInt32.toNat_ofNat_of_lt' hlt] at ht
  omega

theorem Prompt.later {q : Fifo Stamp} (h : Prompt P served clock q) (hc : clock ≤ clock') :
    Prompt P served clock' q :=
  ⟨h.inTime, h.tested, h.served_le.trans hc⟩

theorem Prompt.add {q : Fifo Stamp} (h : Prompt P served clock q) (action : act) (pace : Pace)
    (t : Nat) (hc : clock ≤ clock') : Prompt P served clock'
      (q.add ⟨t, clock', false⟩ (HAL_GetTick clock') action pace) := by
  cases hq : q.head with
  | none =>
    rw [Fifo.add_of_idle hq]
    refine ⟨isChain_concat h.inTime fun i _ hs => Bool.noConfusion hs, fun _ i hi _ => ?_,
      h.served_le.trans hc⟩
    rw [List.getLast?_concat] at hi
    obtain rfl := Option.some.inj hi
    exact (h.served_le.trans hc).trans (Nat.le_add_right _ _)
  | some running =>
    rw [Fifo.add_of_busy hq]
    exact ⟨h.inTime, h.tested, h.served_le.trans hc⟩

theorem Prompt.late {q : Fifo Stamp} (h : Prompt P served clock q) (hn : q.head ≠ none)
    (hi : i ∈ q.history.issued.getLast?) (ht : t ≤ served + P) (hlt : i.time.toNat + P < 2 ^ 32) :
    t ≤ i.tag.started + i.time.toNat + P := by
  have htested := h.tested hn i hi hlt
  omega

theorem Prompt.serve {q : Fifo Stamp} (h : Prompt P served clock q) (hp : Punctual clock q)
    (hc : clock ≤ t) (hc' : t ≤ t') (ht : t ≤ served + P) :
    Prompt P t t' (q.serve ⟨t, t', true⟩ (HAL_GetTick t) (HAL_GetTick t')) := by
  cases hq : q.head with
  | none =>
    rw [Fifo.serve_of_idle hq]
    exact ⟨h.inTime, fun hn => absurd hq hn, hc'⟩
  | some pace =>
    have hn : q.head ≠ none := by
      rw [hq]
      exact Option.some_ne_none pace
    obtain ⟨i, hi, htime, hstart, hle⟩ := hp.running pace hq
    by_cases hdue : HAL_GetTick t - q.time_start ≥ pace.time
    · cases hw : q.waiting with
      | nil =>
        rw [Fifo.serve_last hq hdue hw]
        exact ⟨h.inTime, fun hn => absurd rfl hn, hc'⟩
      | cons w waiting =>
        rw [Fifo.serve_next hq hdue hw]
        refine ⟨isChain_concat h.inTime fun j hj _ hlt => h.late hn hj ht hlt, fun _ j hj _ => ?_,
          hc'⟩
        rw [List.getLast?_concat] at hj
        obtain rfl := Option.some.inj hj
        exact hc'.trans (Nat.le_add_right _ _)
    · rw [Fifo.serve_of_not_due hq hdue]
      refine ⟨h.inTime, fun _ j hj hlt => ?_, hc'⟩
      have hj' : j = i := Option.some.inj (hj.symm.trans hi)
      subst hj'
      have hlate := h.late hn hj ht hlt
      have hshort : t < j.tag.started + pace.time.toNat := by
        refine elapsed_lt (hle.trans hc) (by omega) pace.time ?_
        rw [← hstart]
        exact hdue
      rw [htime]
      omega

/-- What the runs with a regular server keep. -/
def Timely (P : Nat) (r : Served) : Prop :=
  ∃ q, Represents r.timed.state q ∧ Punctual r.timed.clock q ∧ Prompt P r.served r.timed.clock q

theorem timely_step {r : Served} (h : Timely P r) (e : TimedEvent) (he : r.Regular P G e) :
    Timely P (r.step e) := by
  obtain ⟨q, hr, hq, hprompt⟩ := h
  obtain ⟨q', hr', hstep⟩ := step_refines hr (Timed.event r.timed.clock e)
  have hc : r.timed.clock ≤ r.timed.clock + e.delay := Nat.le_add_right _ _
  have hc' : r.timed.clock + e.delay ≤ r.timed.clock + e.delay + e.gap := Nat.le_add_right _ _
  refine ⟨q', hr', ?_⟩
  obtain ⟨delay, gap, call⟩ := e
  cases call with
  | Servo_Add_Action New storage action time =>
    rcases hstep with rfl | ⟨pace, rfl, -⟩
    · exact ⟨hq.later (hc.trans hc'), hprompt.later (hc.trans hc')⟩
    · exact ⟨hq.add action pace _ (hc.trans hc'), hprompt.add action pace _ (hc.trans hc')⟩
  | Servo_Server =>
    cases hstep
    exact ⟨hq.serve hc hc', hprompt.serve hq hc hc' he.1⟩

def Served.start (clock : Nat) (s : Servo) : Served where
  timed := ⟨clock, ({ s with Current := 0, Last := 0, Servo_Lock := false }, {})⟩
  served := clock

theorem timely_start (P clock : Nat) (s : Servo) : Timely P (.start clock s) := by
  refine ⟨{ time_start := s.time_start, steppers := s.steppers }, represents_empty s,
    ⟨⟨rfl, fun _ => rfl⟩, List.isChain_nil, ?_, ?_, ?_⟩, List.isChain_nil, ?_, Nat.le_refl clock⟩
  · intro i hi
    cases hi
  · intro time ht
    cases ht
  · intro _ i hi
    cases hi
  · intro hn
    exact absurd rfl hn

theorem timely_run (clock : Nat) (s : Servo)
    (hm : StepsMeet Served.step (Served.Regular P G) (.start clock s) es) :
    Timely P (run Served.step (.start clock s) es) :=
  run_invariant_of_meet (fun _ e h he => timely_step h e he) (timely_start P clock s) hm

def twoMoves : List TimedEvent :=
  [⟨5, 0, .Servo_Add_Action 100 200 ⟨1, 500⟩ 120⟩, ⟨1, 0, .Servo_Add_Action 101 201 ⟨2, 600⟩ 80⟩,
    ⟨44, 0, .Servo_Server⟩, ⟨50, 0, .Servo_Server⟩, ⟨50, 2, .Servo_Server⟩, ⟨48, 0, .Servo_Server⟩,
    ⟨50, 0, .Servo_Server⟩]

/-- How long the server may take for actions with these times. -/
def total (P G : Nat) (times : List UInt32) : Nat := (times.map (·.toNat + P + G)).sum

theorem total_cons (P G : Nat) (time : UInt32) (times : List UInt32) :
    total P G (time :: times) = time.toNat + P + G + total P G times := List.sum_cons

def Fifo.times (q : Fifo τ) : List UInt32 := q.waiting.map (·.2.time)

/-- The times are not too long for the tick counter, and the queue is empty at the time `B`. -/
structure Draining (P G B : Nat) (q : Fifo Stamp) : Prop where
  waiting : ∀ time ∈ q.times, time.toNat + P < 2 ^ 32
  running : q.head ≠ none → ∀ i ∈ q.history.issued.getLast?, i.time.toNat + P < 2 ^ 32 ∧
    i.tag.started + total P G (i.time :: q.times) ≤ B

theorem Draining.serve {q : Fifo Stamp} (h : Draining P G B q) (hp : Punctual clock q)
    (hprompt : Prompt P served clock q) (ht : t ≤ served + P) (hgap : t' ≤ t + G) :
    Draining P G B (q.serve ⟨t, t', true⟩ (HAL_GetTick t) (HAL_GetTick t')) ∧
      ((q.serve ⟨t, t', true⟩ (HAL_GetTick t) (HAL_GetTick t')).head ≠ none → t' ≤ B) := by
  cases hq : q.head with
  | none =>
    rw [Fifo.serve_of_idle hq]
    exact ⟨h, fun hn => absurd hq hn⟩
  | some pace =>
    have hn : q.head ≠ none := by
      rw [hq]
      exact Option.some_ne_none pace
    obtain ⟨i, hi, htime, hstart, hle⟩ := hp.running pace hq
    obtain ⟨hshort, hB⟩ := h.running hn i hi
    have hlate := hprompt.late hn hi ht hshort
    rw [total_cons] at hB
    by_cases hdue : HAL_GetTick t - q.time_start ≥ pace.time
    · cases hw : q.waiting with
      | nil =>
        rw [Fifo.serve_last hq hdue hw]
        exact ⟨⟨h.waiting, fun hn => absurd rfl hn⟩, fun hn => absurd rfl hn⟩
      | cons w waiting =>
        rw [Fifo.serve_next hq hdue hw]
        have htimes : q.times = w.2.time :: waiting.map (·.2.time) := by
          rw [Fifo.times, hw, List.map_cons]
        have hall := h.waiting
        rw [htimes] at hall hB
        refine ⟨⟨fun time ht => hall time (List.mem_cons_of_mem _ ht), fun _ j hj => ?_⟩,
          fun _ => by omega⟩
        rw [List.getLast?_concat] at hj
        obtain rfl := Option.some.inj hj
        refine ⟨hall _ List.mem_cons_self, ?_⟩
        change t' + total P G (w.2.time :: waiting.map (·.2.time)) ≤ B
        omega
    · rw [Fifo.serve_of_not_due hq hdue]
      exact ⟨h, fun _ => by omega⟩

/-- The states of the queue under a regular server. -/
def Served.Reachable (P G : Nat) (r : Served) : Prop :=
  ∃ clock s es, StepsMeet Served.step (Served.Regular P G) (.start clock s) es ∧
    r = run Served.step (.start clock s) es

theorem Served.Reachable.timely {r : Served} (h : r.Reachable P G) : Timely P r := by
  obtain ⟨clock, s, es, hm, rfl⟩ := h
  exact timely_run clock s hm

/-- The times of the first nodes from `p` on. -/
def nodeTimes (heap : Nat → Option action_servo) : Nat → Nat → List UInt32
  | 0, _ => []
  | n + 1, p =>
    match heap p with
    | some node => node.time :: nodeTimes heap n node.Next
    | none => []

theorem nodeTimes_eq {heap : Nat → Option action_servo} {contents : List (List act × Pace)}
    (hc : Chain (next heap) p cells 0) (hn : cells.map (content heap) = contents.map some) :
    nodeTimes heap contents.length p = contents.map (·.2.time) := by
  induction cells generalizing p contents with
  | nil =>
    obtain rfl := List.map_eq_nil_iff.1 hn.symm
    rfl
  | cons x cells ih =>
    obtain ⟨rfl, hc⟩ := hc
    cases contents with
    | nil => cases hn
    | cons c contents =>
      obtain ⟨hx, hcells⟩ := List.cons.inj hn
      obtain ⟨node, hnode, rfl⟩ := Option.map_eq_some_iff.1 hx
      rw [next, hnode, Option.map_some, Option.getD_some] at hc
      simp only [List.length_cons, nodeTimes, hnode, ih hc hcells, List.map_cons]
      rfl

def pending (r : Served) : Nat :=
  r.timed.state.2.enqueued.length - retired r.timed.state

def pendingTimes (r : Served) : List UInt32 :=
  nodeTimes r.timed.state.1.heap (pending r) r.timed.state.1.Current

theorem pending_eq {r : Served} {q : Fifo Stamp} (hr : Represents r.timed.state q)
    (hq : q.Exact) (hi : q.head ≠ none → q.history.issued ≠ []) :
    pending r = q.contents.length := by
  have ho := congrArg List.length hq.order
  rw [List.length_append, List.length_map, List.length_map] at ho
  rw [pending, hr.retired_eq, hr.history, Fifo.contents]
  cases hh : q.head with
  | none =>
    rw [hq.idle hh] at ho
    rw [if_pos rfl]
    dsimp only [List.length_nil] at ho ⊢
    omega
  | some pace =>
    have hpos := List.length_pos_iff.2 (hi (by rw [hh]; exact Option.some_ne_none pace))
    rw [if_neg (Option.some_ne_none pace)]
    dsimp only
    rw [List.length_cons, List.length_map]
    omega

/-- The time at which the queue is empty at the latest. -/
def emptyAt (P G : Nat) (r : Served) : Nat := r.timed.clock + total P G (pendingTimes r)

theorem draining_of_represents {r : Served} {q : Fifo Stamp} (hr : Represents r.timed.state q)
    (hp : Punctual r.timed.clock q)
    (hM : ∀ time ∈ pendingTimes r, time.toNat + P < 2 ^ 32) :
    Draining P G (emptyAt P G r) q := by
  obtain ⟨cells, hc⟩ := hr.list
  have hissued : q.head ≠ none → q.history.issued ≠ [] := by
    intro hn
    obtain ⟨pace, hq⟩ := Option.ne_none_iff_exists'.1 hn
    obtain ⟨i, hi, -⟩ := hp.running pace hq
    exact List.ne_nil_of_mem (List.mem_of_getLast? hi)
  have htimes : pendingTimes r = q.contents.map (·.2.time) := by
    rw [pendingTimes, pending_eq hr hp.exact hissued]
    exact nodeTimes_eq hc.chain hc.nodes
  rw [emptyAt]
  rw [htimes] at hM ⊢
  cases hq : q.head with
  | none =>
    refine ⟨fun time ht => ?_, fun hn => absurd hq hn⟩
    rw [Fifo.times, hr.idle hq] at ht
    exact absurd ht List.not_mem_nil
  | some pace =>
    obtain ⟨i, hi, htime, -, hle⟩ := hp.running pace hq
    have hmap : q.contents.map (·.2.time) = pace.time :: q.times := by
      rw [Fifo.contents, hq, Fifo.times]
      dsimp only
      rw [List.map_cons, List.map_map]
      rfl
    rw [hmap] at hM ⊢
    refine ⟨fun time ht => hM time (List.mem_cons_of_mem _ ht), fun _ j hj => ?_⟩
    obtain rfl : i = j := Option.some.inj (hi.symm.trans hj)
    rw [htime]
    exact ⟨hM _ List.mem_cons_self, Nat.add_le_add_right hle _⟩

theorem Fifo.serve_enqueued (q : Fifo τ) (tag : τ) (now now' : UInt32) :
    (q.serve tag now now').history.enqueued = q.history.enqueued := by
  cases hq : q.head with
  | none => rw [serve_of_idle hq]
  | some pace =>
    by_cases hdue : now - q.time_start ≥ pace.time
    · cases hw : q.waiting with
      | nil => rw [serve_last hq hdue hw]
      | cons w waiting => rw [serve_next hq hdue hw]
    · rw [serve_of_not_due hq hdue]

/-- A queue that is served and is empty after the time `B`. -/
def DrainsBy (P G B : Nat) (enqueued : List act) (r : Served) : Prop :=
  ∃ q, Represents r.timed.state q ∧ Punctual r.timed.clock q ∧
    Prompt P r.served r.timed.clock q ∧ Draining P G B q ∧
      (q.head ≠ none → r.timed.clock ≤ B) ∧ q.history.enqueued = enqueued

theorem drainsBy_step {r : Served} (h : DrainsBy P G B enqueued r) (he : r.Regular P G e)
    (hserver : e.call = .Servo_Server) : DrainsBy P G B enqueued (r.step e) := by
  obtain ⟨q, hr, hp, hprompt, hdrain, -, henq⟩ := h
  obtain ⟨q', hr', hstep⟩ := step_refines hr (Timed.event r.timed.clock e)
  have hc : r.timed.clock ≤ r.timed.clock + e.delay := Nat.le_add_right _ _
  have hc' : r.timed.clock + e.delay ≤ r.timed.clock + e.delay + e.gap := Nat.le_add_right _ _
  obtain ⟨delay, gap, call⟩ := e
  obtain rfl : call = .Servo_Server := hserver
  cases hstep
  obtain ⟨hdrain', hclock⟩ := hdrain.serve hp hprompt he.1 (Nat.add_le_add_left he.2 _)
  exact ⟨_, hr', hp.serve hc hc', hprompt.serve hp hc hc' he.1, hdrain', hclock,
    (q.serve_enqueued ..).trans henq⟩

theorem drainsBy_run {r : Served} (h : DrainsBy P G B enqueued r)
    (hm : StepsMeet Served.step (Served.Regular P G) r es)
    (hserver : ∀ e ∈ es, e.call = .Servo_Server) :
    DrainsBy P G B enqueued (run Served.step r es) := by
  induction es generalizing r with
  | nil => exact h
  | cons e es ih =>
    obtain ⟨he, hes⟩ := List.forall_mem_cons.1 hserver
    exact ih (drainsBy_step h hm.1 he) hm.2 hes

/-- When nothing is added, a queue that is served every `P` ms becomes empty: for each action that
is in it this takes at most its time, the `P` ms, and the time of a call. -/
theorem drains {r : Served} (h : r.Reachable P G)
    (hm : StepsMeet Served.step (Served.Regular P G) r es)
    (hserver : ∀ e ∈ es, e.call = .Servo_Server)
    (htimes : ∀ time ∈ pendingTimes r, time.toNat + P < 2 ^ 32)
    (hlong : emptyAt P G r < (run Served.step r es).timed.clock) :
    (run Served.step r es).timed.state.1.Current = 0 ∧
      (run Served.step r es).timed.state.2.issued.map Issue.action = r.timed.state.2.enqueued := by
  obtain ⟨q₀, hr₀, hp₀, hprompt₀⟩ := h.timely
  have hdrains : DrainsBy P G (emptyAt P G r) r.timed.state.2.enqueued r :=
    ⟨q₀, hr₀, hp₀, hprompt₀, draining_of_represents hr₀ hp₀ htimes,
      fun _ => Nat.le_add_right _ _, congrArg ServoHistory.enqueued hr₀.history.symm⟩
  obtain ⟨q, hr, hp, -, -, hclock, henq⟩ := drainsBy_run hdrains hm hserver
  have hq : q.head = none := by
    by_contra hn
    exact Nat.not_lt.2 (hclock hn) hlong
  have ho := hp.exact.order
  rw [hp.exact.idle hq, List.map_nil, List.append_nil, henq] at ho
  refine ⟨hr.current_iff.2 hq, ?_⟩
  rw [hr.history]
  exact ho

def bothQueued : Served := run Served.step (.start 0 {}) (twoMoves.take 2)

def tenCalls : List TimedEvent := List.replicate 10 ⟨50, 0, .Servo_Server⟩

theorem bothQueued_times : pendingTimes bothQueued = [120, 80] := rfl

theorem tenCalls_clock : (run Served.step bothQueued tenCalls).timed.clock = 506 := rfl

theorem drains_tenCalls : (run Served.step bothQueued tenCalls).timed.state.1.Current = 0 ∧
    (run Served.step bothQueued tenCalls).timed.state.2.issued.map Issue.action =
      bothQueued.timed.state.2.enqueued := by
  refine drains (P := 56) (G := 2) ⟨0, {}, twoMoves.take 2, by decide, rfl⟩ (by decide)
    (fun _ he => (List.eq_of_mem_replicate he) ▸ rfl) (fun time htime => ?_) ?_
  · rw [bothQueued_times] at htime
    have hle : time.toNat ≤ 120 := by
      rcases List.mem_pair.1 htime with rfl | rfl
      · exact Nat.le_refl 120
      · exact (by decide : 80 ≤ 120)
    omega
  · rw [emptyAt, bothQueued_times, tenCalls_clock]
    decide

end RobotCar

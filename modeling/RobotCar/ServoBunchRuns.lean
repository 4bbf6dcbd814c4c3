import RobotCar.ServoBunch

namespace RobotCar
open Concurrent CArith Linked
set_option autoImplicit true

/-! ### One call -/

/-- The loop issues the first action again and again, and does not end. -/
theorem dispatch_bunch_stuck {s : Servo} (hv : Valid action) (hs : s.heap s.Current = some node)
    (hacts : node.acts = action :: acts) (fuel : Nat) (tag : τ) (h : ServoHistory τ) :
    ∃ s', ((dispatch_bunch fuel).history (ServoHistory.watch tag)).run (s, h) =
      some (false, (s',
        { h with issued := h.issued ++ List.replicate fuel ⟨action, node.time, tag⟩ })) := by
  induction fuel generalizing s h with
  | zero => exact ⟨s, by rw [List.replicate_zero, List.append_nil]; rfl⟩
  | succ fuel ih =>
    obtain ⟨bus, hr⟩ := command_run hv tag node.time node.speed s h
    let s₁ : Servo := { s with steppers := moveAxis node.speed action s.steppers, bus := bus }
    obtain ⟨s', hrun⟩ := ih (s := s₁) hs { h with issued := h.issued ++ [⟨action, node.time, tag⟩] }
    refine ⟨s', ?_⟩
    rw [dispatch_bunch, Task.history_bind, Task.run_bind, Task.history_read, Task.run_access,
      Option.bind_some, hs]
    dsimp only [ServoHistory.watch]
    rw [hacts]
    dsimp only
    rw [Task.history_bind, Task.run_bind, hr, Option.bind_some]
    dsimp only
    rw [hrun, List.append_assoc]
    rfl

theorem dispatch_bunch_empty {s : Servo} (hs : s.heap s.Current = some node)
    (hacts : node.acts = []) (fuel : Nat) (tag : τ) (h : ServoHistory τ) :
    ((dispatch_bunch (fuel + 1)).history (ServoHistory.watch tag)).run (s, h) =
      some (true, (s, h)) := by
  rw [dispatch_bunch, Task.history_bind, Task.run_bind, Task.history_read, Task.run_access,
    Option.bind_some, hs]
  dsimp only [ServoHistory.watch]
  rw [hacts]
  rfl

theorem record_acts_run (acts : List act) (tag : τ) (s : Servo) (h : ServoHistory τ) :
    ((record_acts acts).history (ServoHistory.watch tag)).run (s, h) =
      some ((), (s, { h with enqueued := h.enqueued ++ acts })) := by
  induction acts generalizing h with
  | nil =>
    rw [List.append_nil]
    rfl
  | cons action acts ih =>
    rw [record_acts, Task.history_bind, Task.run_bind, Task.history_update, Task.run_update,
      Option.bind_some]
    dsimp only [ServoHistory.watch, id]
    rw [ih, List.append_assoc]
    rfl

def begin_bunch (fuel : Nat) (now : UInt32) (Current : Nat) : Task ServoAccess Servo Bool := do
  if Current = 0 then
    if ← dispatch_bunch fuel then
      Task.update .queue fun s => { s with time_start := now }
      pure true
    else pure false
  else pure true

theorem bunch_body_run (fuel New storage : Nat) (now : UInt32) (acts : List act) (time : Int)
    (tag : τ) (s : Servo) (h : ServoHistory τ) :
    ((Servo_Add_Action_bunch_body fuel New storage now acts time).history
        (ServoHistory.watch tag)).run (s, h) =
      (enqueue_bunch New storage acts time s).bind fun s₁ =>
        ((begin_bunch fuel now s.Current).history (ServoHistory.watch tag)).run
          (s₁, { h with enqueued := h.enqueued ++ acts }) := by
  rw [Servo_Add_Action_bunch_body, Task.history_bind, Task.run_bind, Task.history_read,
    Task.run_access, Option.bind_some, Task.history_bind, Task.run_bind]
  dsimp only [ServoHistory.watch]
  rw [record_acts_run, Option.bind_some, Task.history_bind, Task.run_bind]
  rw [Task.run_history_await, Option.bind_map]
  rfl

theorem bunch_run {s : Servo} (hs : s.Servo_Lock = false) (fuel New storage : Nat) (now : UInt32)
    (acts : List act) (time : Int) (tag : τ) (h : ServoHistory τ) :
    ((Servo_Add_Action_bunch fuel New storage now acts time).history
        (ServoHistory.watch tag)).run (s, h) =
      (enqueue_bunch New storage acts time { s with Servo_Lock := true }).bind fun s₁ =>
        (((begin_bunch fuel now s.Current).history (ServoHistory.watch tag)).run
          (s₁, { h with enqueued := h.enqueued ++ acts })).map fun r =>
            (r.1, if r.1 then ({ r.2.1 with Servo_Lock := false }, r.2.2) else r.2) := by
  rw [Servo_Add_Action_bunch, Task.history_bind, Task.run_bind, take_run hs, Option.bind_some,
    Task.history_bind, Task.run_bind, bunch_body_run]
  cases enqueue_bunch New storage acts time { s with Servo_Lock := true } with
  | none => rfl
  | some s₁ =>
    rw [Option.bind_some, Option.bind_some]
    dsimp only
    cases ((begin_bunch fuel now s.Current).history (ServoHistory.watch tag)).run
        (s₁, { h with enqueued := h.enqueued ++ acts }) with
    | none => rfl
    | some r =>
      obtain ⟨ended, r'⟩ := r
      cases ended with
      | false => rfl
      | true => rfl

/-- A call of `Servo_Add_Action_bunch`, with the results of the functions that it calls. -/
structure Bunch where
  New : Nat
  storage : Nat
  now : UInt32
  acts : List act
  time : Int

namespace Bunch

def run (fuel : Nat) (c : Bunch) (r : Servo × ServoHistory Unit) :
    Option (Bool × (Servo × ServoHistory Unit)) :=
  ((Servo_Add_Action_bunch fuel c.New c.storage c.now c.acts c.time).history
    (ServoHistory.watch ())).run r

/-- The call ends, and leaves this state. -/
def Ends (c : Bunch) (r r' : Servo × ServoHistory Unit) : Prop :=
  ∃ fuel, c.run fuel r = some (true, r')

section
variable {c : Bunch} {r r' : Servo × ServoHistory Unit} {q : Line Unit}

theorem run_of_busy (hr : RepresentsLine r q) (hq : q.head = some running)
    (hf : Fresh c.New c.storage c.acts r.1) (hv : ∀ a ∈ c.acts, Valid a) (fuel : Nat) :
    let s₂ := c.acts.foldl Servo.remember { r.1 with Servo_Lock := true }
    ∃ s₁ node, New_bunch c.acts c.time { r.1 with Servo_Lock := true } = some (node, s₂) ∧
      link c.New node s₂ = some s₁ ∧
      c.run fuel r = some (true, ({ s₁ with Servo_Lock := false },
        { r.2 with enqueued := r.2.enqueued ++ c.acts })) ∧
      RepresentsLine ({ s₁ with Servo_Lock := false },
        { r.2 with enqueued := r.2.enqueued ++ c.acts }) (q.add () c.now c.acts node.pace) := by
  obtain ⟨s, h⟩ := r
  obtain ⟨cells, hc⟩ := hr.list
  have hC : s.Current ≠ 0 := by
    rw [ne_eq, hr.current_iff, hq]
    exact Option.some_ne_none running
  obtain ⟨s₁, node, hnew, hlink, henq, -, -, ht₁, hp₁, hc₁⟩ :=
    enqueue_bunch_holds (hc.unlock true) hf hv c.time
  refine ⟨s₁, node, hnew, hlink, ?_, ?_⟩
  · rw [run, bunch_run hr.unlocked, henq, Option.bind_some, begin_bunch, if_neg hC]
    rfl
  · have hw := hr.wait hq hc₁ ht₁ hp₁ hv () c.now
    rw [← hr.history] at hw
    exact hw

theorem enqueue_of_idle (hr : RepresentsLine r q) (hq : q.head = none)
    (hf : Fresh c.New c.storage c.acts r.1) (hv : ∀ a ∈ c.acts, Valid a) :
    r.1.Current = 0 ∧ ∃ s₁ node,
      enqueue_bunch c.New c.storage c.acts c.time { r.1 with Servo_Lock := true } = some s₁ ∧
      s₁.heap s₁.Current = some node ∧ node.acts = c.acts ∧ s₁.steppers = q.steppers ∧
      Holds s₁ [c.New] [(c.acts, node.pace)] := by
  obtain ⟨cells, hc⟩ := hr.list
  obtain rfl := Line.nil_of_idle hc hq
  have hC : r.1.Current = 0 := hr.current_iff.2 hq
  obtain ⟨s₁, node, -, -, henq, hacts, hheap, -, hp₁, hc₁⟩ :=
    enqueue_bunch_holds (hc.unlock true) hf hv c.time
  rw [Line.contents, hq] at hc₁
  have hCurrent : s₁.Current = c.New := hc₁.chain.1
  rw [← hCurrent] at hheap
  exact ⟨hC, s₁, node, henq, hheap, hacts, hp₁.trans hr.steppers, hc₁⟩

theorem run_of_idle (hr : RepresentsLine r q) (hq : q.head = none)
    (hf : Fresh c.New c.storage c.acts r.1) (hv : ∀ a ∈ c.acts, Valid a)
    (hacts : c.acts = action :: rest) (fuel : Nat) :
    ∃ r' time, c.run fuel r = some (false, r') ∧
      r'.2.issued = r.2.issued ++ List.replicate fuel ⟨action, time, ()⟩ := by
  obtain ⟨s, h⟩ := r
  obtain ⟨hC, s₁, node, henq, hheap, hnode, -⟩ := enqueue_of_idle hr hq hf hv
  have hva : Valid action := hv action (hacts ▸ List.mem_cons_self)
  obtain ⟨s', hrun⟩ := dispatch_bunch_stuck hva hheap (hnode.trans hacts) fuel ()
    { h with enqueued := h.enqueued ++ c.acts }
  refine ⟨(s', { enqueued := h.enqueued ++ c.acts
                 issued := h.issued ++ List.replicate fuel ⟨action, node.time, ()⟩ }),
    node.time, ?_, rfl⟩
  rw [run, bunch_run hr.unlocked, henq, Option.bind_some, begin_bunch, if_pos hC,
    Task.history_bind, Task.run_bind, hrun]
  rfl

theorem run_of_idle_empty (hr : RepresentsLine r q) (hq : q.head = none)
    (hf : Fresh c.New c.storage c.acts r.1) (hacts : c.acts = []) (fuel : Nat) :
    ∃ r' pace, c.run (fuel + 1) r = some (true, r') ∧
      RepresentsLine r' (q.add () c.now c.acts pace) := by
  obtain ⟨s, h⟩ := r
  have hv : ∀ a ∈ c.acts, Valid a := by
    rw [hacts]
    exact List.forall_mem_nil _
  obtain ⟨hC, s₁, node, henq, hheap, hnode, hp₁, hc₁⟩ := enqueue_of_idle hr hq hf hv
  refine ⟨({ s₁ with time_start := c.now, Servo_Lock := false },
    { h with enqueued := h.enqueued ++ c.acts }), node.pace, ?_, ?_⟩
  · rw [run, bunch_run hr.unlocked, henq, Option.bind_some, begin_bunch, if_pos hC,
      Task.history_bind, Task.run_bind, dispatch_bunch_empty hheap (hnode.trans hacts)]
    rfl
  · rw [Line.add_of_idle hq, hacts]
    rw [hacts] at hc₁
    have hw := hr.idle hq
    refine ⟨⟨[c.New], ?_⟩, ?_, rfl, hp₁, rfl, hr.valid, fun hn => nomatch hn⟩
    · change Holds _ [c.New] (([], node.pace) :: q.waiting)
      rw [hw]
      exact hc₁.congr rfl rfl rfl
    · dsimp only [Line.start, Line.enqueued]
      rw [List.map_nil, List.append_nil, List.append_nil, ← hr.history, List.append_nil]

/-- A call with an action that is none of the servos' or axes' is undefined. -/
theorem run_undefined (hu : r.1.Servo_Lock = false)
    (h : ¬(Fresh c.New c.storage c.acts r.1 ∧ ∀ a ∈ c.acts, Valid a)) (fuel : Nat) :
    c.run fuel r = none := by
  obtain ⟨s, history⟩ := r
  have hnone :
      enqueue_bunch c.New c.storage c.acts c.time { s with Servo_Lock := true } = none := by
    by_cases hv : ∀ a ∈ c.acts, Valid a
    · rw [enqueue_bunch, if_pos]
      by_contra hn
      rw [not_or, not_or] at hn
      exact h ⟨⟨hn.1, fun hne h₀ => hn.2.1 ⟨hne, h₀⟩, not_not.1 hn.2.2⟩, hv⟩
    · exact enqueue_bunch_invalid hv _ _ _ _
  rw [run, bunch_run hu, hnone]
  rfl

theorem run_zero_of_idle (hu : r.1.Servo_Lock = false) (hC : r.1.Current = 0) :
    c.run 0 r ≠ some (true, r') := by
  obtain ⟨s, h⟩ := r
  rw [run, bunch_run hu]
  cases enqueue_bunch c.New c.storage c.acts c.time { s with Servo_Lock := true } with
  | none => exact nofun
  | some s₁ =>
    rw [Option.bind_some, begin_bunch, if_pos hC]
    exact nofun

/-- The calls that end, and what they have done to the queue. -/
theorem Ends.refines (h : c.Ends r r') (hr : RepresentsLine r q) :
    (∀ a ∈ c.acts, Valid a) ∧ (c.acts = [] ∨ r.1.Current ≠ 0) ∧
      ∃ pace, RepresentsLine r' (q.add () c.now c.acts pace) := by
  obtain ⟨fuel, hrun⟩ := h
  by_cases hd : Fresh c.New c.storage c.acts r.1 ∧ ∀ a ∈ c.acts, Valid a
  · obtain ⟨hf, hv⟩ := hd
    cases hq : q.head with
    | none =>
      obtain ⟨hC, -⟩ := enqueue_of_idle hr hq hf hv
      cases hacts : c.acts with
      | nil =>
        cases fuel with
        | zero => exact absurd hrun (run_zero_of_idle hr.unlocked hC)
        | succ fuel =>
          obtain ⟨r₁, pace, hrun₁, hrep⟩ := run_of_idle_empty hr hq hf hacts fuel
          rw [hrun] at hrun₁
          cases hrun₁
          rw [hacts] at hrep
          exact ⟨List.forall_mem_nil _, .inl rfl, pace, hrep⟩
      | cons action rest =>
        obtain ⟨r₁, time, hrun₁, -⟩ := run_of_idle hr hq hf hv hacts fuel
        rw [hrun] at hrun₁
        cases hrun₁
    | some running =>
      have hC : r.1.Current ≠ 0 := by
        rw [ne_eq, hr.current_iff, hq]
        exact Option.some_ne_none running
      obtain ⟨s₁, node, -, -, hrun₁, hrep⟩ := run_of_busy hr hq hf hv fuel
      rw [hrun] at hrun₁
      cases hrun₁
      exact ⟨hv, .inr hC, node.pace, hrep⟩
  · rw [run_undefined hr.unlocked hd] at hrun
    cases hrun

end

end Bunch

/-! ### Runs -/

/-- The calls of a run, and what happens between them. -/
inductive ActionCall where
  | single (c : ServoCall)
  | bunch (fuel : Nat) (c : Bunch)
  /-- what other tasks and interrupts change: the actuators and what is remembered of them -/
  | other (s : Servo)

/-- A call that is undefined or does not end is left out. -/
def ActionCall.step (r : Servo × ServoHistory Unit) : ActionCall → Servo × ServoHistory Unit
  | .single c => ServoCall.step r ((), c)
  | .bunch fuel c =>
    match c.run fuel r with
    | some (true, r') => r'
    | _ => r
  | .other s =>
    ({ s with
        heap := r.1.heap
        Current := r.1.Current
        Last := r.1.Last
        time_start := r.1.time_start
        Servo_Lock := r.1.Servo_Lock }, r.2)

/-- The list on the heap is a queue, and nothing was lost, duplicated or reordered. -/
def Orderly (r : Servo × ServoHistory Unit) : Prop :=
  ∃ q : Line Unit, RepresentsLine r q ∧ q.Exact

theorem orderly_step {r : Servo × ServoHistory Unit} (h : Orderly r) (c : ActionCall) :
    Orderly (c.step r) := by
  obtain ⟨q, hr, hq⟩ := h
  cases c with
  | single c =>
    by_cases ha : c.Allowed r.1
    · cases c with
      | Servo_Add_Action New storage now action time =>
        obtain ⟨r', s₂, node, -, hrun, hrep⟩ := Servo_Add_Action_refines_line hr ha () now time
        have hstep : ServoCall.step r ((), .Servo_Add_Action New storage now action time) = r' := by
          rw [ServoCall.step, ServoCall.run, ServoCall.task, hrun]
          rfl
        rw [ActionCall.step, hstep]
        exact ⟨_, hrep, hq.add () now [action] node.pace⟩
      | Servo_Server now now' =>
        obtain ⟨r', hrun, hrep⟩ := Servo_Server_refines_line hr () now now'
        have hstep : ServoCall.step r ((), .Servo_Server now now') = r' := by
          rw [ServoCall.step, ServoCall.run, ServoCall.task, hrun]
          rfl
        rw [ActionCall.step, hstep]
        exact ⟨_, hrep, hq.serve () now now'⟩
    · rw [ActionCall.step, ServoCall.step, run_of_not_allowed ha]
      exact ⟨q, hr, hq⟩
  | bunch fuel c =>
    rw [ActionCall.step]
    split
    · rename_i r' hrun
      obtain ⟨-, -, pace, hrep⟩ := Bunch.Ends.refines ⟨fuel, hrun⟩ hr
      exact ⟨_, hrep, hq.add () c.now c.acts pace⟩
    · exact ⟨q, hr, hq⟩
  | other s =>
    obtain ⟨⟨cells, hc⟩, history, time_start, -, unlocked, valid, idle⟩ := hr
    refine ⟨{ q with steppers := s.steppers }, ⟨⟨cells, ?_⟩, history, time_start, rfl, unlocked,
      valid, idle⟩, hq.order, hq.idle⟩
    exact hc.congr rfl rfl rfl

theorem orderly_run {r : Servo × ServoHistory Unit} (h : Orderly r) (es : List ActionCall) :
    Orderly (Transition.run ActionCall.step r es) :=
  Transition.run_invariant (I := Orderly) (fun _ c h => orderly_step h c) h es

theorem orderly_empty (s : Servo) :
    Orderly ({ s with Current := 0, Last := 0, Servo_Lock := false }, {}) :=
  ⟨_, representsLine_line.2 (represents_empty s), rfl, fun _ => rfl⟩

/-- The list from `Current` to `Last`, whose head has been dispatched, and the actions that were
enqueued and wait in the other nodes. -/
structure WellQueuedActs (s : Servo) (issued enqueued : List act) : Prop where
  empty : s.Current = 0 ↔ s.Last = 0
  idle : s.Current = 0 → issued = enqueued
  list : s.Current ≠ 0 → ∃ (cells : List Nat) (waiting : List (List act)),
    Chain (next s.heap) s.Current cells s.Last ∧ (cells ++ [s.Last]).Nodup ∧
    next s.heap s.Last = 0 ∧
    (cells ++ [s.Last]).map (fun p => (s.heap p).map action_servo.acts) =
      some [] :: waiting.map some ∧
    issued ++ waiting.flatten = enqueued

theorem Orderly.wellQueued {r : Servo × ServoHistory Unit} (h : Orderly r) :
    WellQueuedActs r.1 (r.2.issued.map Issue.action) r.2.enqueued := by
  obtain ⟨q, hr, hq⟩ := h
  have ho := hq.order
  rw [← hr.history] at ho
  refine ⟨hr.empty, ?_, ?_⟩
  · intro hC
    rw [hq.idle (hr.current_iff.1 hC), List.map_nil, List.flatten_nil, List.append_nil] at ho
    exact ho
  · intro hC
    obtain ⟨xs, hchain, hnodup, hnext, hacts⟩ := hr.cells hC
    refine ⟨xs, q.waiting.map Prod.fst, hchain, hnodup, hnext, ?_, ho⟩
    rw [hacts, List.map_map]
    rfl

/-! ### The two enqueues -/

namespace Bunch

/-- The actions are ones of the servos and axes, there are none or the queue has a head, and a
single one gets the time that `Servo_Add_Action` gives it. -/
def Works (c : Bunch) (s : Servo) : Prop :=
  (∀ a ∈ c.acts, Valid a) ∧ (c.acts = [] ∨ s.Current ≠ 0) ∧
    ∀ a, c.acts = [a] → SameTime a c.time s

end Bunch

def oneRunning : Servo × ServoHistory Unit :=
  Transition.run ActionCall.step ({}, {}) [.single (.Servo_Add_Action 1 1 0 ⟨1, 500⟩ (-1))]

end RobotCar

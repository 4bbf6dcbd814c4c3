import RobotCar.Servo

namespace RobotCar
open Concurrent
set_option autoImplicit true

/-- A command to an actuator. The tag is what is known of the call that gave it. -/
structure Issue (τ : Type) where
  action : act
  time : UInt32
  tag : τ
  deriving DecidableEq, Repr

/-- The actions that were enqueued and the commands that were issued, in order. -/
structure ServoHistory (τ : Type) where
  enqueued : List act := []
  issued : List (Issue τ) := []
  deriving DecidableEq, Repr

/-- A step of a call with the tag `tag`. -/
def ServoHistory.watch (tag : τ) (l : ServoAccess) (_ : Servo) (h : ServoHistory τ) :
    ServoHistory τ :=
  match l with
  | .enqueue action => { h with enqueued := h.enqueued ++ [action] }
  | .command action time => { h with issued := h.issued ++ [⟨action, time, tag⟩] }
  | _ => h

/-! ### The queue as an abstract machine -/

/-- How long an action has to be waited for, and the speed of its axis. -/
structure Pace where
  time : UInt32
  speed : Int
  deriving DecidableEq, Repr

/-- A queue whose head has been dispatched, and the axes that it commands. -/
structure Fifo (τ : Type) where
  head : Option Pace := none
  waiting : List (act × Pace) := []
  time_start : UInt32 := 0
  steppers : Steppers := {}
  history : ServoHistory τ := {}

/-- An axis that is given a speed and a target. -/
def Axis.start (speed steps : Int) (a : Axis) : Axis :=
  { a with current_speed := speed, current_halfstep_left := -2 * steps - a.current_halfstep_total }

def axisOf (action : act) (p : Steppers) : Option Axis :=
  if action.id = 0xFFF0 then some p.axis1
  else if action.id = 0xFFF1 then some p.axis2
  else none

/-- What the dispatch of an action does to the axes. -/
def moveAxis (speed : Int) (action : act) (p : Steppers) : Steppers :=
  let steps := action.value.toInt32.toInt
  if action.id = 0xFFF0 then { p with axis1 := p.axis1.start speed steps }
  else if action.id = 0xFFF1 then { p with axis2 := p.axis2.start speed steps }
  else p

def moveAxes (speed : Int) (acts : List act) (p : Steppers) : Steppers :=
  acts.foldl (fun p action => moveAxis speed action p) p

theorem axisOf_eq_some {p : Steppers} : axisOf action p = some a ↔
    action.id = 0xFFF0 ∧ p.axis1 = a ∨ action.id = 0xFFF1 ∧ p.axis2 = a := by
  unfold axisOf
  by_cases h₁ : action.id = 0xFFF0
  · simp [h₁]
  · by_cases h₂ : action.id = 0xFFF1
    · simp [h₂]
    · simp [h₁, h₂]

theorem axisOf_moveAxis (speed : Int) (action : act) (p : Steppers) :
    axisOf action (moveAxis speed action p) =
      (axisOf action p).map (Axis.start speed action.value.toInt32.toInt) := by
  unfold axisOf moveAxis
  by_cases h₁ : action.id = 0xFFF0
  · simp only [if_pos h₁, Option.map_some]
  · by_cases h₂ : action.id = 0xFFF1
    · simp only [if_neg h₁, if_pos h₂, Option.map_some]
    · simp only [if_neg h₁, if_neg h₂, Option.map_none]

namespace Fifo

/-- An action is dispatched at once when the queue is empty, and waits otherwise. -/
def add (tag : τ) (now : UInt32) (action : act) (pace : Pace) (q : Fifo τ) : Fifo τ :=
  match q.head with
  | none =>
    { q with
      head := some pace
      time_start := now
      steppers := moveAxis pace.speed action q.steppers
      history :=
        ⟨q.history.enqueued ++ [action], q.history.issued ++ [⟨action, pace.time, tag⟩]⟩ }
  | some _ =>
    { q with
      waiting := q.waiting ++ [(action, pace)]
      history := { q.history with enqueued := q.history.enqueued ++ [action] } }

/-- The head leaves when its time is over, and the next action is dispatched. -/
def serve (tag : τ) (now now' : UInt32) (q : Fifo τ) : Fifo τ :=
  match q.head with
  | none => q
  | some pace =>
    if now - q.time_start ≥ pace.time then
      match q.waiting with
      | [] => { q with head := none }
      | (action, pace) :: waiting =>
        { q with
          head := some pace
          waiting := waiting
          time_start := now'
          steppers := moveAxis pace.speed action q.steppers
          history := { q.history with issued := q.history.issued ++ [⟨action, pace.time, tag⟩] } }
    else q

section Calls
variable {q : Fifo τ} {pace : Pace} {tag : τ} {now now' : UInt32}

theorem add_of_idle (hq : q.head = none) :
    q.add tag now action pace =
      { q with
        head := some pace
        time_start := now
        steppers := moveAxis pace.speed action q.steppers
        history :=
          ⟨q.history.enqueued ++ [action], q.history.issued ++ [⟨action, pace.time, tag⟩]⟩ } := by
  rw [add, hq]

theorem add_of_busy (hq : q.head = some running) :
    q.add tag now action pace =
      { q with
        waiting := q.waiting ++ [(action, pace)]
        history := { q.history with enqueued := q.history.enqueued ++ [action] } } := by
  rw [add, hq]

theorem serve_of_idle (hq : q.head = none) : q.serve tag now now' = q := by
  rw [serve, hq]

theorem serve_of_not_due (hq : q.head = some pace) (h : ¬now - q.time_start ≥ pace.time) :
    q.serve tag now now' = q := by
  rw [serve, hq]
  exact if_neg h

theorem serve_last (hq : q.head = some pace) (h : now - q.time_start ≥ pace.time)
    (hw : q.waiting = []) : q.serve tag now now' = { q with head := none } := by
  rw [serve, hq]
  dsimp only
  rw [if_pos h, hw]

theorem serve_next (hq : q.head = some pace) (h : now - q.time_start ≥ pace.time)
    (hw : q.waiting = w :: ws) :
    q.serve tag now now' =
      { q with
        head := some w.2
        waiting := ws
        time_start := now'
        steppers := moveAxis w.2.speed w.1 q.steppers
        history := { q.history with issued := q.history.issued ++ [⟨w.1, w.2.time, tag⟩] } } := by
  rw [serve, hq]
  dsimp only
  rw [if_pos h, hw]

end Calls

end Fifo

/-! ### Queues whose nodes hold several actions -/

/-- A queue whose head has been dispatched, and whose nodes hold any number of actions. -/
structure Line (τ : Type) where
  head : Option Pace := none
  waiting : List (List act × Pace) := []
  time_start : UInt32 := 0
  steppers : Steppers := {}
  history : ServoHistory τ := {}

namespace Line

/-- The actions of a node are dispatched, and it is the new head. -/
def start (tag : τ) (now : UInt32) (acts : List act) (pace : Pace) (q : Line τ) : Line τ :=
  { q with
    head := some pace
    time_start := now
    steppers := moveAxes pace.speed acts q.steppers
    history := { q.history with
      issued := q.history.issued ++ acts.map fun action => ⟨action, pace.time, tag⟩ } }

def enqueued (acts : List act) (q : Line τ) : Line τ :=
  { q with history := { q.history with enqueued := q.history.enqueued ++ acts } }

/-- A node is dispatched at once when the queue is empty, and waits otherwise. -/
def add (tag : τ) (now : UInt32) (acts : List act) (pace : Pace) (q : Line τ) : Line τ :=
  match q.head with
  | none => (q.enqueued acts).start tag now acts pace
  | some _ => { q.enqueued acts with waiting := q.waiting ++ [(acts, pace)] }

/-- The head leaves when its time is over, and the next node is dispatched. -/
def serve (tag : τ) (now now' : UInt32) (q : Line τ) : Line τ :=
  match q.head with
  | none => q
  | some pace =>
    if now - q.time_start ≥ pace.time then
      match q.waiting with
      | [] => { q with head := none }
      | (acts, pace) :: waiting => { q with waiting := waiting }.start tag now' acts pace
    else q

section Calls
variable {q : Line τ} {pace : Pace} {tag : τ} {now now' : UInt32}

theorem add_of_idle (hq : q.head = none) :
    q.add tag now acts pace = (q.enqueued acts).start tag now acts pace := by
  rw [add, hq]

theorem add_of_busy (hq : q.head = some running) :
    q.add tag now acts pace = { q.enqueued acts with waiting := q.waiting ++ [(acts, pace)] } := by
  rw [add, hq]

theorem serve_of_idle (hq : q.head = none) : q.serve tag now now' = q := by
  rw [serve, hq]

theorem serve_of_due (hq : q.head = some pace) (h : now - q.time_start ≥ pace.time) :
    q.serve tag now now' =
      match q.waiting with
      | [] => { q with head := none }
      | (acts, pace) :: waiting => { q with waiting := waiting }.start tag now' acts pace := by
  rw [serve, hq]
  exact if_pos h

theorem serve_of_not_due (hq : q.head = some pace) (h : ¬now - q.time_start ≥ pace.time) :
    q.serve tag now now' = q := by
  rw [serve, hq]
  exact if_neg h

end Calls

/-- Nothing is lost, duplicated or reordered. -/
structure Exact (q : Line τ) : Prop where
  order : q.history.issued.map Issue.action ++ (q.waiting.map Prod.fst).flatten =
    q.history.enqueued
  idle : q.head = none → q.waiting = []

theorem start_actions (q : Line τ) (tag : τ) (now : UInt32) (acts : List act) (pace : Pace) :
    (q.start tag now acts pace).history.issued.map Issue.action =
      q.history.issued.map Issue.action ++ acts := by
  have hacts : (acts.map fun action => (⟨action, pace.time, tag⟩ : Issue τ)).map Issue.action =
      acts := by
    rw [List.map_map]
    exact List.map_id acts
  rw [start, List.map_append, hacts]

theorem add_enqueued (q : Line τ) (tag : τ) (now : UInt32) (acts : List act) (pace : Pace) :
    (q.add tag now acts pace).history.enqueued = q.history.enqueued ++ acts := by
  cases hq : q.head with
  | none =>
    rw [add_of_idle hq]
    rfl
  | some head =>
    rw [add_of_busy hq]
    rfl

theorem Exact.add {q : Line τ} (h : q.Exact) (tag : τ) (now : UInt32) (acts : List act)
    (pace : Pace) : (q.add tag now acts pace).Exact := by
  have ho := h.order
  cases hq : q.head with
  | none =>
    have hw := h.idle hq
    rw [hw, List.map_nil, List.flatten_nil, List.append_nil] at ho
    rw [add_of_idle hq]
    constructor
    · rw [start_actions]
      change q.history.issued.map Issue.action ++ acts ++ (q.waiting.map Prod.fst).flatten =
        q.history.enqueued ++ acts
      rw [hw, List.map_nil, List.flatten_nil, List.append_nil, ho]
    · intro hn
      exact absurd hn (Option.some_ne_none _)
  | some head =>
    rw [add_of_busy hq]
    constructor
    · change q.history.issued.map Issue.action ++
        ((q.waiting ++ [(acts, pace)]).map Prod.fst).flatten = q.history.enqueued ++ acts
      rw [List.map_append, List.flatten_append, ← List.append_assoc, ho, List.map_singleton,
        List.flatten_singleton]
    · intro hn
      exact absurd (hq.symm.trans hn) (Option.some_ne_none head)

theorem Exact.serve {q : Line τ} (h : q.Exact) (tag : τ) (now now' : UInt32) :
    (q.serve tag now now').Exact := by
  cases hq : q.head with
  | none =>
    rw [serve_of_idle hq]
    exact h
  | some pace =>
    by_cases hdue : now - q.time_start ≥ pace.time
    · have ho := h.order
      rw [serve_of_due hq hdue]
      cases hw : q.waiting with
      | nil =>
        rw [hw] at ho
        exact ⟨ho, fun _ => rfl⟩
      | cons w waiting =>
        rw [hw, List.map_cons, List.flatten_cons, ← List.append_assoc] at ho
        constructor
        · rw [start_actions]
          exact ho
        · intro hn
          exact absurd hn (Option.some_ne_none _)
    · rw [serve_of_not_due hq hdue]
      exact h

end Line

def Fifo.line (q : Fifo τ) : Line τ where
  head := q.head
  waiting := q.waiting.map fun w => ([w.1], w.2)
  time_start := q.time_start
  steppers := q.steppers
  history := q.history

theorem Fifo.line_add (tag : τ) (now : UInt32) (action : act) (pace : Pace) (q : Fifo τ) :
    (q.add tag now action pace).line = q.line.add tag now [action] pace := by
  cases hq : q.head with
  | none =>
    rw [add_of_idle hq, Line.add, Fifo.line, Fifo.line, hq]
    rfl
  | some head =>
    rw [add_of_busy hq, Line.add, Fifo.line, Fifo.line, hq, List.map_append]
    rfl

theorem Fifo.line_serve (tag : τ) (now now' : UInt32) (q : Fifo τ) :
    (q.serve tag now now').line = q.line.serve tag now now' := by
  cases hq : q.head with
  | none =>
    rw [serve_of_idle hq, Line.serve, Fifo.line, hq]
  | some pace =>
    have hline : q.line.head = some pace := hq
    rw [Line.serve, hline]
    dsimp only
    by_cases hdue : now - q.time_start ≥ pace.time
    · have hdue' : now - q.line.time_start ≥ pace.time := hdue
      rw [if_pos hdue']
      cases hw : q.waiting with
      | nil =>
        rw [serve_last hq hdue hw, Fifo.line, Fifo.line, hw]
        rfl
      | cons w waiting =>
        rw [serve_next hq hdue hw, Fifo.line, Fifo.line, hw]
        rfl
    · rw [serve_of_not_due hq hdue]
      exact (if_neg hdue).symm

structure Fifo.Exact (q : Fifo τ) : Prop where
  order : q.history.issued.map Issue.action ++ q.waiting.map Prod.fst = q.history.enqueued
  idle : q.head = none → q.waiting = []

theorem Fifo.exact_line {q : Fifo τ} : q.line.Exact ↔ q.Exact := by
  have hflat : (q.line.waiting.map Prod.fst).flatten = q.waiting.map Prod.fst := by
    rw [Fifo.line, List.map_map, ← List.flatMap_def, List.map_eq_flatMap]
    rfl
  have hidle : q.line.waiting = [] ↔ q.waiting = [] := List.map_eq_nil_iff
  constructor
  · rintro ⟨order, idle⟩
    rw [hflat] at order
    exact ⟨order, fun hq => hidle.1 (idle hq)⟩
  · rintro ⟨order, idle⟩
    rw [← hflat] at order
    exact ⟨order, fun hq => hidle.2 (idle hq)⟩

theorem Fifo.Exact.add {q : Fifo τ} (h : q.Exact) (tag : τ) (now : UInt32) (action : act)
    (pace : Pace) : (q.add tag now action pace).Exact := by
  rw [← exact_line, line_add]
  exact (exact_line.2 h).add tag now [action] pace

theorem Fifo.Exact.serve {q : Fifo τ} (h : q.Exact) (tag : τ) (now now' : UInt32) :
    (q.serve tag now now').Exact := by
  rw [← exact_line, line_serve]
  exact (exact_line.2 h).serve tag now now'

end RobotCar

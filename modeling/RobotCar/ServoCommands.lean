import RobotCar.ServoWire

namespace RobotCar
open Concurrent Transition
set_option autoImplicit true

/-! ### What the axes are told -/

/-- The dispatch of an action, at the speed that goes with the time it was enqueued with. -/
def moveTimed (p : Steppers) (x : act × Int) : Steppers := moveAxis (stepper_speed x.2) x.1 p

theorem New_action_moves {s s₁ : Servo}
    (h : New_action action.id action.value time s = some (node, s₁)) (p : Steppers) :
    moveAxis node.pace.speed action p = moveTimed p (action, time) := by
  unfold New_action at h
  dsimp only at h
  split at h
  · cases h
    rfl
  split at h
  · cases h
    rfl
  · rename_i h₁ h₂
    have hstay (speed : Int) : moveAxis speed action p = p := (if_neg h₁).trans (if_neg h₂)
    rw [moveTimed, hstay, hstay]

def Asks (w : act × Pace) (x : act × Int) : Prop :=
  w.1 = x.1 ∧ ∀ p, moveAxis w.2.speed x.1 p = moveTimed p x

namespace Fifo

/-- The requests are those that were dispatched, whose axes have been moved, and the rest that
waits. -/
structure Moved (q : Fifo Unit) (p : Steppers) (moved rest : List (act × Int)) : Prop where
  issued : moved.map Prod.fst = q.history.issued.map Issue.action
  steppers : q.steppers = moved.foldl moveTimed p
  waiting : List.Forall₂ Asks q.waiting rest

theorem Moved.dispatch {q : Fifo Unit} (h : q.Moved p moved rest)
    (hx : ∀ p, moveAxis pace.speed x.1 p = moveTimed p x) (hw : List.Forall₂ Asks ws rest')
    (now : UInt32) (enqueued : List act) :
    Moved
      { head := some pace
        waiting := ws
        time_start := now
        steppers := moveAxis pace.speed x.1 q.steppers
        history := ⟨enqueued, q.history.issued ++ [⟨x.1, pace.time, ()⟩]⟩ }
      p (moved ++ [x]) rest' := by
  refine ⟨?_, ?_, hw⟩
  · rw [List.map_append, h.issued, List.map_append]
    rfl
  · change moveAxis pace.speed x.1 q.steppers = _
    rw [hx, h.steppers, List.foldl_concat]

theorem Moved.add {q : Fifo Unit} (h : q.Moved p moved rest) (he : q.Exact) (now : UInt32)
    {action : act} {time : Int} {pace : Pace}
    (hx : ∀ p, moveAxis pace.speed action p = moveTimed p (action, time)) :
    ∃ moved' rest', (q.add () now action pace).Moved p moved' rest' ∧
      moved' ++ rest' = moved ++ rest ++ [(action, time)] := by
  have hwaiting := h.waiting
  cases hq : q.head with
  | none =>
    rw [he.idle hq, List.forall₂_nil_left_iff] at hwaiting
    rw [add_of_idle hq, he.idle hq, hwaiting, List.append_nil]
    exact ⟨_, [], h.dispatch (x := (action, time)) hx .nil now _, List.append_nil _⟩
  | some running =>
    rw [add_of_busy hq]
    refine ⟨moved, rest ++ [(action, time)], ⟨h.issued, h.steppers, ?_⟩,
      (List.append_assoc _ _ _).symm⟩
    exact List.rel_append hwaiting (.cons ⟨rfl, hx⟩ .nil)

theorem Moved.serve {q : Fifo Unit} (h : q.Moved p moved rest) (now now' : UInt32) :
    ∃ moved' rest', (q.serve () now now').Moved p moved' rest' ∧
      moved' ++ rest' = moved ++ rest := by
  cases hq : q.head with
  | none =>
    rw [serve_of_idle hq]
    exact ⟨_, _, h, rfl⟩
  | some pace =>
    by_cases hdue : now - q.time_start ≥ pace.time
    · have hwaiting := h.waiting
      cases hw : q.waiting with
      | nil =>
        rw [serve_last hq hdue hw]
        exact ⟨_, _, ⟨h.issued, h.steppers, hwaiting⟩, rfl⟩
      | cons w ws =>
        rw [hw] at hwaiting
        obtain ⟨x, xs, ⟨hfst, hx⟩, hxs, rfl⟩ := List.forall₂_cons_left_iff.1 hwaiting
        rw [serve_next hq hdue hw, hfst]
        refine ⟨_, xs, h.dispatch hx hxs now' _, ?_⟩
        rw [List.append_assoc, List.singleton_append]
    · rw [serve_of_not_due hq hdue]
      exact ⟨_, _, h, rfl⟩

end Fifo

/-! ### The requests and the commands of a run -/

namespace ServoCall

def request (r : Servo × ServoHistory Unit) (c : ServoCall) : List (act × Int) :=
  match c with
  | .Servo_Add_Action _ _ _ action time => if (c.run r ()).isSome then [(action, time)] else []
  | .Servo_Server _ _ => []

def record (r : (Servo × ServoHistory Unit) × List (act × Int)) (c : ServoCall) :
    (Servo × ServoHistory Unit) × List (act × Int) :=
  (step r.1 ((), c), r.2 ++ request r.1 c)

end ServoCall

/-- The actuators have been told the first of the requests, one command for each that was
dispatched: the axes their speeds and targets, and the servos a frame each. -/
structure Commanded (s s' : Servo) (h : ServoHistory Unit) (requests : List (act × Int)) :
    Prop where
  enqueued : requests.map Prod.fst = h.enqueued
  axes : s'.steppers = (requests.take h.issued.length).foldl moveTimed s.steppers
  servos : ∃ frames, s'.bus.sent = s.bus.sent ++ frames ∧
    List.Forall₂ PosWritten (h.issued.filter fun i => IsServo i.action) frames

/-- Between two calls of a run from `s`. -/
structure CallsRecorded (s : Servo) (r : (Servo × ServoHistory Unit) × List (act × Int))
    (q : Fifo Unit) : Prop where
  represents : Represents r.1 q
  exact : q.Exact
  moved : ∃ moved rest, q.Moved s.steppers moved rest ∧ moved ++ rest = r.2
  wBuf : r.1.1.bus.wBuf.bytes = []
  frames : ∃ frames, r.1.1.bus.sent = s.bus.sent ++ frames ∧
    List.Forall₂ PosWritten (r.1.2.issued.filter fun i => IsServo i.action) frames

theorem speaks_ServoCall (c : ServoCall) : SpeaksTask (fun s => s.bus.wBuf.bytes = []) c.task := by
  cases c with
  | Servo_Add_Action New storage now action time =>
    apply speaks_Servo_Add_Action betweenFrames_wBuf
    intro s s' h hb
    rw [enqueue_frame h]
    exact hb
  | Servo_Server now now' => exact speaks_Servo_Server betweenFrames_wBuf now now'

theorem CallsRecorded.frames_run {s : Servo} {c : ServoCall} (h : CallsRecorded s r q)
    (hrun : c.run r.1 () = some ((), r')) :
    r'.1.bus.wBuf.bytes = [] ∧ ∃ frames, r'.1.bus.sent = s.bus.sent ++ frames ∧
      List.Forall₂ PosWritten (r'.2.issued.filter fun i => IsServo i.action) frames := by
  obtain ⟨frames, hsent, hframes⟩ := h.frames
  obtain ⟨hb, issues, frames', hissued, hsent', hframes'⟩ :=
    speaks_ServoCall c r.1 () r' hrun h.wBuf
  refine ⟨hb, frames ++ frames', ?_, ?_⟩
  · rw [hsent', hsent, List.append_assoc]
  · rw [hissued, List.filter_append]
    exact List.rel_append hframes hframes'

theorem recorded_step (s : Servo) (r : (Servo × ServoHistory Unit) × List (act × Int))
    (c : ServoCall) (h : ∃ q, CallsRecorded s r q) :
    ∃ q, CallsRecorded s (ServoCall.record r c) q := by
  obtain ⟨q, h⟩ := h
  obtain ⟨moved, rest, hmoved, hrequests⟩ := h.moved
  by_cases ha : c.Allowed r.1.1
  · cases c with
    | Servo_Add_Action New storage now action time =>
      obtain ⟨r', s₂, node, hnew, hrun, hrep⟩ :=
        Servo_Add_Action_refines h.represents ha () now time
      obtain ⟨moved', rest', hmoved', happend⟩ :=
        hmoved.add h.exact now (New_action_moves hnew)
      have hcall : (ServoCall.Servo_Add_Action New storage now action time).run r.1 () =
        some ((), r') := hrun
      obtain ⟨hb, hframes⟩ := h.frames_run hcall
      have hrecord : ServoCall.record r (.Servo_Add_Action New storage now action time) =
          (r', r.2 ++ [(action, time)]) := by
        rw [ServoCall.record, ServoCall.step, ServoCall.request, hcall]
        rfl
      rw [hrecord]
      exact ⟨_, hrep, h.exact.add () now action node.pace,
        ⟨moved', rest', hmoved', by rw [happend, hrequests]⟩, hb, hframes⟩
    | Servo_Server now now' =>
      obtain ⟨r', hrun, hrep⟩ := Servo_Server_refines h.represents () now now'
      obtain ⟨moved', rest', hmoved', happend⟩ := hmoved.serve now now'
      have hcall : (ServoCall.Servo_Server now now').run r.1 () = some ((), r') := hrun
      obtain ⟨hb, hframes⟩ := h.frames_run hcall
      have hrecord : ServoCall.record r (.Servo_Server now now') = (r', r.2) := by
        rw [ServoCall.record, ServoCall.step, ServoCall.request, hcall, List.append_nil]
        rfl
      rw [hrecord]
      exact ⟨_, hrep, h.exact.serve () now now',
        ⟨moved', rest', hmoved', by rw [happend, hrequests]⟩, hb, hframes⟩
  · have hrecord : ServoCall.record r c = r := by
      have hnone := run_of_not_allowed ha ()
      cases c with
      | Servo_Add_Action New storage now action time =>
        rw [ServoCall.record, ServoCall.step, ServoCall.request, hnone]
        exact Prod.ext rfl (List.append_nil r.2)
      | Servo_Server now now' => exact absurd trivial ha
    rw [hrecord]
    exact ⟨q, h⟩

theorem CallsRecorded.commanded {s : Servo} (h : CallsRecorded s r q) :
    Commanded s r.1.1 r.1.2 r.2 := by
  obtain ⟨moved, rest, hmoved, hrequests⟩ := h.moved
  have hrest : q.waiting.map Prod.fst = rest.map Prod.fst := by
    rw [← List.forall₂_eq_eq_eq, List.forall₂_map_left_iff, List.forall₂_map_right_iff]
    exact hmoved.waiting.imp fun _ _ h => h.1
  refine ⟨?_, ?_, h.frames⟩
  · rw [h.represents.history, ← h.exact.order, ← hrequests, List.map_append, hmoved.issued, hrest]
  · have hlength : moved.length = r.1.2.issued.length := by
      rw [h.represents.history, ← List.length_map Prod.fst, hmoved.issued, List.length_map]
    rw [h.represents.steppers, hmoved.steppers, ← hrequests, ← hlength, List.take_left]

/-- After any calls the queue is well formed and nothing is lost, duplicated or reordered, the
actuators have been told what was issued, and no call with addresses that are free and an action
for the servos ends undefined. -/
theorem servo_queue_exact (s : Servo) (es : List ServoCall) :
    let r := run ServoCall.record
      (({ s with
          Current := 0
          Last := 0
          Servo_Lock := false
          bus := { s.bus with wBuf := {} } }, {}), []) es
    WellQueued r.1.1 (r.1.2.issued.map Issue.action) r.1.2.enqueued ∧
      Commanded s r.1.1 r.1.2 r.2 ∧
      ∀ c : ServoCall, c.Allowed r.1.1 → (c.run r.1 ()).isSome := by
  intro r
  have hstart : CallsRecorded s
      (({ s with
          Current := 0
          Last := 0
          Servo_Lock := false
          bus := { s.bus with wBuf := {} } }, {}), [])
      { time_start := s.time_start, steppers := s.steppers } :=
    ⟨represents_empty { s with bus := { s.bus with wBuf := {} } }, ⟨rfl, fun _ => rfl⟩,
      ⟨[], [], ⟨rfl, rfl, .nil⟩, rfl⟩, rfl, [], (List.append_nil _).symm, .nil⟩
  obtain ⟨q, h⟩ := run_invariant (recorded_step s) ⟨_, hstart⟩ es
  refine ⟨h.represents.wellQueued h.exact, h.commanded, ?_⟩
  intro c ha
  obtain ⟨r', q', hrun, -⟩ := run_refines h.represents ha ()
  rw [hrun]
  rfl

end RobotCar

import RobotCar.Lib.Chain
import RobotCar.ScsFrames
import RobotCar.ServoFifo

namespace RobotCar
open Concurrent Linked
set_option autoImplicit true

/-! ### The list on the heap -/

def next (heap : Nat → Option action_servo) (p : Nat) : Nat :=
  ((heap p).map action_servo.Next).getD 0

def action_servo.pace (node : action_servo) : Pace := ⟨node.time, node.speed⟩

def content (heap : Nat → Option action_servo) (p : Nat) : Option (List act × Pace) :=
  (heap p).map fun node => (node.acts, node.pace)

/-- The queue consists of these nodes, and they hold these actions and times. -/
structure Holds (s : Servo) (cells : List Nat) (contents : List (List act × Pace)) : Prop where
  chain : Chain (next s.heap) s.Current cells 0
  last : s.Last = cells.getLast?.getD 0
  nodup : cells.Nodup
  nonnull : 0 ∉ cells
  nodes : cells.map (content s.heap) = contents.map some

theorem Holds.congr {s s' : Servo} (h : Holds s cells contents) (hheap : s'.heap = s.heap)
    (hCurrent : s'.Current = s.Current) (hLast : s'.Last = s.Last) : Holds s' cells contents := by
  refine ⟨?_, hLast.trans h.last, h.nodup, h.nonnull, ?_⟩
  · rw [hheap, hCurrent]
    exact h.chain
  · rw [hheap]
    exact h.nodes

theorem Holds.heap_isSome {s : Servo} (h : Holds s cells contents) (hp : p ∈ cells) :
    ∃ node, s.heap p = some node := by
  have hc : content s.heap p ∈ contents.map some := h.nodes ▸ List.mem_map_of_mem hp
  obtain ⟨c, -, hc⟩ := List.mem_map.1 hc
  cases hs : s.heap p with
  | none =>
    rw [content, hs] at hc
    exact absurd hc (Option.some_ne_none _)
  | some node => exact ⟨node, rfl⟩

theorem Holds.current_eq_zero {s : Servo} (h : Holds s cells contents) :
    s.Current = 0 ↔ cells = [] := by
  cases cells with
  | nil => exact ⟨fun _ => rfl, fun _ => h.chain⟩
  | cons p ps =>
    have hp : s.Current = p := h.chain.1
    constructor
    · intro hc
      exact absurd (hp.symm.trans hc ▸ List.mem_cons_self) h.nonnull
    · intro hn
      exact absurd hn (List.cons_ne_nil p ps)

theorem Holds.ends {s : Servo} (h : Holds s (xs ++ [x]) contents) :
    s.Current ≠ 0 ∧ s.Last = x ∧ x ≠ 0 := by
  refine ⟨?_, ?_, ?_⟩
  · rw [ne_eq, h.current_eq_zero]
    exact List.append_ne_nil_of_right_ne_nil xs (List.cons_ne_nil x [])
  · rw [h.last, List.getLast?_concat, Option.getD_some]
  · exact fun h₀ => h.nonnull (h₀ ▸ List.mem_concat_self)

theorem Holds.head {s : Servo} (h : Holds s (p :: ps) ((acts, pace) :: contents)) :
    ∃ node, s.heap s.Current = some node ∧ node.acts = acts ∧ node.pace = pace ∧
      node.Next = ps.headD 0 := by
  have hp : s.Current = p := h.chain.1
  obtain ⟨node, hnode⟩ := h.heap_isSome List.mem_cons_self
  have hc : content s.heap p = some (acts, pace) := (List.cons.inj h.nodes).1
  rw [content, hnode] at hc
  obtain ⟨hacts, hpace⟩ := Prod.mk.inj (Option.some.inj hc)
  have hnext : next s.heap p = node.Next := by rw [next, hnode, Option.map_some, Option.getD_some]
  have hps := h.chain.2
  rw [hnext] at hps
  refine ⟨node, hp ▸ hnode, hacts, hpace, ?_⟩
  cases ps with
  | nil => exact hps
  | cons q ps => exact hps.1

theorem next_update (heap : Nat → Option action_servo) (p : Nat) (node : action_servo) :
    next (Function.update heap p (some node)) = Function.update (next heap) p node.Next := by
  funext x
  by_cases hx : x = p
  · rw [hx, Function.update_self, next, Function.update_self, Option.map_some, Option.getD_some]
  · rw [Function.update_of_ne hx, next, Function.update_of_ne hx, next]

theorem content_update (heap : Nat → Option action_servo) (p : Nat) (node : action_servo) :
    content (Function.update heap p (some node)) =
      Function.update (content heap) p (some (node.acts, node.pace)) := by
  funext x
  by_cases hx : x = p
  · rw [hx, Function.update_self, content, Function.update_self, Option.map_some]
  · rw [Function.update_of_ne hx, content, Function.update_of_ne hx, content]

theorem map_update_of_notMem [DecidableEq α] {l : List α} (f : α → β) (b : β) (h : a ∉ l) :
    l.map (Function.update f a b) = l.map f := by
  apply List.map_congr_left
  intro x hx
  have hne : x ≠ a := fun he => h (he ▸ hx)
  exact Function.update_of_ne hne b f

theorem Holds.notMem {s : Servo} (h : Holds s cells contents) (hfree : s.heap p = none) :
    p ∉ cells := by
  intro hc
  obtain ⟨node, hnode⟩ := h.heap_isSome hc
  rw [hfree] at hnode
  exact absurd hnode.symm (Option.some_ne_none node)

theorem holds_singleton {s : Servo} (hNew : New ≠ 0) (hC : s.Current = New) (hL : s.Last = New)
    (hheap : s.heap New = some node) (hnext : node.Next = 0) :
    Holds s [New] [(node.acts, node.pace)] := by
  refine ⟨⟨hC, ?_⟩, hL, List.nodup_singleton New, ?_, ?_⟩
  · rw [chain_nil, next, hheap]
    exact hnext
  · intro h₀
    exact hNew (List.mem_singleton.1 h₀).symm
  · rw [List.map_singleton, content, hheap]
    rfl

theorem holds_concat {s s' : Servo} {node last : action_servo}
    (h : Holds s (xs ++ [x]) contents) (hNew : New ≠ 0) (hfree : s.heap New = none)
    (hx : s.heap x = some last) (hnext : node.Next = 0) (hC : s'.Current = s.Current)
    (hL : s'.Last = New)
    (hheap : s'.heap = Function.update (Function.update s.heap x (some { last with Next := New }))
      New (some node)) :
    Holds s' (xs ++ [x] ++ [New]) (contents ++ [(node.acts, node.pace)]) := by
  have hfresh : New ∉ xs ++ [x] := h.notMem hfree
  have hxs : x ∉ xs := by
    intro hm
    exact (List.nodup_append.1 h.nodup).2.2 x hm x (List.mem_singleton_self x) rfl
  refine ⟨?_, ?_, ?_, ?_, ?_⟩
  · rw [hC, hheap, next_update, chain_concat, Function.update_self]
    refine ⟨?_, hnext⟩
    have hrelink := h.chain.relink hxs New
    rw [next_update]
    apply hrelink.congr
    intro y hy
    have hyN : y ≠ New := fun he => hfresh (he ▸ hy)
    exact Function.update_of_ne hyN _ _
  · rw [hL, List.getLast?_concat, Option.getD_some]
  · apply List.nodup_append.2
    refine ⟨h.nodup, List.nodup_singleton New, ?_⟩
    intro y hy z hz he
    rw [List.mem_singleton] at hz
    exact hfresh (hz ▸ he ▸ hy)
  · intro h₀
    rcases List.mem_append.1 h₀ with h₀ | h₀
    · exact h.nonnull h₀
    · exact hNew (List.mem_singleton.1 h₀).symm
  · let linked : action_servo := { last with Next := New }
    have hcx : content s.heap x = some (linked.acts, linked.pace) := by
      rw [content, hx, Option.map_some]
      rfl
    rw [hheap, content_update, List.map_append, map_update_of_notMem _ _ hfresh, content_update,
      ← hcx, Function.update_eq_self, h.nodes, List.map_singleton, Function.update_self,
      List.map_append]
    rfl

theorem holds_link {s : Servo} {node : action_servo} (h : Holds s cells contents)
    (hNew : New ≠ 0) (hfree : s.heap New = none) (hnext : node.Next = 0) :
    ∃ s', link New node s = some s' ∧
      s' = { s with heap := s'.heap, Last := s'.Last, Current := s'.Current } ∧
      Holds s' (cells ++ [New]) (contents ++ [(node.acts, node.pace)]) := by
  rcases List.eq_nil_or_concat cells with hc | ⟨xs, x, hc⟩
  · subst hc
    have hC : s.Current = 0 := h.chain
    have hL : s.Last = 0 := h.last
    have hcs : contents = [] := List.map_eq_nil_iff.1 h.nodes.symm
    subst hcs
    rw [link, if_pos hL]
    exact ⟨_, rfl, rfl, holds_singleton hNew (if_pos hC) rfl (Function.update_self ..) hnext⟩
  · rw [List.concat_eq_append] at hc
    subst hc
    obtain ⟨hC, hL, hx₀⟩ := h.ends
    obtain ⟨last, hx⟩ := h.heap_isSome (p := x) List.mem_concat_self
    rw [link, hL, if_neg hx₀, hx, Option.map_some]
    exact ⟨_, rfl, rfl, holds_concat h hNew hfree hx hnext (if_neg hC) rfl rfl⟩

theorem holds_retire {s : Servo} (h : Holds s (p :: ps) (c :: contents)) :
    Holds (retire (ps.headD 0) s) ps contents := by
  have hp : s.Current = p := h.chain.1
  have hps : p ∉ ps := (List.nodup_cons.1 h.nodup).1
  have hheap : ∀ x ∈ ps, (retire (ps.headD 0) s).heap x = s.heap x := by
    intro x hx
    have hne : x ≠ s.Current := fun he => hps (hp ▸ he ▸ hx)
    exact Function.update_of_ne hne none s.heap
  have hchain : Chain (next s.heap) (ps.headD 0) ps 0 := by
    have hc := h.chain.2
    cases ps with
    | nil => rfl
    | cons q ps => exact ⟨rfl, hc.2⟩
  have hnonnull : 0 ∉ ps := fun h₀ => h.nonnull (List.mem_cons_of_mem p h₀)
  refine ⟨?_, ?_, (List.nodup_cons.1 h.nodup).2, hnonnull, ?_⟩
  · apply hchain.congr
    intro x hx
    rw [next, hheap x hx, next]
  · cases ps with
    | nil => rfl
    | cons q ps =>
      have hq : q ≠ 0 := fun h₀ => hnonnull (h₀ ▸ List.mem_cons_self)
      have hl := h.last
      rw [List.getLast?_cons_cons] at hl
      exact (if_neg hq).trans hl
  · rw [← (List.cons.inj h.nodes).2]
    apply List.map_congr_left
    intro x hx
    rw [content, hheap x hx, content]

theorem holds_erase_first {s : Servo} (h : Holds s (p :: ps) ((a :: acts, pace) :: contents)) :
    Holds (erase_first s) (p :: ps) ((acts, pace) :: contents) := by
  obtain ⟨node, hnode, hacts, hpace, hnext⟩ := h.head
  have hp : s.Current = p := h.chain.1
  have hps : p ∉ ps := (List.nodup_cons.1 h.nodup).1
  have hheap : (erase_first s).heap =
      Function.update s.heap p (some { node with acts := node.acts.tail }) := by
    rw [erase_first, hnode, hp]
    rfl
  have hnp : next s.heap p = node.Next := by
    rw [← hp, next, hnode, Option.map_some, Option.getD_some]
  refine ⟨?_, h.last, h.nodup, h.nonnull, ?_⟩
  · rw [hheap, next_update]
    apply h.chain.congr
    intro x _
    rw [← hnp]
    exact congrFun (Function.update_eq_self p (next s.heap)) x
  · rw [hheap, content_update, List.map_cons, Function.update_self,
      map_update_of_notMem _ _ hps, (List.cons.inj h.nodes).2, hacts, ← hpace]
    rfl

/-! ### The functions refine the abstract machine -/

/-- The actions that the functions can dispatch. -/
def Valid (action : act) : Prop :=
  action.id.toNat < 10 ∨ action.id = 0xFFF0 ∨ action.id = 0xFFF1

instance (action : act) : Decidable (Valid action) := inferInstanceAs (Decidable (_ ∨ _))

theorem WritePos_run {tag : τ} (hID : ID.toNat < 10) (s : Servo) (h : ServoHistory τ) :
    ∃ bus, ((WritePos ID Position Time Speed).history (ServoHistory.watch tag)).run (s, h) =
      some ((), ({ s with bus := bus }, h)) := by
  have hscs {t : Task BusAccess Bus Int} (ht : t.NeverWaits) :
      ∃ bus, ((do let _ ← t.zoom .scs Servo.busPart : Task ServoAccess Servo Unit).history
        (ServoHistory.watch tag)).run (s, h) = some ((), ({ s with bus := bus }, h)) := by
    have hw (l : BusAccess) (s : Servo) (h : ServoHistory τ) :
        ServoHistory.watch tag (.scs l) s h = h := rfl
    obtain ⟨a, bus, hr⟩ :=
      Task.run_history_zoom_of_neverWaits ht ServoAccess.scs Servo.busPart hw s h
    refine ⟨bus, ?_⟩
    rw [Task.history_bind, Task.run_bind, hr]
    rfl
  have hseq : (get_array_seq ID.toUInt32).toNat < 10 := by
    rw [get_array_seq, UInt8.toNat_toUInt32]
    exact hID
  rw [WritePos, Task.history_bind, Task.run_bind, Task.history_read, Task.run_access,
    Option.bind_some]
  dsimp only
  rw [dif_pos hseq]
  split
  · exact hscs (neverWaits_genWrite _ _ _ _)
  · split
    · exact hscs (neverWaits_genWrite _ _ _ _)
    · exact hscs (neverWaits_genWrite _ _ _ _)

theorem axis_run (p : Task.Part Steppers Axis) (speed steps : Int) (tag : τ) (s : Servo)
    (h : ServoHistory τ) :
    ((do
        ((Axis.set_speed speed).zoom id p).zoom ServoAccess.axis Servo.steppersPart
        ((Axis.set_stepper steps).zoom id p).zoom ServoAccess.axis
          Servo.steppersPart).history (ServoHistory.watch tag)).run (s, h) =
      some ((),
        ({ s with steppers := p.set ((p.get s.steppers).start speed steps) s.steppers }, h)) := by
  have hw (l : AxisAccess) (s : Servo) (h : ServoHistory τ) :
      ServoHistory.watch tag (.axis l) s h = h := rfl
  rw [Task.history_bind, Task.run_bind, Task.run_history_zoom _ _ _ hw, Task.run_zoom]
  simp only [Axis.set_speed, Task.run_update, Option.map_some, Option.bind_some]
  rw [Task.run_history_zoom _ _ _ hw, Task.run_zoom]
  simp only [Axis.set_stepper, Task.run_bind, Task.run_read, Task.run_update, Option.map_some,
    Option.bind_some, Task.Part.get_set, Task.Part.set_set]
  rfl

theorem command_run {action : act} (hv : Valid action) (tag : τ) (time : UInt32) (speed : Int)
    (s : Servo) (h : ServoHistory τ) :
    ∃ bus,
      ((command time speed action).history (ServoHistory.watch tag)).run (s, h) =
        some ((), ({ s with steppers := moveAxis speed action s.steppers, bus := bus },
          { h with issued := h.issued ++ [⟨action, time, tag⟩] })) := by
  rw [command, Task.history_bind, Task.run_bind, Task.history_update, Task.run_update,
    Option.bind_some]
  dsimp only [id, ServoHistory.watch]
  rcases hv with hid | hid | hid
  · have hlt : action.id < 0xFFF0 := by
      rw [UInt32.lt_iff_toNat_lt]
      exact hid.trans (by decide)
    have hID : action.id.toUInt8.toNat < 10 := by
      rw [UInt32.toNat_toUInt8]
      omega
    have hstay : moveAxis speed action s.steppers = s.steppers := by
      have h₁ : action.id ≠ 0xFFF0 := fun he => absurd (he ▸ hid) (by decide)
      have h₂ : action.id ≠ 0xFFF1 := fun he => absurd (he ▸ hid) (by decide)
      exact (if_neg h₁).trans (if_neg h₂)
    obtain ⟨bus, hr⟩ := WritePos_run hID s _
    rw [if_pos hlt, hstay]
    exact ⟨bus, hr⟩
  · have hmove : moveAxis speed action s.steppers = _ := if_pos hid
    rw [hmove, hid, if_neg (by decide), if_pos rfl]
    exact ⟨s.bus, axis_run Steppers.part1 speed _ tag s _⟩
  · have hmove : moveAxis speed action s.steppers = _ :=
      (if_neg (by rw [hid]; decide)).trans (if_pos hid)
    rw [hmove, hid, if_neg (by decide), if_neg (by decide), if_pos rfl]
    exact ⟨s.bus, axis_run Steppers.part2 speed _ tag s _⟩

theorem dispatch_acts_run {acts : List act} {s : Servo} (hv : ∀ action ∈ acts, Valid action)
    (hs : Holds s (p :: ps) ((acts, pace) :: contents)) (tag : τ) (h : ServoHistory τ) :
    ∃ s', ((dispatch pace.time pace.speed acts).history (ServoHistory.watch tag)).run (s, h) =
        some ((), (s',
          { h with issued := h.issued ++ acts.map fun action => ⟨action, pace.time, tag⟩ })) ∧
      Holds s' (p :: ps) (([], pace) :: contents) ∧
      s'.steppers = moveAxes pace.speed acts s.steppers := by
  induction acts generalizing s h with
  | nil => exact ⟨s, by rw [List.map_nil, List.append_nil]; rfl, hs, rfl⟩
  | cons action acts ih =>
    obtain ⟨hva, hvs⟩ := List.forall_mem_cons.1 hv
    obtain ⟨bus, hr⟩ := command_run hva tag pace.time pace.speed s h
    let s₁ : Servo := { s with steppers := moveAxis pace.speed action s.steppers, bus := bus }
    have hs₁ : Holds s₁ (p :: ps) ((action :: acts, pace) :: contents) := hs.congr rfl rfl rfl
    obtain ⟨s', hrun, hs', hsteppers⟩ := ih hvs (holds_erase_first hs₁)
      { h with issued := h.issued ++ [⟨action, pace.time, tag⟩] }
    refine ⟨s', ?_, hs', hsteppers⟩
    rw [dispatch, Task.history_bind, Task.run_bind, hr, Option.bind_some, Task.history_bind,
      Task.run_bind, Task.history_update, Task.run_update, Option.bind_some]
    dsimp only [ServoHistory.watch]
    rw [hrun, List.append_assoc]
    rfl

theorem dispatch_run {acts : List act} {s : Servo} (hv : ∀ action ∈ acts, Valid action)
    (hs : Holds s (p :: ps) ((acts, pace) :: contents)) (tag : τ) (h : ServoHistory τ) :
    ∃ s', (dispatch_Current.history (ServoHistory.watch tag)).run (s, h) =
        some ((), (s',
          { h with issued := h.issued ++ acts.map fun action => ⟨action, pace.time, tag⟩ })) ∧
      Holds s' (p :: ps) (([], pace) :: contents) ∧
      s'.steppers = moveAxes pace.speed acts s.steppers := by
  obtain ⟨node, hnode, rfl, rfl, -⟩ := hs.head
  obtain ⟨s', hrun, hs'⟩ := dispatch_acts_run hv hs tag h
  refine ⟨s', ?_, hs'⟩
  rw [dispatch_Current, Task.history_bind, Task.run_bind, Task.history_read, Task.run_access,
    Option.bind_some, hnode]
  exact hrun

def Fifo.contents (q : Fifo τ) : List (List act × Pace) :=
  match q.head with
  | none => []
  | some pace => ([], pace) :: q.waiting.map fun w => ([w.1], w.2)

def Line.contents (q : Line τ) : List (List act × Pace) :=
  match q.head with
  | none => []
  | some pace => ([], pace) :: q.waiting

theorem Fifo.line_contents (q : Fifo τ) : q.line.contents = q.contents := by
  cases hq : q.head with
  | none => rw [Line.contents, Fifo.contents, Fifo.line, hq]
  | some pace => rw [Line.contents, Fifo.contents, Fifo.line, hq]

namespace Line

theorem nil_of_idle {s : Servo} {q : Line τ} (h : Holds s cells q.contents)
    (hq : q.head = none) : cells = [] := by
  rw [contents, hq] at h
  exact List.map_eq_nil_iff.1 h.nodes

theorem cons_of_busy {s : Servo} {q : Line τ} (h : Holds s cells q.contents)
    (hq : q.head = some pace) :
    ∃ p ps, cells = p :: ps ∧ Holds s (p :: ps) (([], pace) :: q.waiting) := by
  rw [contents, hq] at h
  cases cells with
  | nil => exact absurd h.nodes.symm (List.cons_ne_nil _ _)
  | cons p ps => exact ⟨p, ps, rfl, h⟩

end Line

theorem Holds.cons_of_busy {s : Servo} {q : Fifo τ} (h : Holds s cells q.contents)
    (hq : q.head = some pace) :
    ∃ p ps, cells = p :: ps ∧
      Holds s (p :: ps) (([], pace) :: q.waiting.map fun w => ([w.1], w.2)) := by
  rw [← q.line_contents] at h
  exact Line.cons_of_busy h hq

/-- Between two calls, the variables and the list on the heap represent the abstract queue. -/
structure Represents (r : Servo × ServoHistory τ) (q : Fifo τ) : Prop where
  list : ∃ cells, Holds r.1 cells q.contents
  history : r.2 = q.history
  time_start : r.1.time_start = q.time_start
  steppers : r.1.steppers = q.steppers
  unlocked : r.1.Servo_Lock = false
  valid : ∀ w ∈ q.waiting, Valid w.1
  idle : q.head = none → q.waiting = []

structure RepresentsLine (r : Servo × ServoHistory τ) (q : Line τ) : Prop where
  list : ∃ cells, Holds r.1 cells q.contents
  history : r.2 = q.history
  time_start : r.1.time_start = q.time_start
  steppers : r.1.steppers = q.steppers
  unlocked : r.1.Servo_Lock = false
  valid : ∀ w ∈ q.waiting, ∀ action ∈ w.1, Valid action
  idle : q.head = none → q.waiting = []

theorem representsLine_line {r : Servo × ServoHistory τ} {q : Fifo τ} :
    RepresentsLine r q.line ↔ Represents r q := by
  have hvalid : (∀ w ∈ q.line.waiting, ∀ action ∈ w.1, Valid action) ↔
      ∀ w ∈ q.waiting, Valid w.1 := by
    simp only [Fifo.line, List.forall_mem_map, List.forall_mem_singleton]
  have hidle : (q.line.head = none → q.line.waiting = []) ↔ (q.head = none → q.waiting = []) := by
    simp only [Fifo.line, List.map_eq_nil_iff]
  constructor
  · rintro ⟨list, history, time_start, steppers, unlocked, valid, idle⟩
    rw [q.line_contents] at list
    exact ⟨list, history, time_start, steppers, unlocked, hvalid.1 valid, hidle.1 idle⟩
  · rintro ⟨list, history, time_start, steppers, unlocked, valid, idle⟩
    rw [← q.line_contents] at list
    exact ⟨list, history, time_start, steppers, unlocked, hvalid.2 valid, hidle.2 idle⟩

theorem RepresentsLine.current_iff {r : Servo × ServoHistory τ} {q : Line τ}
    (h : RepresentsLine r q) : r.1.Current = 0 ↔ q.head = none := by
  obtain ⟨cells, hc⟩ := h.list
  rw [hc.current_eq_zero]
  cases hq : q.head with
  | none => exact ⟨fun _ => rfl, fun _ => Line.nil_of_idle hc hq⟩
  | some pace =>
    obtain ⟨p, ps, rfl, -⟩ := Line.cons_of_busy hc hq
    constructor
    · intro hn
      exact absurd hn (List.cons_ne_nil p ps)
    · intro hn
      exact absurd hn (Option.some_ne_none pace)

theorem Represents.current_iff {r : Servo × ServoHistory τ} {q : Fifo τ} (h : Represents r q) :
    r.1.Current = 0 ↔ q.head = none :=
  (representsLine_line.2 h).current_iff

theorem take_run {s : Servo} (hs : s.Servo_Lock = false) (tag : τ) (h : ServoHistory τ) :
    (xSemaphoreTake.history (ServoHistory.watch tag)).run (s, h) =
      some ((), ({ s with Servo_Lock := true }, h)) := by
  rw [xSemaphoreTake, Task.run_history_await, if_neg (Bool.eq_false_iff.1 hs)]
  rfl

theorem take_run_locked {s : Servo} (hs : s.Servo_Lock = true) (tag : τ) (h : ServoHistory τ) :
    (xSemaphoreTake.history (ServoHistory.watch tag)).run (s, h) = none := by
  rw [xSemaphoreTake, Task.run_history_await, if_pos hs]
  rfl

theorem locked_run {body : Task ServoAccess Servo Unit} {tag : τ} {s s' : Servo}
    (hs : s.Servo_Lock = false)
    (hb : (body.history (ServoHistory.watch tag)).run ({ s with Servo_Lock := true }, h) =
      some ((), (s', h'))) :
    ((do xSemaphoreTake; body; xSemaphoreGive).history (ServoHistory.watch tag)).run (s, h) =
      some ((), ({ s' with Servo_Lock := false }, h')) := by
  rw [Task.history_bind, Task.run_bind, take_run hs, Option.bind_some, Task.history_bind,
    Task.run_bind, hb]
  rfl

theorem Holds.unlock {s : Servo} (h : Holds s cells contents) (locked : Bool) :
    Holds { s with Servo_Lock := locked } cells contents := h.congr rfl rfl rfl

theorem begin_run {s : Servo} {q : Line τ} (hc : Holds s (p :: ps) ((acts, pace) :: q.waiting))
    (hp : s.steppers = q.steppers) (hva : ∀ action ∈ acts, Valid action)
    (hv : ∀ w ∈ q.waiting, ∀ action ∈ w.1, Valid action) (tag : τ) (now' : UInt32) :
    ∃ s' h', ((do
          dispatch_Current
          Task.update .queue fun s => { s with time_start := now' }).history
            (ServoHistory.watch tag)).run (s, q.history) = some ((), (s', h')) ∧
      RepresentsLine ({ s' with Servo_Lock := false }, h') (q.start tag now' acts pace) := by
  obtain ⟨s', hd, hc', hs'⟩ := dispatch_run hva hc tag q.history
  have hc'' : Holds { s' with time_start := now', Servo_Lock := false } (p :: ps)
      (([], pace) :: q.waiting) := hc'.congr rfl rfl rfl
  rw [Task.history_bind, Task.run_bind, hd, Option.bind_some]
  rw [hp] at hs'
  exact ⟨_, _, rfl, ⟨⟨p :: ps, hc''⟩, rfl, rfl, hs', rfl, hv,
    fun hn => absurd hn (Option.some_ne_none pace)⟩⟩

theorem next_run {s : Servo} {q : Line τ} (tag : τ) (now' : UInt32) (hc : Holds s ps q.waiting)
    (ht : s.time_start = q.time_start) (hp : s.steppers = q.steppers)
    (hv : ∀ w ∈ q.waiting, ∀ action ∈ w.1, Valid action) :
    ∃ s' h', ((if ps.headD 0 ≠ 0 then do
          dispatch_Current
          Task.update .queue fun s => { s with time_start := now' }
        else pure ()).history (ServoHistory.watch tag)).run (s, q.history) = some ((), (s', h')) ∧
      RepresentsLine ({ s' with Servo_Lock := false }, h')
        (match q.waiting with
          | [] => { q with head := none }
          | (acts, pace) :: waiting => { q with waiting := waiting }.start tag now' acts pace) := by
  cases hw : q.waiting with
  | nil =>
    rw [hw] at hc
    obtain rfl : ps = [] := List.map_eq_nil_iff.1 hc.nodes
    have hn : ¬([] : List Nat).headD 0 ≠ 0 := not_not.2 rfl
    rw [if_neg hn]
    exact ⟨_, _, rfl,
      ⟨⟨[], hc.unlock false⟩, rfl, ht, hp, rfl, List.forall_mem_nil _, fun _ => rfl⟩⟩
  | cons w waiting =>
    obtain ⟨acts, pace⟩ := w
    rw [hw] at hc hv
    cases ps with
    | nil => exact absurd hc.nodes.symm (List.cons_ne_nil _ _)
    | cons p ps =>
      have hp₀ : (p :: ps).headD 0 ≠ 0 := fun h₀ => hc.nonnull (h₀ ▸ List.mem_cons_self)
      obtain ⟨hva, hvw⟩ := List.forall_mem_cons.1 hv
      rw [if_pos hp₀]
      exact begin_run (q := { q with waiting := waiting }) hc hp hva hvw tag now'

theorem Servo_Server_body_run {r : Servo × ServoHistory τ} {q : Line τ} (hr : RepresentsLine r q)
    (tag : τ) (now now' : UInt32) :
    ∃ s' h', ((Servo_Server_body now now').history (ServoHistory.watch tag)).run
        ({ r.1 with Servo_Lock := true }, r.2) = some ((), (s', h')) ∧
      RepresentsLine ({ s' with Servo_Lock := false }, h') (q.serve tag now now') := by
  obtain ⟨s, h⟩ := r
  have hr₀ := hr
  obtain ⟨⟨cells, hc⟩, rfl, ht, hp, hu, hv, hi⟩ := hr
  dsimp only at hc ht hp hu
  have hsame : RepresentsLine ({ s with Servo_Lock := false }, q.history) q := by
    rw [← hu]
    exact hr₀
  rw [Servo_Server_body, Task.history_bind, Task.run_bind, Task.history_read, Task.run_access,
    Option.bind_some]
  dsimp only [id, ServoHistory.watch]
  cases hq : q.head with
  | none =>
    have hC : s.Current = 0 := hr₀.current_iff.2 hq
    rw [Line.serve_of_idle hq, if_neg (not_not.2 hC)]
    exact ⟨_, _, rfl, hsame⟩
  | some pace =>
    obtain ⟨p, ps, rfl, hbusy⟩ := Line.cons_of_busy hc hq
    have hC : s.Current ≠ 0 := by
      rw [ne_eq, hr₀.current_iff, hq]
      exact Option.some_ne_none pace
    obtain ⟨node, hnode, -, rfl, hnext⟩ := hbusy.head
    rw [if_pos hC, hnode]
    dsimp only
    by_cases he : now - s.time_start ≥ node.time
    · have he' : now - q.time_start ≥ node.pace.time := ht ▸ he
      rw [if_pos he, Task.history_bind, Task.run_bind, Task.history_update, Task.run_update,
        Option.bind_some, hnext, Line.serve_of_due hq he']
      have hret : Holds (retire (ps.headD 0) { s with Servo_Lock := true }) ps q.waiting :=
        holds_retire (hbusy.unlock true)
      exact next_run tag now' hret ht hp hv
    · have he' : ¬now - q.time_start ≥ node.pace.time := ht ▸ he
      rw [if_neg he, Line.serve_of_not_due hq he']
      exact ⟨_, _, rfl, hsame⟩

theorem Servo_Server_refines_line {r : Servo × ServoHistory τ} {q : Line τ}
    (hr : RepresentsLine r q) (tag : τ) (now now' : UInt32) :
    ∃ r', ((Servo_Server now now').history (ServoHistory.watch tag)).run r = some ((), r') ∧
      RepresentsLine r' (q.serve tag now now') := by
  obtain ⟨s', h', hrun, hrep⟩ := Servo_Server_body_run hr tag now now'
  exact ⟨_, locked_run hr.unlocked hrun, hrep⟩

theorem Servo_Server_refines {r : Servo × ServoHistory τ} {q : Fifo τ} (hr : Represents r q)
    (tag : τ) (now now' : UInt32) :
    ∃ r', ((Servo_Server now now').history (ServoHistory.watch tag)).run r = some ((), r') ∧
      Represents r' (q.serve tag now now') := by
  obtain ⟨r', hrun, hrep⟩ := Servo_Server_refines_line (representsLine_line.2 hr) tag now now'
  rw [← q.line_serve] at hrep
  exact ⟨r', hrun, representsLine_line.1 hrep⟩

/-- The new node holds its one action, and filling it leaves the queue as it is. -/
theorem New_action_eq {s s₁ : Servo}
    (h : New_action action.id action.value time s = some (node, s₁)) :
    Valid action ∧ node.Next = 0 ∧ node.acts = [action] ∧ s₁.heap = s.heap ∧
      s₁.Current = s.Current ∧ s₁.Last = s.Last ∧ s₁.time_start = s.time_start ∧
      s₁.steppers = s.steppers := by
  unfold New_action at h
  dsimp only at h
  split at h
  · rename_i hid
    cases h
    exact ⟨.inr (.inl hid), rfl, rfl, rfl, rfl, rfl, rfl, rfl⟩
  split at h
  · rename_i hid
    cases h
    exact ⟨.inr (.inr hid), rfl, rfl, rfl, rfl, rfl, rfl, rfl⟩
  split at h
  · rename_i hid
    cases h
    exact ⟨.inl hid, rfl, rfl, rfl, rfl, rfl, rfl, rfl⟩
  · cases h

/-- What an action gets when it is enqueued on an empty queue, for the axis that it moves. -/
def idlePace (action : act) (time : Int) (a : Axis) : Pace :=
  ⟨UInt32.ofInt (stepper_time action.value.toInt32.toInt a.get_steps (stepper_speed time)),
    stepper_speed time⟩

theorem New_action_pace {s s₁ : Servo} (hC : s.Current = 0)
    (h : New_action action.id action.value time s = some (node, s₁))
    (ha : axisOf action s.steppers = some a) : node.pace = idlePace action time a := by
  unfold New_action at h
  dsimp only at h
  rcases axisOf_eq_some.1 ha with ⟨hid, rfl⟩ | ⟨hid, rfl⟩
  · rw [if_pos hid] at h
    cases h
    rw [action_servo.pace, if_pos hC]
    rfl
  · have hid' : action.id ≠ 0xFFF0 := by
      rw [hid]
      decide
    rw [if_neg hid', if_pos hid] at h
    cases h
    rw [action_servo.pace, if_pos hC]
    rfl

theorem New_action_isSome {action : act} (hv : Valid action) (time : Int) (s : Servo) :
    ∃ node s₁, New_action action.id action.value time s = some (node, s₁) := by
  unfold New_action
  by_cases h₁ : action.id = 0xFFF0
  · exact ⟨_, _, if_pos h₁⟩
  by_cases h₂ : action.id = 0xFFF1
  · exact ⟨_, _, (if_neg h₁).trans (if_pos h₂)⟩
  have hid : (get_array_seq action.id).toNat < 10 := by
    rcases hv with hv | hv | hv
    · exact hv
    · exact absurd hv h₁
    · exact absurd hv h₂
  exact ⟨_, _, (if_neg h₁).trans ((if_neg h₂).trans (dif_pos hid))⟩

/-- The addresses are what the allocator may return, and the action is one for the servos. -/
def Allowed (New storage : Nat) (action : act) (s : Servo) : Prop :=
  New ≠ 0 ∧ storage ≠ 0 ∧ s.heap New = none ∧ Valid action

instance (New storage : Nat) (action : act) (s : Servo) :
    Decidable (Allowed New storage action s) := inferInstanceAs (Decidable (_ ∧ _ ∧ _ ∧ _))

theorem enqueue_holds {s : Servo} (hc : Holds s cells contents)
    (ha : Allowed New storage action s) (time : Int) :
    ∃ s₁ s₂ node, New_action action.id action.value time s = some (node, s₂) ∧
      enqueue New storage action.id action.value time s = some s₁ ∧
      s₁.time_start = s.time_start ∧ s₁.steppers = s.steppers ∧
      Holds s₁ (cells ++ [New]) (contents ++ [([action], node.pace)]) := by
  obtain ⟨hNew, hstorage, hfree, hv⟩ := ha
  obtain ⟨node, s₂, hnew⟩ := New_action_isSome hv time s
  obtain ⟨-, hnext, hacts, hheap, hCurrent, hLast, htime, hsteppers⟩ := New_action_eq hnew
  have hc₂ : Holds s₂ cells contents := hc.congr hheap hCurrent hLast
  obtain ⟨s₁, hlink, hs₁, hc₁⟩ := holds_link hc₂ hNew (hheap ▸ hfree) hnext
  have hn : ¬(New = 0 ∨ storage = 0 ∨ s.heap New ≠ none) := by
    intro h
    rcases h with h | h | h
    · exact hNew h
    · exact hstorage h
    · exact h hfree
  rw [hacts] at hc₁
  refine ⟨s₁, s₂, node, hnew, ?_, ?_, ?_, hc₁⟩
  · rw [enqueue, if_neg hn, hnew, Option.bind_some, hlink]
  · rw [hs₁]
    exact htime
  · rw [hs₁]
    exact hsteppers

theorem RepresentsLine.wait {s s₁ : Servo} {q : Line τ} (hr : RepresentsLine (s, h) q)
    (hq : q.head = some running) (hc : Holds s₁ cells (q.contents ++ [(acts, pace)]))
    (ht : s₁.time_start = s.time_start) (hp : s₁.steppers = s.steppers)
    (hva : ∀ action ∈ acts, Valid action) (tag : τ) (now : UInt32) :
    RepresentsLine
      ({ s₁ with Servo_Lock := false }, { q.history with enqueued := q.history.enqueued ++ acts })
      (q.add tag now acts pace) := by
  rw [Line.contents, hq] at hc
  rw [Line.add_of_busy hq]
  refine ⟨⟨cells, ?_⟩, rfl, ht.trans hr.time_start, hp.trans hr.steppers, rfl, ?_, fun hn => ?_⟩
  · rw [Line.contents, Line.enqueued, hq]
    exact hc.unlock false
  · intro w hw
    rcases List.mem_append.1 hw with hw | hw
    · exact hr.valid w hw
    · rw [List.mem_singleton.1 hw]
      exact hva
  · exact absurd (hq.symm.trans hn) (Option.some_ne_none running)

theorem Servo_Add_Action_body_run {r : Servo × ServoHistory τ} {q : Line τ}
    (hr : RepresentsLine r q) (ha : Allowed New storage action r.1) (tag : τ) (now : UInt32)
    (time : Int) :
    ∃ s' h' s₂ node,
      New_action action.id action.value time { r.1 with Servo_Lock := true } = some (node, s₂) ∧
      ((Servo_Add_Action_body New storage now action.id action.value time).history
        (ServoHistory.watch tag)).run ({ r.1 with Servo_Lock := true }, r.2) =
          some ((), (s', h')) ∧
      RepresentsLine ({ s' with Servo_Lock := false }, h') (q.add tag now [action] node.pace) := by
  obtain ⟨s, h⟩ := r
  have hr₀ := hr
  obtain ⟨⟨cells, hc⟩, rfl, ht, hp, -, hv, hi⟩ := hr
  dsimp only at hc ht hp
  obtain ⟨s₁, s₂, node, hnew, henq, ht₁, hp₁, hc₁⟩ := enqueue_holds (hc.unlock true) ha time
  have hva : ∀ a ∈ [action], Valid a := List.forall_mem_singleton.2 ha.2.2.2
  have hawait : ((Task.await (.enqueue action)
      (enqueue New storage action.id action.value time)).history (ServoHistory.watch tag)).run
        ({ s with Servo_Lock := true }, q.history) =
          some ((), (s₁, (q.enqueued [action]).history)) := by
    rw [Task.run_history_await, henq]
    rfl
  rw [Servo_Add_Action_body, Task.history_bind, Task.run_bind, Task.history_read,
    Task.run_access, Option.bind_some, Task.history_bind, Task.run_bind]
  dsimp only [ServoHistory.watch]
  rw [hawait, Option.bind_some]
  cases hq : q.head with
  | none =>
    obtain rfl : cells = [] := Line.nil_of_idle hc hq
    have hC : s.Current = 0 := hr₀.current_iff.2 hq
    have hone : Holds s₁ [New] (([action], node.pace) :: (q.enqueued [action]).waiting) := by
      change Holds s₁ [New] (([action], node.pace) :: q.waiting)
      rw [Line.contents, hq] at hc₁
      rw [hi hq]
      exact hc₁
    rw [if_pos hC]
    obtain ⟨s', h', hrun, hrep⟩ := begin_run hone (hp₁.trans hp) hva hv tag now
    rw [← Line.add_of_idle hq] at hrep
    exact ⟨s', h', s₂, node, hnew, hrun, hrep⟩
  | some head =>
    have hC : s.Current ≠ 0 := by
      rw [ne_eq, hr₀.current_iff, hq]
      exact Option.some_ne_none head
    rw [if_neg hC]
    exact ⟨_, _, s₂, node, hnew, rfl, hr₀.wait hq hc₁ ht₁ hp₁ hva tag now⟩

theorem Servo_Add_Action_refines_line {r : Servo × ServoHistory τ} {q : Line τ}
    (hr : RepresentsLine r q) (ha : Allowed New storage action r.1) (tag : τ) (now : UInt32)
    (time : Int) :
    ∃ r' s₂ node,
      New_action action.id action.value time { r.1 with Servo_Lock := true } = some (node, s₂) ∧
      ((Servo_Add_Action New storage now action.id action.value time).history
        (ServoHistory.watch tag)).run r = some ((), r') ∧
      RepresentsLine r' (q.add tag now [action] node.pace) := by
  obtain ⟨s', h', s₂, node, hnew, hrun, hrep⟩ := Servo_Add_Action_body_run hr ha tag now time
  exact ⟨_, s₂, node, hnew, locked_run hr.unlocked hrun, hrep⟩

theorem Servo_Add_Action_refines {r : Servo × ServoHistory τ} {q : Fifo τ}
    (hr : Represents r q) (ha : Allowed New storage action r.1) (tag : τ) (now : UInt32)
    (time : Int) :
    ∃ r' s₂ node,
      New_action action.id action.value time { r.1 with Servo_Lock := true } = some (node, s₂) ∧
      ((Servo_Add_Action New storage now action.id action.value time).history
        (ServoHistory.watch tag)).run r = some ((), r') ∧
      Represents r' (q.add tag now action node.pace) := by
  obtain ⟨r', s₂, node, hnew, hrun, hrep⟩ :=
    Servo_Add_Action_refines_line (representsLine_line.2 hr) ha tag now time
  rw [← q.line_add] at hrep
  exact ⟨r', s₂, node, hnew, hrun, representsLine_line.1 hrep⟩

theorem Represents.idle_pace {r : Servo × ServoHistory τ} {q : Fifo τ} (hr : Represents r q)
    (hnew : New_action action.id action.value time { r.1 with Servo_Lock := true } =
      some (node, s₂)) (hq : q.head = none) (a : Axis) (ha : axisOf action q.steppers = some a) :
    node.pace = idlePace action time a := by
  have hC : r.1.Current = 0 := hr.current_iff.2 hq
  rw [← hr.steppers] at ha
  exact New_action_pace (s := { r.1 with Servo_Lock := true }) hC hnew ha

/-! ### Runs -/

/-- The calls that use the queue, with the results of the functions that they call. -/
inductive ServoCall where
  | Servo_Add_Action (New storage : Nat) (now : UInt32) (action : act) (time : Int)
  | Servo_Server (now now' : UInt32)

namespace ServoCall

def task : ServoCall → Task ServoAccess Servo Unit
  | .Servo_Add_Action New storage now action time =>
    RobotCar.Servo_Add_Action New storage now action.id action.value time
  | .Servo_Server now now' => RobotCar.Servo_Server now now'

def Allowed (s : Servo) : ServoCall → Prop
  | .Servo_Add_Action New storage _ action _ => RobotCar.Allowed New storage action s
  | .Servo_Server _ _ => True

def run (r : Servo × ServoHistory τ) (tag : τ) (c : ServoCall) :
    Option (Unit × (Servo × ServoHistory τ)) :=
  (c.task.history (ServoHistory.watch tag)).run r

def step (r : Servo × ServoHistory τ) (e : τ × ServoCall) : Servo × ServoHistory τ :=
  ((e.2.run r e.1).map Prod.snd).getD r

end ServoCall

/-- One call on the abstract queue: one that is not allowed is left out. -/
def Fifo.Step (q : Fifo τ) (e : τ × ServoCall) (q' : Fifo τ) : Prop :=
  match e.2 with
  | .Servo_Add_Action _ _ now action time => q' = q ∨ ∃ pace, q' = q.add e.1 now action pace ∧
    (q.head = none → ∀ a, axisOf action q.steppers = some a → pace = idlePace action time a)
  | .Servo_Server now now' => q' = q.serve e.1 now now'

theorem run_refines {r : Servo × ServoHistory τ} {q : Fifo τ} (hr : Represents r q)
    {c : ServoCall} (ha : c.Allowed r.1) (tag : τ) :
    ∃ r' q', c.run r tag = some ((), r') ∧ Represents r' q' ∧ q.Step (tag, c) q' := by
  cases c with
  | Servo_Add_Action New storage now action time =>
    obtain ⟨r', s₂, node, hnew, hrun, hrep⟩ := Servo_Add_Action_refines hr ha tag now time
    exact ⟨r', _, hrun, hrep, .inr ⟨node.pace, rfl, hr.idle_pace hnew⟩⟩
  | Servo_Server now now' =>
    obtain ⟨r', hrun, hrep⟩ := Servo_Server_refines hr tag now now'
    exact ⟨r', _, hrun, hrep, rfl⟩

theorem run_of_not_allowed {r : Servo × ServoHistory τ} {c : ServoCall} (ha : ¬c.Allowed r.1)
    (tag : τ) : c.run r tag = none := by
  cases c with
  | Servo_Server now now' => exact absurd trivial ha
  | Servo_Add_Action New storage now action time =>
    obtain ⟨s, h⟩ := r
    have henq (s' : Servo) (hs : s'.heap = s.heap) :
        enqueue New storage action.id action.value time s' = none := by
      unfold enqueue
      split
      · rfl
      · rename_i hn
        cases hnew : New_action action.id action.value time s' with
        | none => rfl
        | some r =>
          obtain ⟨node, s₁⟩ := r
          obtain ⟨hv, -⟩ := New_action_eq hnew
          have hNew : New ≠ 0 := fun h₀ => hn (.inl h₀)
          have hstorage : storage ≠ 0 := fun h₀ => hn (.inr (.inl h₀))
          have hfree : s'.heap New = none := not_not.1 fun h₀ => hn (.inr (.inr h₀))
          exact absurd ⟨hNew, hstorage, hs ▸ hfree, hv⟩ ha
    change ((Servo_Add_Action New storage now action.id action.value time).history _).run _ = none
    rw [Servo_Add_Action, Task.history_bind, Task.run_bind]
    cases hl : s.Servo_Lock with
    | true => rw [take_run_locked hl, Option.bind_none]
    | false =>
      rw [take_run hl, Option.bind_some, Task.history_bind, Task.run_bind, Servo_Add_Action_body,
        Task.history_bind, Task.run_bind, Task.history_read, Task.run_access, Option.bind_some,
        Task.history_bind, Task.run_bind]
      rw [Task.run_history_await, henq { s with Servo_Lock := true } rfl]
      rfl

theorem step_refines {r : Servo × ServoHistory τ} {q : Fifo τ} (hr : Represents r q)
    (e : τ × ServoCall) : ∃ q', Represents (ServoCall.step r e) q' ∧ q.Step e q' := by
  obtain ⟨tag, c⟩ := e
  by_cases ha : c.Allowed r.1
  · obtain ⟨r', q', hrun, hrep, hstep⟩ := run_refines hr ha tag
    rw [ServoCall.step, hrun]
    exact ⟨q', hrep, hstep⟩
  · rw [ServoCall.step, run_of_not_allowed ha]
    refine ⟨q, hr, ?_⟩
    cases c with
    | Servo_Add_Action New storage now action time => exact .inl rfl
    | Servo_Server now now' => exact absurd trivial ha

/-- The representation of the queue: the list from `Current` to `Last`, whose head has been
dispatched, and the actions that were enqueued and wait in the other nodes. -/
structure WellQueued (s : Servo) (issued enqueued : List act) : Prop where
  empty : s.Current = 0 ↔ s.Last = 0
  idle : s.Current = 0 → issued = enqueued
  list : s.Current ≠ 0 → ∃ cells waiting, Chain (next s.heap) s.Current cells s.Last ∧
    (cells ++ [s.Last]).Nodup ∧ next s.heap s.Last = 0 ∧
    (cells ++ [s.Last]).map (fun p => (s.heap p).map action_servo.acts) =
      some [] :: waiting.map (fun a => some [a]) ∧
    issued ++ waiting = enqueued

theorem Holds.busy {s : Servo} (h : Holds s cells (([], pace) :: contents)) :
    s.Current ≠ 0 ∧ s.Last ≠ 0 ∧ ∃ xs, Chain (next s.heap) s.Current xs s.Last ∧
      (xs ++ [s.Last]).Nodup ∧ next s.heap s.Last = 0 ∧
      (xs ++ [s.Last]).map (fun p => (s.heap p).map action_servo.acts) =
        some [] :: contents.map fun c => some c.1 := by
  rcases List.eq_nil_or_concat cells with hn | ⟨xs, x, hx⟩
  · subst hn
    exact absurd h.nodes.symm (List.cons_ne_nil _ _)
  rw [List.concat_eq_append] at hx
  subst hx
  obtain ⟨hC, hL, hx₀⟩ := h.ends
  obtain ⟨hchain, hnext⟩ := chain_concat.1 h.chain
  have hfst : (fun p => (s.heap p).map action_servo.acts) =
      fun p => (content s.heap p).map Prod.fst := by
    funext p
    cases hp : s.heap p <;> simp [content, hp]
  have hn := congrArg (List.map (Option.map Prod.fst)) h.nodes
  rw [List.map_map, List.map_map] at hn
  rw [hL]
  refine ⟨hC, hx₀, xs, hchain, h.nodup, hnext, ?_⟩
  rw [hfst]
  exact hn

theorem RepresentsLine.empty {r : Servo × ServoHistory τ} {q : Line τ} (h : RepresentsLine r q) :
    r.1.Current = 0 ↔ r.1.Last = 0 := by
  obtain ⟨cells, hc⟩ := h.list
  cases hq : q.head with
  | none =>
    obtain rfl := Line.nil_of_idle hc hq
    have hC : r.1.Current = 0 := hc.chain
    have hL : r.1.Last = 0 := hc.last
    exact ⟨fun _ => hL, fun _ => hC⟩
  | some pace =>
    rw [Line.contents, hq] at hc
    obtain ⟨hC, hL, -⟩ := hc.busy
    exact ⟨fun h₀ => absurd h₀ hC, fun h₀ => absurd h₀ hL⟩

theorem RepresentsLine.cells {r : Servo × ServoHistory τ} {q : Line τ} (h : RepresentsLine r q)
    (hC : r.1.Current ≠ 0) :
    ∃ xs, Chain (next r.1.heap) r.1.Current xs r.1.Last ∧ (xs ++ [r.1.Last]).Nodup ∧
      next r.1.heap r.1.Last = 0 ∧
      (xs ++ [r.1.Last]).map (fun p => (r.1.heap p).map action_servo.acts) =
        some [] :: q.waiting.map fun w => some w.1 := by
  obtain ⟨cells, hc⟩ := h.list
  cases hq : q.head with
  | none => exact absurd (h.current_iff.2 hq) hC
  | some pace =>
    rw [Line.contents, hq] at hc
    exact hc.busy.2.2

theorem Represents.wellQueued {r : Servo × ServoHistory τ} {q : Fifo τ} (hr : Represents r q)
    (he : q.Exact) : WellQueued r.1 (r.2.issued.map Issue.action) r.2.enqueued := by
  have hline : RepresentsLine r q.line := representsLine_line.2 hr
  have ho := he.order
  rw [← hr.history] at ho
  refine ⟨hline.empty, ?_, ?_⟩
  · intro hC
    rw [hr.idle (hr.current_iff.1 hC), List.map_nil, List.append_nil] at ho
    exact ho
  · intro hC
    obtain ⟨xs, hchain, hnodup, hnext, hacts⟩ := hline.cells hC
    refine ⟨xs, q.waiting.map Prod.fst, hchain, hnodup, hnext, ?_, ho⟩
    rw [hacts, Fifo.line, List.map_map, List.map_map]
    rfl

theorem represents_empty (s : Servo) :
    Represents ({ s with Current := 0, Last := 0, Servo_Lock := false }, ({} : ServoHistory τ))
      { time_start := s.time_start, steppers := s.steppers } := by
  refine ⟨⟨[], ⟨rfl, rfl, List.nodup_nil, List.not_mem_nil, rfl⟩⟩, rfl, rfl, rfl, rfl, ?_,
    fun _ => rfl⟩
  intro w hw
  exact absurd hw List.not_mem_nil

end RobotCar

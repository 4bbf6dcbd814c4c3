import RobotCar.Servo

namespace RobotCar
open Concurrent
set_option autoImplicit true

/-! ### `Servo_Add_Action`, store by store -/

/-- The variables of `Servo.cpp`, and the pointers that were written through and linked. -/
structure ServoStores where
  servo : Servo
  written : List Nat := []
  linked : List Nat := []

def ServoStores.servoPart : Task.Part ServoStores Servo where
  get := servo
  set s r := { r with servo := s }
  get_set _ _ := rfl
  set_get _ := rfl
  set_set _ _ _ := rfl

/-- What becomes of a store through the null pointer, given what it does through another one. -/
def NullStore := (Servo → Option Servo) → Servo → Option Servo

/-- The processor takes a fault, and the task does not go on. -/
def NullStore.traps : NullStore := fun _ _ => none

/-- There is RAM at address 0. -/
def NullStore.lands : NullStore := fun f => f

section
variable (atNull : NullStore) (New storage : Nat) (now id value : UInt32) (time : Int)

def store (p : Nat) (f : Servo → Option Servo) : Task ServoAccess ServoStores Unit :=
  Task.await .queue fun r =>
    ((if p = 0 then atNull f else f) r.servo).map fun s =>
      { r with servo := s, written := p :: r.written }

/-- `new action_servo()` sets the memory to zero. -/
def new_action_servo : Task ServoAccess ServoStores Unit :=
  store atNull New fun s =>
    some { s with heap := Function.update s.heap New (some ⟨0, [], 0, 0⟩) }

/-- `New->acts.push_back(action1)`: the action is stored, and then the vector refers to it. -/
def push_back (action1 : act) : Task ServoAccess ServoStores Unit := do
  store atNull storage some
  store atNull New fun s => (s.heap New).map fun node =>
    { s with
      heap := Function.update s.heap New (some { node with acts := node.acts ++ [action1] }) }

/-- `New` and `storage` are what `pvPortMalloc` returns, null where the heap is exhausted; neither
is tested. -/
def alloc_New (action1 : act) : Task ServoAccess ServoStores Unit := do
  new_action_servo atNull New
  push_back atNull New storage action1

/-- The time and the speed of the node, and the position that is remembered. -/
def fill : Task ServoAccess ServoStores Unit := do
  match ← Task.read .queue fun r => New_action id value time r.servo with
  | none => undefinedBehavior.zoom (fun l => l) ServoStores.servoPart
  | some (node, s) =>
    Task.update .queue fun r => { r with servo := s }
    store atNull New fun s =>
      some { s with heap := Function.update s.heap New (some node) }

def set_Last : Task ServoAccess ServoStores Unit :=
  Task.update .queue fun r =>
    { r with servo := { r.servo with Last := New }, linked := New :: r.linked }

def link_Last : Task ServoAccess ServoStores Unit := do
  let Last ← Task.read .queue fun r => r.servo.Last
  if Last = 0 then set_Last New
  else
    store atNull Last fun s => (s.heap Last).map fun last =>
      { s with heap := Function.update s.heap Last (some { last with Next := New }) }
    set_Last New

/-- The queue was empty: the new node is its head. -/
def start_Current : Task ServoAccess ServoStores Unit := do
  let Current ← Task.read .queue fun r => r.servo.Current
  if Current = 0 then
    Task.update .queue fun r =>
      { r with servo := { r.servo with Current := New }, linked := New :: r.linked }
    dispatch_Current.zoom (fun l => l) ServoStores.servoPart
    Task.update .queue fun r => { r with servo := { r.servo with time_start := now } }

def fill_and_link : Task ServoAccess ServoStores Unit := do
  fill atNull New id value time
  link_Last atNull New
  start_Current New now

def Servo_Add_Action_stores_body : Task ServoAccess ServoStores Unit := do
  alloc_New atNull New storage ⟨id, value⟩
  fill_and_link atNull New now id value time

def Servo_Add_Action_stores : Task ServoAccess ServoStores Unit := do
  xSemaphoreTake.zoom (fun l => l) ServoStores.servoPart
  Servo_Add_Action_stores_body atNull New storage now id value time
  xSemaphoreGive.zoom (fun l => l) ServoStores.servoPart

/-- The call returns with the lock released, no null pointer was written through or linked, and the
queue and the remembered positions are as before. -/
def QueueIntact (s : Servo) : Prop :=
  ∃ r, (Servo_Add_Action_stores atNull New storage now id value time).run ⟨s, [], []⟩ =
      some ((), r) ∧
    r.servo.Servo_Lock = false ∧ 0 ∉ r.written ∧ 0 ∉ r.linked ∧
    r.servo.Current = s.Current ∧ r.servo.Last = s.Last ∧ r.servo.heap = s.heap ∧
    r.servo.stepper_lastvalue1 = s.stepper_lastvalue1 ∧
    r.servo.stepper_lastvalue2 = s.stepper_lastvalue2 ∧
    r.servo.servo_lastvalue = s.servo_lastvalue


variable {atNull New storage now id value time}

/-! ### Nothing takes back that null was written through -/

def ServoStores.WroteNull (r : ServoStores) : Prop := 0 ∈ r.written

theorem preserves_store (p : Nat) (f : Servo → Option Servo) :
    (store atNull p f).Preserves ServoStores.WroteNull := by
  intro r hr
  refine ⟨fun r' h => ?_, trivial⟩
  obtain ⟨s, -, rfl⟩ := Option.map_eq_some_iff.1 h
  exact List.mem_cons_of_mem p hr

theorem preserves_linked {f : ServoStores → ServoStores} (h : ∀ r, (f r).written = r.written) :
    (Task.update ServoAccess.queue f).Preserves ServoStores.WroteNull := by
  apply Task.preserves_update
  intro r hr
  rw [ServoStores.WroteNull, h]
  exact hr

theorem preserves_servoPart (t : Task ServoAccess Servo α) :
    (t.zoom (fun l => l) ServoStores.servoPart).Preserves ServoStores.WroteNull := by
  apply ((Task.only_true t).zoom _ _).preserves
  rintro l r r' hr ⟨l', s, -, rfl, -⟩
  exact hr

theorem preserves_push_back (action1 : act) :
    (push_back atNull New storage action1).Preserves ServoStores.WroteNull :=
  Task.preserves_bind (preserves_store _ _) fun _ => preserves_store _ _

theorem preserves_fill : (fill atNull New id value time).Preserves ServoStores.WroteNull := by
  apply Task.preserves_bind (Task.preserves_read _ _)
  intro filled
  cases filled with
  | none => exact preserves_servoPart undefinedBehavior
  | some filled =>
    exact Task.preserves_bind (preserves_linked fun _ => rfl) fun _ => preserves_store _ _

theorem preserves_link_Last : (link_Last atNull New).Preserves ServoStores.WroteNull := by
  apply Task.preserves_bind (Task.preserves_read _ _)
  intro Last
  have hset : (set_Last New).Preserves ServoStores.WroteNull := preserves_linked fun _ => rfl
  apply Task.preserves_ite hset
  exact Task.preserves_bind (preserves_store _ _) fun _ => hset

theorem preserves_start_Current : (start_Current New now).Preserves ServoStores.WroteNull := by
  apply Task.preserves_bind (Task.preserves_read _ _)
  intro Current
  apply Task.preserves_ite
  · refine Task.preserves_bind ?_ fun _ => ?_
    · exact preserves_linked fun _ => rfl
    · apply Task.preserves_bind (preserves_servoPart dispatch_Current)
      exact fun _ => preserves_linked fun _ => rfl
  · trivial

theorem preserves_fill_and_link :
    (fill_and_link atNull New now id value time).Preserves ServoStores.WroteNull := by
  apply Task.preserves_bind preserves_fill
  intro _
  exact Task.preserves_bind preserves_link_Last fun _ => preserves_start_Current

/-! ### An allocation that fails -/

theorem null_written {f : Servo → Option Servo}
    (h : (store atNull 0 f).run r = some (a, r')) : r'.WroteNull := by
  rw [store, Task.run_await] at h
  obtain ⟨r'', h, he⟩ := Option.map_eq_some_iff.1 h
  obtain ⟨s, -, rfl⟩ := Option.map_eq_some_iff.1 h
  cases he
  exact List.mem_cons_self

theorem push_back_null {action1 : act}
    (h : (push_back atNull New 0 action1).run r = some (a, r')) : r'.WroteNull := by
  rw [push_back, Task.run_bind] at h
  obtain ⟨⟨b, r₁⟩, hfirst, hsecond⟩ := Option.bind_eq_some_iff.1 h
  exact Task.run_of_preserves (preserves_store _ _) (null_written hfirst) hsecond

theorem alloc_New_null {action1 : act} (hfail : New = 0 ∨ storage = 0)
    (h : (alloc_New atNull New storage action1).run r = some (a, r')) : r'.WroteNull := by
  rw [alloc_New, Task.run_bind] at h
  obtain ⟨⟨b, r₁⟩, hnew, hpush⟩ := Option.bind_eq_some_iff.1 h
  rcases hfail with rfl | rfl
  · exact Task.run_of_preserves (preserves_push_back _) (null_written hnew) hpush
  · exact push_back_null hpush

theorem exhausted_writes_null {r r' : ServoStores} (hfail : New = 0 ∨ storage = 0)
    (h : (Servo_Add_Action_stores atNull New storage now id value time).run r = some (a, r')) :
    r'.WroteNull := by
  rw [Servo_Add_Action_stores, Task.run_bind] at h
  obtain ⟨⟨_, r₁⟩, -, h⟩ := Option.bind_eq_some_iff.1 h
  rw [Task.run_bind] at h
  obtain ⟨⟨_, r₂⟩, hbody, hgive⟩ := Option.bind_eq_some_iff.1 h
  rw [Servo_Add_Action_stores_body, Task.run_bind] at hbody
  obtain ⟨⟨_, r₃⟩, halloc, hlink⟩ := Option.bind_eq_some_iff.1 hbody
  have hnull : r₂.WroteNull :=
    Task.run_of_preserves preserves_fill_and_link (alloc_New_null hfail halloc) hlink
  exact Task.run_of_preserves (preserves_servoPart xSemaphoreGive) hnull hgive

/-- No failing allocation leaves the queue intact. -/
theorem exhaustion_never_intact (hfail : New = 0 ∨ storage = 0) (s : Servo) :
    ¬QueueIntact atNull New storage now id value time s := by
  rintro ⟨r, hrun, -, hwritten, -⟩
  exact hwritten (exhausted_writes_null hfail hrun)

def oneNode : Servo where
  heap := Function.update (fun _ => none) 8 (some ⟨0, [], 100, -1⟩)
  Current := 8
  Last := 8

/-- There is no memory for the storage of the new node's actions. -/
theorem exhaustion_oneNode :
    (24 = 0 ∨ 0 = 0) ∧ ¬QueueIntact .lands 24 0 0 5 300 500 oneNode :=
  ⟨.inr rfl, exhaustion_never_intact (.inr rfl) oneNode⟩

/-- There is no memory for the new node: the call returns, and `Last` is null. -/
theorem exhaustion_forgets_Last :
    ¬∀ (atNull : NullStore) (New storage : Nat) (now id value : UInt32) (time : Int) (s : Servo),
      New = 0 ∨ storage = 0 → QueueIntact atNull New storage now id value time s := by
  intro h
  obtain ⟨r, hrun, -, -, -, -, hLast, -⟩ := h .lands 0 24 0 5 300 500 oneNode (.inl rfl)
  have hnull : some 0 = some r.servo.Last :=
    congrArg (Option.map fun x : Unit × ServoStores => x.2.servo.Last) hrun
  exact absurd ((Option.some.inj hnull).trans hLast) (by decide)

/-- A call whose store traps does not return, and keeps the lock. -/
theorem exhausted_traps (hfail : New = 0 ∨ storage = 0) (r : ServoStores) :
    (Servo_Add_Action_stores .traps New storage now id value time).run r = none := by
  have hnull (f : Servo → Option Servo) (r : ServoStores) : (store .traps 0 f).run r = none := rfl
  have halloc (a : act) (r : ServoStores) : (alloc_New .traps New storage a).run r = none := by
    rw [alloc_New, Task.run_bind, new_action_servo, push_back]
    rcases hfail with rfl | rfl
    · rw [hnull]
      rfl
    · apply Option.bind_eq_none_iff.2
      intro x hx
      rw [Task.run_bind, hnull]
      rfl
  rw [Servo_Add_Action_stores, Task.run_bind]
  apply Option.bind_eq_none_iff.2
  intro x hx
  rw [Task.run_bind, Servo_Add_Action_stores_body, Task.run_bind, halloc]
  rfl

/-! ### ServoStores that land -/

theorem New_action_heap (s : Servo) (heap : Nat → Option action_servo) :
    New_action id value time { s with heap := heap } =
      (New_action id value time s).map fun r => (r.1, { r.2 with heap := heap }) := by
  unfold New_action
  dsimp only
  split
  · rfl
  split
  · rfl
  split
  · rfl
  · rfl

theorem run_store (hp : p ≠ 0 ∨ atNull = .lands) (f : Servo → Option Servo) (r : ServoStores) :
    (store atNull p f).run r =
      (f r.servo).map fun s => ((), { r with servo := s, written := p :: r.written }) := by
  have hf : (if p = 0 then atNull f else f) = f := by
    rcases hp with hp | rfl
    · exact if_neg hp
    · exact ite_self f
  rw [store, Task.run_await, hf, Option.map_map]
  rfl

theorem run_alloc_New (hNew : New ≠ 0 ∨ atNull = .lands)
    (hstorage : storage ≠ 0 ∨ atNull = .lands) (a : act) (s : Servo) (w l : List Nat) :
    (alloc_New atNull New storage a).run ⟨s, w, l⟩ =
      some ((), ⟨{ s with heap := Function.update s.heap New (some ⟨0, [a], 0, 0⟩) },
        New :: storage :: New :: w, l⟩) := by
  rw [alloc_New, Task.run_bind, new_action_servo, run_store hNew, Option.map_some, Option.bind_some,
    push_back, Task.run_bind, run_store hstorage, Option.map_some, Option.bind_some, run_store hNew]
  dsimp only
  rw [Function.update_self, Option.map_some, Function.update_idem]
  rfl

theorem run_fill (hNew : New ≠ 0 ∨ atNull = .lands) (s : Servo) (node : Option action_servo)
    (w l : List Nat) :
    (fill atNull New id value time).run
        ⟨{ s with heap := Function.update s.heap New node }, w, l⟩ =
      (New_action id value time s).map fun x =>
        ((), ⟨{ x.2 with heap := Function.update s.heap New (some x.1) }, New :: w, l⟩) := by
  rw [fill, Task.run_bind, Task.run_read, Option.bind_some]
  dsimp only
  rw [New_action_heap]
  cases New_action id value time s with
  | none => rfl
  | some x =>
    dsimp only [Option.map_some]
    rw [Task.run_bind, Task.run_update, Option.bind_some, run_store hNew]
    dsimp only
    rw [Option.map_some, Function.update_idem]

theorem run_link_Last (node : action_servo) {s : Servo} (h : s.Last ≠ New) (w l : List Nat) :
    (link_Last atNull New).run ⟨{ s with heap := Function.update s.heap New (some node) }, w, l⟩ =
      (link New node s).map fun s' =>
        ((), ⟨{ s' with Current := s.Current }, if s.Last = 0 then w else s.Last :: w,
          New :: l⟩) := by
  rw [link_Last, Task.run_bind, Task.run_read, Option.bind_some, link]
  dsimp only
  by_cases hz : s.Last = 0
  · rw [if_pos hz, if_pos hz, if_pos hz]
    rfl
  · rw [if_neg hz, if_neg hz, if_neg hz, Task.run_bind, run_store (.inl hz)]
    dsimp only
    rw [Function.update_of_ne h]
    cases s.heap s.Last with
    | none => rfl
    | some last =>
      rw [Option.map_some, Option.map_some, Option.map_some, Option.map_some, Option.bind_some,
        Function.update_comm h]
      rfl

theorem run_start_Current {s : Servo} (h : s.Current = if c = 0 then New else c)
    (w l : List Nat) :
    (start_Current New now).run ⟨{ s with Current := c }, w, l⟩ =
      if c = 0 then (dispatch_Current.run s).map fun x =>
        ((), ⟨{ x.2 with time_start := now }, w, New :: l⟩)
      else some ((), ⟨s, w, l⟩) := by
  rw [start_Current, Task.run_bind, Task.run_read, Option.bind_some]
  dsimp only
  by_cases hc : c = 0
  · rw [if_pos hc] at h
    have hhead : { s with Current := New } = s := by rw [← h]
    rw [if_pos hc, if_pos hc, Task.run_bind, Task.run_update, Option.bind_some, Task.run_bind,
      Task.run_zoom]
    change (Option.map _ (dispatch_Current.run { s with Current := New })).bind _ = _
    rw [hhead]
    cases dispatch_Current.run s with
    | none => rfl
    | some x => rfl
  · rw [if_neg hc] at h
    rw [if_neg hc, if_neg hc, ← h]
    rfl

theorem Current_of_link {node : action_servo} {s s' : Servo} (h : link New node s = some s') :
    s'.Current = if s.Current = 0 then New else s.Current := by
  unfold link at h
  dsimp only at h
  split at h
  · cases h
    rfl
  · obtain ⟨last, -, rfl⟩ := Option.map_eq_some_iff.1 h
    rfl

def afterLink (now : UInt32) (Current : Nat) (s' : Servo) : Option Servo :=
  if Current = 0 then (dispatch_Current.run s').map fun x => { x.2 with time_start := now }
  else some s'

theorem run_Servo_Add_Action_body (s : Servo) :
    ((Servo_Add_Action_body New storage now id value time).run s).map Prod.snd =
      (enqueue New storage id value time s).bind (afterLink now s.Current) := by
  rw [Servo_Add_Action_body, Task.run_bind, Task.run_read, Option.bind_some, Task.run_bind,
    Task.run_await]
  cases enqueue New storage id value time s with
  | none => rfl
  | some s' =>
    rw [Option.map_some, Option.bind_some, Option.bind_some, afterLink]
    split
    · rw [Task.run_bind]
      cases dispatch_Current.run s' with
      | none => rfl
      | some x => rfl
    · rfl

theorem run_stores_body {s : Servo} (hNew : New ≠ 0 ∨ atNull = .lands)
    (hstorage : storage ≠ 0 ∨ atNull = .lands) (hLast : s.Last ≠ New) (w l : List Nat) :
    ((Servo_Add_Action_stores_body atNull New storage now id value time).run ⟨s, w, l⟩).map
        (fun r => r.2.servo) =
      ((New_action id value time s).bind fun x => link New x.1 x.2).bind
        (afterLink now s.Current) := by
  rw [Servo_Add_Action_stores_body, Task.run_bind, run_alloc_New hNew hstorage, Option.bind_some,
    fill_and_link, Task.run_bind, run_fill hNew]
  cases hnew : New_action id value time s with
  | none => rfl
  | some x =>
    obtain ⟨node, s₁⟩ := x
    have hframe := New_action_frame (show New_action (act.mk id value).id _ time s = _ from hnew)
    have hheap : s₁.heap = s.heap := by rw [hframe]
    have hCurrent : s₁.Current = s.Current := by rw [hframe]
    have hLast₁ : s₁.Last ≠ New := by
      rw [hframe]
      exact hLast
    rw [Option.map_some, Option.bind_some, Option.bind_some, Task.run_bind, ← hheap,
      run_link_Last node hLast₁]
    cases hlink : link New node s₁ with
    | none => rfl
    | some s' =>
      rw [Option.map_some, Option.bind_some, Option.bind_some,
        run_start_Current (Current_of_link hlink), hCurrent, afterLink]
      split
      · rw [Option.map_map]
        rfl
      · rfl

theorem run_stores {s : Servo} (hfree : s.Servo_Lock = false) (w l : List Nat) :
    ((Servo_Add_Action_stores atNull New storage now id value time).run ⟨s, w, l⟩).map
        (fun r => r.2.servo) =
      (((Servo_Add_Action_stores_body atNull New storage now id value time).run
          ⟨{ s with Servo_Lock := true }, w, l⟩).map fun r => r.2.servo).map
        fun s' => { s' with Servo_Lock := false } := by
  rw [Servo_Add_Action_stores, Task.run_bind, Task.run_zoom, xSemaphoreTake, Task.run_await]
  change Option.map _ (Option.bind (Option.map _ (Option.map _ (if s.Servo_Lock then _ else _))) _)
    = _
  rw [hfree, if_neg Bool.false_ne_true, Option.map_some, Option.map_some, Option.bind_some,
    Task.run_bind]
  change Option.map _ (Option.bind ((Servo_Add_Action_stores_body atNull New storage now id value
    time).run ⟨{ s with Servo_Lock := true }, w, l⟩) _) = _
  cases (Servo_Add_Action_stores_body atNull New storage now id value time).run
    ⟨{ s with Servo_Lock := true }, w, l⟩ with
  | none => rfl
  | some x => rfl

theorem run_Servo_Add_Action {s : Servo} (hfree : s.Servo_Lock = false) :
    ((Servo_Add_Action New storage now id value time).run s).map Prod.snd =
      (((Servo_Add_Action_body New storage now id value time).run
          { s with Servo_Lock := true }).map Prod.snd).map
        fun s' => { s' with Servo_Lock := false } := by
  rw [Servo_Add_Action, Task.run_bind, xSemaphoreTake, Task.run_await, hfree,
    if_neg Bool.false_ne_true, Option.map_some, Option.bind_some, Task.run_bind]
  cases (Servo_Add_Action_body New storage now id value time).run
    { s with Servo_Lock := true } with
  | none => rfl
  | some x => rfl

theorem Servo_Add_Action_stores_refines {s : Servo} (hNew : New ≠ 0) (hstorage : storage ≠ 0)
    (hfresh : s.heap New = none) (hLast : s.Last ≠ New) (hfree : s.Servo_Lock = false)
    (w l : List Nat) :
    ((Servo_Add_Action_stores atNull New storage now id value time).run ⟨s, w, l⟩).map
        (fun r => r.2.servo) =
      ((Servo_Add_Action New storage now id value time).run s).map Prod.snd := by
  have hnull : ¬(New = 0 ∨ storage = 0 ∨ s.heap New ≠ none) := by
    rintro (h | h | h)
    · exact hNew h
    · exact hstorage h
    · exact h hfresh
  rw [run_stores hfree, run_Servo_Add_Action hfree, run_Servo_Add_Action_body,
    run_stores_body (s := { s with Servo_Lock := true }) (.inl hNew) (.inl hstorage) hLast,
    enqueue, if_neg hnull]

/-- With RAM at address 0, a node at null is linked as if the queue were empty from now on. -/
theorem null_node_forgets_Last {s s₁ : Servo} {node last : action_servo}
    (hfree : s.Servo_Lock = false) (hCurrent : s.Current ≠ 0) (hLast : s.Last ≠ 0)
    (hlast : s.heap s.Last = some last) (w l : List Nat)
    (hnew : New_action id value time { s with Servo_Lock := true } = some (node, s₁)) :
    ∃ s', ((Servo_Add_Action_stores .lands 0 storage now id value time).run ⟨s, w, l⟩).map
        (fun r => r.2.servo) = some s' ∧
      s'.Servo_Lock = false ∧ s'.Current = s.Current ∧ s'.Last = 0 := by
  have hframe := New_action_frame (show New_action (act.mk id value).id _ time _ = _ from hnew)
  have hLast₁ : s₁.Last = s.Last := by rw [hframe]
  have hheap₁ : s₁.heap = s.heap := by rw [hframe]
  have hCurrent₁ : s₁.Current = s.Current := by rw [hframe]
  rw [run_stores hfree,
    run_stores_body (s := { s with Servo_Lock := true }) (.inr rfl) (.inr rfl) hLast, hnew,
    Option.bind_some, link, hLast₁, if_neg hLast, hheap₁, hlast, hCurrent₁, if_neg hCurrent,
    Option.map_some, Option.bind_some, afterLink, if_neg hCurrent]
  exact ⟨_, rfl, rfl, rfl, rfl⟩

end
end RobotCar

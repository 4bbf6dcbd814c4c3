import Mathlib.Algebra.Group.Nat.Defs
import Mathlib.Order.Basic
import RobotCar.Kernel

namespace RobotCar
set_option autoImplicit true

/-! ### Tasks and true time -/

/-- What a task waits for, with the true tick at which a time limit is over. -/
inductive TaskState where
  | absent
  | ready
  | delayed (due : Nat)
  | suspended
  deriving DecidableEq

theorem TaskState.delayed_ne_ready (due : Nat) : delayed due ≠ ready := nofun

theorem TaskState.suspended_ne_ready : suspended ≠ ready := nofun

def TaskState.isDue (now : Nat) : TaskState → Bool
  | .delayed due => due ≤ now
  | _ => false

/-- What the kernel is for: the tick count never wraps, and a task is ready from its due tick on. -/
structure Timeline (τ : Type) where
  now : Nat
  pended : Nat
  nesting : Nat
  running : Bool
  tasks : Nat
  current : τ
  state : τ → TaskState
  waiting : Nat → List τ
  pendingReady : τ → Bool

namespace Timeline

variable {τ : Type}

@[ext] theorem ext {a b : Timeline τ} (now : a.now = b.now) (pended : a.pended = b.pended)
    (nesting : a.nesting = b.nesting) (running : a.running = b.running) (tasks : a.tasks = b.tasks)
    (current : a.current = b.current) (state : a.state = b.state) (waiting : a.waiting = b.waiting)
    (pendingReady : a.pendingReady = b.pendingReady) : a = b := by
  cases a
  cases b
  congr

/-- Some tasks become ready, and wait for no event any longer. -/
def wake (a : Timeline τ) (W : τ → Bool) : Timeline τ :=
  { a with
    state := fun t => if W t then .ready else a.state t
    waiting := fun n => (a.waiting n).filter (! W ·)
    pendingReady := fun t => a.pendingReady t && !W t }

def isDue (a : Timeline τ) (t : τ) : Bool := (a.state t).isDue a.now

def wakeDue (a : Timeline τ) : Timeline τ := a.wake a.isDue

/-- A new task is ready. Until the scheduler is started, the last one of the highest priority is the
one to start with. -/
def create (a : Timeline τ) [DecidableEq τ] (T : Tasks τ) (t : τ) : Timeline τ :=
  { a.wake (· == t) with
    tasks := a.tasks + 1
    current :=
      if a.tasks = 0 ∨ a.running = false ∧ T.uxPriority a.current ≤ T.uxPriority t then t
      else a.current }

/-- While the scheduler is suspended, ticks are only counted. -/
def tick (a : Timeline τ) : Timeline τ :=
  if a.nesting = 0 then { a with now := a.now + 1 }.wakeDue else { a with pended := a.pended + 1 }

def resume (a : Timeline τ) : Timeline τ :=
  { tick^[a.pended] (a.wake a.pendingReady) with pended := 0 }

def resumeAll (a : Timeline τ) : Timeline τ :=
  if a.nesting = 1 ∧ a.tasks ≠ 0 then { a with nesting := 0 }.resume
  else { a with nesting := a.nesting - 1 }

variable [DecidableEq τ]

def sleep (a : Timeline τ) (n : Nat) : Timeline τ :=
  { a with state := Function.update a.state a.current (.delayed (a.now + n)) }

/-- The running task waits for an event: behind the tasks whose priority is not lower. -/
def await (a : Timeline τ) (T : Tasks τ) (event : Nat) (limit : Option Nat) : Timeline τ :=
  { a with
    state := Function.update a.state a.current
      (limit.elim .suspended fun n => .delayed (a.now + n))
    waiting := Function.update a.waiting event
      ((a.waiting event).takeWhile (T.uxPriority a.current ≤ T.uxPriority ·) ++ a.current ::
        (a.waiting event).dropWhile (T.uxPriority a.current ≤ T.uxPriority ·)) }

/-- The running task waits for an event behind all others. -/
def awaitLast (a : Timeline τ) (event : Nat) (limit : Option Nat) : Timeline τ :=
  { a with
    state := Function.update a.state a.current
      (limit.elim .suspended fun n => .delayed (a.now + n))
    waiting := Function.update a.waiting event (a.waiting event ++ [a.current]) }

/-- The event comes for the first task that waits for it. -/
def notify (a : Timeline τ) (event : Nat) (t : τ) (rest : List τ) : Timeline τ :=
  if a.nesting = 0 then a.wake (· == t)
  else { a with
    waiting := Function.update a.waiting event rest
    pendingReady := Function.update a.pendingReady t true }

/-! ### Waking tasks -/

omit [DecidableEq τ] in
theorem wake_none (a : Timeline τ) {W : τ → Bool} (h : ∀ t, W t = false) : a.wake W = a := by
  apply ext <;> try rfl
  · funext t
    simp only [wake, h, Bool.false_eq_true, if_false]
  · funext n
    simp only [wake, h, Bool.not_false, List.filter_true]
  · funext t
    simp only [wake, h, Bool.not_false, Bool.and_true]

omit [DecidableEq τ] in
theorem wake_wake (a : Timeline τ) (W V : τ → Bool) :
    (a.wake W).wake V = a.wake fun t => W t || V t := by
  apply ext <;> try rfl
  · funext t
    cases hW : W t <;> cases hV : V t <;> simp only [wake, hW, hV] <;> rfl
  · funext n
    simp only [wake, List.filter_filter, Bool.not_or, Bool.and_comm]
  · funext t
    simp only [wake, Bool.not_or, Bool.and_assoc]

omit [DecidableEq τ] in
theorem isDue_iff {a : Timeline τ} :
    a.isDue t = true ↔ ∃ due, a.state t = .delayed due ∧ due ≤ a.now := by
  cases h : a.state t <;> simp [isDue, h, TaskState.isDue]

theorem wake_wakeDue {a : Timeline τ} (h : a.isDue t = true) :
    (a.wake (· == t)).wakeDue = a.wakeDue := by
  rw [wakeDue, wake_wake, wakeDue]
  congr 1
  funext u
  by_cases hu : u = t
  · subst hu
    rw [beq_self_eq_true, Bool.true_or, h]
  · have hne : (u == t) = false := beq_false_of_ne hu
    have hsame : (a.wake (· == t)).isDue u = a.isDue u := by
      simp only [isDue, wake, hne, Bool.false_eq_true, if_false]
    rw [hne, Bool.false_or, hsame]

end Timeline

/-! ### The kernel and its timeline -/

def readied [DecidableEq τ] (T : Tasks τ) (contents : KernelList → Carousel (TaskItem τ)) (t : τ) :
    KernelList → Carousel (TaskItem τ) :=
  let contents := Lists.without (Lists.without contents (.xStateListItem t)) (.xEventListItem t)
  Function.update contents (.pxReadyTasksLists (T.uxPriority t))
    ((contents (.pxReadyTasksLists (T.uxPriority t))).insert (.xStateListItem t))

structure Readied [DecidableEq τ] (T : Tasks τ) (l l' : Lists (TaskItem τ) KernelList)
    (contents : KernelList → Carousel (TaskItem τ)) (t : τ) : Prop where
  holds : l'.Holds (readied T contents t)
  state : l'.pxContainer (.xStateListItem t) = some (.pxReadyTasksLists (T.uxPriority t))
  event : l'.pxContainer (.xEventListItem t) = none
  others : ∀ x, x ≠ .xStateListItem t → x ≠ .xEventListItem t → l'.pxContainer x = l.pxContainer x
  value : l'.xItemValue = l.xItemValue

namespace Kernel

variable {τ : Type} [DecidableEq τ] {T : Tasks τ} {s : Kernel τ}
  {contents : KernelList → Carousel (TaskItem τ)}

def added (T : Tasks τ) (s : Kernel τ) (t : τ) (lists : Lists (TaskItem τ) KernelList) : Kernel τ :=
  { s with
    lists
    uxTopReadyPriority := max s.uxTopReadyPriority (T.uxPriority t) }

theorem prvAddTaskToReadyList_eq (T : Tasks τ) (s : Kernel τ) (t : τ) :
    s.prvAddTaskToReadyList T t = s.added T t
      (s.lists.vListInsertEnd (.pxReadyTasksLists (T.uxPriority t)) (.xStateListItem t)) := by
  rw [prvAddTaskToReadyList, taskRECORD_READY_PRIORITY, added]
  split
  · rename_i h
    rw [Nat.max_eq_right (Nat.le_of_lt h)]
  · rename_i h
    rw [Nat.max_eq_left (Nat.le_of_not_lt h)]

theorem uxListRemove_eq (h : s.lists.Holds contents) (hx : s.lists.pxContainer x = some k) :
    s.uxListRemove x = some { s with lists := s.lists.displace k x } := by
  rw [uxListRemove, (h.remove hx).1, Option.map_some]

theorem readied_of_free {l₀ l : Lists (TaskItem τ) KernelList} {t : τ}
    (h : l.Holds (Lists.without (Lists.without contents (.xStateListItem t)) (.xEventListItem t)))
    (hs : l.pxContainer (.xStateListItem t) = none) (he : l.pxContainer (.xEventListItem t) = none)
    (ho : ∀ x, x ≠ .xStateListItem t → x ≠ .xEventListItem t → l.pxContainer x = l₀.pxContainer x)
    (hv : l.xItemValue = l₀.xItemValue) :
    Readied T l₀ (l.vListInsertEnd (.pxReadyTasksLists (T.uxPriority t)) (.xStateListItem t))
      contents t := by
  obtain ⟨p, q, heq, hh⟩ := h.insertEnd hs (.pxReadyTasksLists (T.uxPriority t))
  rw [heq]
  refine ⟨hh, ?_, ?_, ?_, hv⟩
  · rw [Lists.place_container, if_pos rfl]
  · rw [Lists.place_container, if_neg nofun, he]
  · intro x hx hx'
    rw [Lists.place_container, if_neg hx, ho x hx hx']

theorem readied_of_removed (h : s.lists.Holds contents) {t : τ}
    (ht : s.lists.pxContainer (.xStateListItem t) = some k)
    (he : s.lists.pxContainer (.xEventListItem t) = some k') :
    Readied T s.lists (((s.lists.displace k' (.xEventListItem t)).displace k
      (.xStateListItem t)).vListInsertEnd (.pxReadyTasksLists (T.uxPriority t))
        (.xStateListItem t)) contents t := by
  have hc : (s.lists.displace k' (.xEventListItem t)).pxContainer (.xStateListItem t) = some k := by
    rw [Lists.displace_container, if_neg nofun, ht]
  have h₂ := (h.without he).without hc
  have hcomm : Lists.without (Lists.without contents (.xEventListItem t)) (.xStateListItem t) =
      Lists.without (Lists.without contents (.xStateListItem t)) (.xEventListItem t) :=
    funext fun k => Carousel.remove_comm ..
  rw [hcomm] at h₂
  refine readied_of_free h₂ ?_ ?_ ?_ rfl
  · rw [Lists.displace_container, if_pos rfl]
  · rw [Lists.displace_container, if_neg nofun, Lists.displace_container, if_pos rfl]
  · intro x hx hx'
    rw [Lists.displace_container, if_neg hx, Lists.displace_container, if_neg hx']

theorem unblock_eq (h : s.lists.Holds contents) {t : τ}
    (ht : s.lists.pxContainer (.xStateListItem t) = some k) :
    ∃ l, s.unblock T t = some (s.added T t l) ∧ Readied T s.lists l contents t := by
  have h₁ := h.without ht
  have hc : (s.lists.displace k (.xStateListItem t)).pxContainer (.xEventListItem t) =
      s.lists.pxContainer (.xEventListItem t) := by
    rw [Lists.displace_container, if_neg nofun]
  rw [unblock, uxListRemove_eq h ht]
  cases he : s.lists.pxContainer (.xEventListItem t) with
  | none =>
    rw [he] at hc
    refine ⟨_, ?_, readied_of_free (l := s.lists.displace k (.xStateListItem t)) ?_ ?_ hc ?_ rfl⟩
    · simp only [Option.bind_eq_bind, Option.bind_some, hc, Option.isSome_none, Bool.false_eq_true,
        if_false, prvAddTaskToReadyList_eq]
      rfl
    · rw [h₁.without_of_free hc]
      exact h₁
    · rw [Lists.displace_container, if_pos rfl]
    · intro x hx _
      rw [Lists.displace_container, if_neg hx]
  | some k' =>
    rw [he] at hc
    have h₂ := h₁.without hc
    have hrem := uxListRemove_eq (s := { s with lists := s.lists.displace k (.xStateListItem t) })
      h₁ hc
    refine ⟨_, ?_, readied_of_free h₂ ?_ ?_ ?_ rfl⟩
    · simp only [Option.bind_eq_bind, Option.bind_some, hc, Option.isSome_some, if_true,
        prvAddTaskToReadyList_eq, hrem]
      rfl
    · rw [Lists.displace_container, if_neg nofun, Lists.displace_container, if_pos rfl]
    · rw [Lists.displace_container, if_pos rfl]
    · intro x hx hx'
      rw [Lists.displace_container, if_neg hx', Lists.displace_container, if_neg hx]

/-! ### The refinement -/

def home (T : Tasks τ) (s : Kernel τ) (now : Nat) (t : τ) : TaskState → Option KernelList
  | .absent => none
  | .ready => some (.pxReadyTasksLists (T.uxPriority t))
  | .suspended => some .xSuspendedTaskList
  | .delayed due =>
    some (if due / 2 ^ 32 = now / 2 ^ 32 then s.pxDelayedTaskList else s.pxOverflowDelayedTaskList)

/-- The tick count is the true time modulo `2 ^ 32`. The delayed tasks are in the list of the epoch
in which they are due, in the order of their due ticks, none of which is before `lo`. -/
structure Refines (T : Tasks τ) (s : Kernel τ) (a : Timeline τ)
    (contents : KernelList → Carousel (TaskItem τ)) (lo : Nat) : Prop where
  holds : s.lists.Holds contents
  now : s.xTickCount = UInt32.ofNat a.now
  overflows : s.xNumOfOverflows = a.now / 2 ^ 32
  pended : s.xPendedTicks = UInt32.ofNat a.pended
  pended_lt : a.pended < 2 ^ 32
  nesting : s.uxSchedulerSuspended = a.nesting
  running : s.xSchedulerRunning = a.running
  tasks : s.uxCurrentNumberOfTasks = a.tasks
  current : s.pxCurrentTCB = a.current
  delayedLists : s.pxDelayedTaskList = .xDelayedTaskList1 ∧
      s.pxOverflowDelayedTaskList = .xDelayedTaskList2 ∨
    s.pxDelayedTaskList = .xDelayedTaskList2 ∧ s.pxOverflowDelayedTaskList = .xDelayedTaskList1
  state : ∀ t, s.lists.pxContainer (.xStateListItem t) = s.home T a.now t (a.state t)
  event : ∀ t k, s.lists.pxContainer (.xEventListItem t) = some k →
    k = .xPendingReadyList ∨ ∃ n, k = .xTasksWaiting n
  pendingReady : ∀ t, a.pendingReady t = true ↔
    s.lists.pxContainer (.xEventListItem t) = some .xPendingReadyList
  waiting : ∀ n, contents (.xTasksWaiting n) = ⟨[], (a.waiting n).map .xEventListItem⟩
  sorted : ∀ k, k = s.pxDelayedTaskList ∨ k = s.pxOverflowDelayedTaskList → ∃ l,
    contents k = ⟨[], l⟩ ∧ l.Pairwise (s.lists.xItemValue · ≤ s.lists.xItemValue ·)
  due : ∀ t due, a.state t = .delayed due → lo ≤ due ∧ due < a.now + 2 ^ 32 ∧
    s.lists.xItemValue (.xStateListItem t) = UInt32.ofNat due
  unblockTime : ∀ t due, a.state t = .delayed due → due / 2 ^ 32 = a.now / 2 ^ 32 →
    s.xNextTaskUnblockTime ≤ s.lists.xItemValue (.xStateListItem t)
  blocked : ∀ t, s.lists.pxContainer (.xEventListItem t) ≠ none →
    a.state t ≠ .ready ∧ a.state t ≠ .absent
  topReady : ∀ t, a.state t = .ready → T.uxPriority t ≤ s.uxTopReadyPriority
  eventValue : ∀ t, a.state t ≠ .absent → s.lists.xItemValue (.xEventListItem t) =
    UInt32.ofNat (configMAX_PRIORITIES - T.uxPriority t)
  idle : a.running = true → a.state T.xIdleTaskHandle = .ready

variable {a : Timeline τ}

omit [DecidableEq τ] in
theorem Refines.later (h : Refines T s a contents lo)
    (hlo : ∀ t due, a.state t = .delayed due → lo' ≤ due) : Refines T s a contents lo' :=
  { h with due := fun t due ht => ⟨hlo t due ht, (h.due t due ht).2⟩ }

omit [DecidableEq τ] in
theorem Refines.withUnblockTime (h : Refines T s a contents lo) (v : UInt32)
    (hv : ∀ t due, a.state t = .delayed due → due / 2 ^ 32 = a.now / 2 ^ 32 →
      v ≤ s.lists.xItemValue (.xStateListItem t)) :
    Refines T { s with xNextTaskUnblockTime := v } a contents lo := { h with unblockTime := hv }

omit [DecidableEq τ] in
theorem Refines.delayed_of_mem (h : Refines T s a contents lo)
    (hk : k = s.pxDelayedTaskList ∨ k = s.pxOverflowDelayedTaskList) (hx : x ∈ (contents k).items) :
    ∃ t due, x = .xStateListItem t ∧ a.state t = .delayed due ∧
      (k = s.pxDelayedTaskList ↔ due / 2 ^ 32 = a.now / 2 ^ 32) := by
  have hc := (h.holds.container x k).2 hx
  have hlists : k = .xDelayedTaskList1 ∨ k = .xDelayedTaskList2 := by
    rcases h.delayedLists with ⟨h₁, h₂⟩ | ⟨h₁, h₂⟩
    · exact hk.imp (·.trans h₁) (·.trans h₂)
    · exact hk.symm.imp (·.trans h₂) (·.trans h₁)
  have hne : s.pxDelayedTaskList ≠ s.pxOverflowDelayedTaskList := by
    rcases h.delayedLists with ⟨h₁, h₂⟩ | ⟨h₁, h₂⟩ <;> rw [h₁, h₂] <;> exact nofun
  cases x with
  | xEventListItem t => rcases h.event t k hc with rfl | ⟨n, rfl⟩ <;> exact absurd hlists (by simp)
  | xStateListItem t =>
    rw [h.state] at hc
    cases ht : a.state t with
    | delayed due =>
      refine ⟨t, due, rfl, ht, ?_⟩
      rw [ht, home] at hc
      obtain rfl := Option.some.inj hc
      split
      · rename_i he
        exact ⟨fun _ => he, fun _ => rfl⟩
      · rename_i he
        exact ⟨fun hk => absurd hk.symm hne, fun hk => absurd hk he⟩
    | absent =>
      rw [ht] at hc
      cases hc
    | ready =>
      rw [ht] at hc
      obtain rfl := Option.some.inj hc
      exact absurd hlists (by simp)
    | suspended =>
      rw [ht] at hc
      obtain rfl := Option.some.inj hc
      exact absurd hlists (by simp)

theorem readied_of_ne {t : τ} (hk : k ≠ .pxReadyTasksLists (T.uxPriority t)) :
    readied T contents t k = ((contents k).remove (.xStateListItem t)).remove (.xEventListItem t) :=
  Function.update_of_ne hk ..

theorem map_erase_event (ws : List τ) (hd : (ws.map TaskItem.xEventListItem).Nodup) (t : τ) :
    ((ws.map TaskItem.xEventListItem).erase (.xStateListItem t)).erase (.xEventListItem t) =
      (ws.filter (! · == t)).map .xEventListItem := by
  have hs : (.xStateListItem t : TaskItem τ) ∉ ws.map TaskItem.xEventListItem := by
    intro hm
    obtain ⟨u, -, hu⟩ := List.mem_map.1 hm
    cases hu
  have hinj : Function.Injective ((TaskItem.xEventListItem : τ → TaskItem τ)) :=
    fun _ _ he => TaskItem.xEventListItem.inj he
  rw [List.erase_of_not_mem hs, ← List.map_erase hinj, (List.Nodup.of_map _ hd).erase_eq_filter]
  rfl

/-- The lists after the event item of a task got the value for its priority in `T'`. -/
structure NewPriority (T T' : Tasks τ) (s : Kernel τ) (l : Lists (TaskItem τ) KernelList) (t : τ) :
    Prop where
  idle : T'.xIdleTaskHandle = T.xIdleTaskHandle
  priority : ∀ u, u ≠ t → T'.uxPriority u = T.uxPriority u
  container : l.pxContainer = s.lists.pxContainer
  value : ∀ x, x ≠ .xEventListItem t → l.xItemValue x = s.lists.xItemValue x
  eventValue : l.xItemValue (.xEventListItem t) =
    UInt32.ofNat (configMAX_PRIORITIES - T'.uxPriority t)

omit [DecidableEq τ] in
theorem NewPriority.same (h : Refines T s a contents lo) (ht : a.state t ≠ .absent) :
    NewPriority T T s s.lists t :=
  ⟨rfl, fun _ _ => rfl, rfl, fun _ _ => rfl, h.eventValue t ht⟩

omit [DecidableEq τ] in
theorem NewPriority.home (hn : NewPriority T T' s l t) (hu : u ≠ t ∨ σ ≠ .ready) :
    s.home T' now u σ = s.home T now u σ := by
  cases σ with
  | ready => rw [Kernel.home, Kernel.home, hn.priority u (hu.resolve_right (not_not.2 rfl))]
  | _ => rfl

theorem Refines.toReady (h : Refines T s a contents lo) {t : τ}
    (hn : NewPriority T T' s l₀ t) (hr : Readied T' l₀ l contents t) :
    Refines T' (s.added T' t l) (a.wake (· == t)) (readied T' contents t) lo := by
  have hstate (u) (hu : u ≠ t) : (a.wake (· == t)).state u = a.state u := by
    simp only [Timeline.wake, beq_false_of_ne hu, Bool.false_eq_true, if_false]
  have hstate' : (a.wake (· == t)).state t = .ready := by
    simp only [Timeline.wake, beq_self_eq_true, if_true]
  have hdelayed (u due) (hu : (a.wake (· == t)).state u = .delayed due) :
      a.state u = .delayed due := by
    by_cases hut : u = t
    · subst hut
      rw [hstate'] at hu
      cases hu
    · rw [hstate u hut] at hu
      exact hu
  have hcont (u) (hu : u ≠ t) : l.pxContainer (.xStateListItem u) =
      s.lists.pxContainer (.xStateListItem u) :=
    (hr.others _ (fun he => hu (TaskItem.xStateListItem.inj he)) nofun).trans
      (congrFun hn.container _)
  have hcont' (u) (hu : u ≠ t) : l.pxContainer (.xEventListItem u) =
      s.lists.pxContainer (.xEventListItem u) :=
    (hr.others (.xEventListItem u) nofun fun he => hu (TaskItem.xEventListItem.inj he)).trans
      (congrFun hn.container _)
  have hvalue (x) (hx : x ≠ .xEventListItem t) : l.xItemValue x = s.lists.xItemValue x :=
    (congrFun hr.value x).trans (hn.value x hx)
  constructor
  case holds => exact hr.holds
  case now => exact h.now
  case overflows => exact h.overflows
  case pended => exact h.pended
  case pended_lt => exact h.pended_lt
  case nesting => exact h.nesting
  case running => exact h.running
  case tasks => exact h.tasks
  case current => exact h.current
  case delayedLists => exact h.delayedLists
  case state =>
    intro u
    by_cases hu : u = t
    · subst hu
      rw [hstate']
      exact hr.state
    · rw [hstate u hu]
      exact ((hcont u hu).trans (h.state u)).trans (hn.home (.inl hu)).symm
  case event =>
    intro u k hk
    by_cases hu : u = t
    · subst hu
      exact absurd (hr.event.symm.trans hk) nofun
    · exact h.event u k ((hcont' u hu).symm.trans hk)
  case pendingReady =>
    intro u
    by_cases hu : u = t
    · subst hu
      change (a.pendingReady u && !(u == u)) = true ↔ l.pxContainer _ = _
      rw [hr.event, beq_self_eq_true, Bool.not_true, Bool.and_false]
      exact ⟨nofun, nofun⟩
    · change (a.pendingReady u && !(u == t)) = true ↔ l.pxContainer _ = _
      rw [hcont' u hu, beq_false_of_ne hu, Bool.not_false, Bool.and_true, h.pendingReady]
  case waiting =>
    intro n
    rw [readied_of_ne (k := .xTasksWaiting n) nofun, h.waiting n]
    have hd := h.holds.nodup (.xTasksWaiting n)
    rw [h.waiting n] at hd
    exact congrArg (Carousel.mk []) (map_erase_event _ hd t)
  case sorted =>
    intro k hk
    obtain ⟨l₁, hl₁, hs⟩ := h.sorted k hk
    refine ⟨(l₁.erase (.xStateListItem t)).erase (.xEventListItem t), ?_, ?_⟩
    · have hne : k ≠ .pxReadyTasksLists (T'.uxPriority t) := by
        rintro rfl
        rcases h.delayedLists with ⟨h₁, h₂⟩ | ⟨h₁, h₂⟩ <;> simp [h₁, h₂, added] at hk
      rw [readied_of_ne hne, hl₁]
      rfl
    · have hitem (x) (hx : x ∈ l₁) : l.xItemValue x = s.lists.xItemValue x := by
        obtain ⟨u, -, rfl, -⟩ := h.delayed_of_mem hk (by rw [hl₁]; exact hx)
        exact hvalue _ nofun
      refine List.Pairwise.sublist (List.erase_sublist.trans List.erase_sublist) ?_
      refine hs.imp_of_mem fun {x y} hx hy hle => ?_
      change l.xItemValue x ≤ l.xItemValue y
      rwa [hitem x hx, hitem y hy]
  case due =>
    intro u due hu
    have hd := h.due u due (hdelayed u due hu)
    exact ⟨hd.1, hd.2.1, (hvalue (.xStateListItem u) nofun).trans hd.2.2⟩
  case unblockTime =>
    intro u due hu he
    have hd := h.unblockTime u due (hdelayed u due hu) he
    exact hd.trans_eq (hvalue (.xStateListItem u) nofun).symm
  case blocked =>
    intro u hu
    by_cases hut : u = t
    · subst hut
      exact absurd hr.event hu
    · rw [hstate u hut]
      exact h.blocked u fun he => hu ((hcont' u hut).trans he)
  case topReady =>
    intro u hu
    by_cases hut : u = t
    · subst hut
      exact Nat.le_max_right _ _
    · rw [hstate u hut] at hu
      rw [hn.priority u hut]
      exact (h.topReady u hu).trans (Nat.le_max_left _ _)
  case eventValue =>
    intro u hu
    by_cases hut : u = t
    · subst hut
      exact (congrFun hr.value _).trans hn.eventValue
    · rw [hstate u hut] at hu
      rw [hn.priority u hut, ← h.eventValue u hu]
      exact hvalue _ fun he => hut (TaskItem.xEventListItem.inj he)
  case idle =>
    intro hrun
    rw [hn.idle]
    by_cases hut : T.xIdleTaskHandle = t
    · rw [hut]
      exact hstate'
    · rw [hstate _ hut]
      exact h.idle hrun

theorem Refines.ready (h : Refines T s a contents lo) {t : τ} (ht : a.state t ≠ .absent)
    (hr : Readied T s.lists l contents t) :
    Refines T (s.added T t l) (a.wake (· == t)) (readied T contents t) lo :=
  h.toReady (.same h ht) hr

/-! ### Turns and switches -/

/-- An item in a ready list keeps its place, and no other gets more turns before its next turn. -/
def KeepsTurn (contents contents' : KernelList → Carousel (TaskItem τ)) (x : TaskItem τ) : Prop :=
  ∀ p, x ∈ (contents (.pxReadyTasksLists p)).items → x ∈ (contents' (.pxReadyTasksLists p)).items ∧
    ∀ y, (contents' (.pxReadyTasksLists p)).credit x y ≤
      (contents (.pxReadyTasksLists p)).credit x y

/-- No ready task has a higher priority than the running one, unless a switch is requested. -/
def Preempts (T : Tasks τ) (s : Kernel τ) (a : Timeline τ) (xSwitchRequired : Bool) : Prop :=
  ∀ t, a.state t = .ready → T.uxPriority t ≤ T.uxPriority a.current ∨ xSwitchRequired = true ∨
    s.xYieldPending = true ∨ s.portNVIC_PENDSVSET_BIT = true

/-- What a step that wakes tasks leaves as it is. -/
structure Wakes (T : Tasks τ) (s s' : Kernel τ) (a a' : Timeline τ)
    (contents contents' : KernelList → Carousel (TaskItem τ)) (b b' : Bool) : Prop where
  turns : ∀ x, KeepsTurn contents contents' x
  preempts : Preempts T s a b → Preempts T s' a' b'

theorem KeepsTurn.refl (contents : KernelList → Carousel (TaskItem τ)) (x : TaskItem τ) :
    KeepsTurn contents contents x :=
  fun _ hx => ⟨hx, fun _ => Nat.le_refl _⟩

theorem KeepsTurn.trans (h₁ : KeepsTurn contents contents₁ x)
    (h₂ : KeepsTurn contents₁ contents₂ x) : KeepsTurn contents contents₂ x := by
  intro p hx
  obtain ⟨hx₁, hle₁⟩ := h₁ p hx
  obtain ⟨hx₂, hle₂⟩ := h₂ p hx₁
  exact ⟨hx₂, fun y => (hle₂ y).trans (hle₁ y)⟩

theorem Wakes.trans (h₁ : Wakes T s s₁ a a₁ contents contents₁ b b₁)
    (h₂ : Wakes T s₁ s₂ a₁ a₂ contents₁ contents₂ b₁ b₂) :
    Wakes T s s₂ a a₂ contents contents₂ b b₂ :=
  ⟨fun x => (h₁.turns x).trans (h₂.turns x), fun h => h₂.preempts (h₁.preempts h)⟩

theorem Wakes.requests (contents : KernelList → Carousel (TaskItem τ))
    (h : b = true ∨ s.xYieldPending = true ∨ s.portNVIC_PENDSVSET_BIT = true →
      b' = true ∨ s'.xYieldPending = true ∨ s'.portNVIC_PENDSVSET_BIT = true) :
    Wakes T s s' a a contents contents b b' :=
  ⟨KeepsTurn.refl contents, fun hp t ht => (hp t ht).imp_right h⟩

/-- A task that becomes ready comes into its list right before the one that had the last turn. -/
theorem Refines.readied_turns (h : Refines T s a contents lo) {t : τ} (ht : a.state t ≠ .ready)
    (x : TaskItem τ) : KeepsTurn contents (readied T contents t) x := by
  have hout (p) : (contents (.pxReadyTasksLists p)).remove (.xStateListItem t) =
      contents (.pxReadyTasksLists p) := by
    rw [Carousel.remove_of_not_mem]
    rw [← h.holds.container, h.state]
    intro he
    cases hs : a.state t with
    | ready => exact ht hs
    | absent => rw [hs] at he; cases he
    | suspended => rw [hs] at he; cases Option.some.inj he
    | delayed due =>
      rw [hs, home] at he
      have hk := Option.some.inj he
      rcases h.delayedLists with ⟨h₁, h₂⟩ | ⟨h₁, h₂⟩ <;> rw [h₁, h₂] at hk <;> split at hk <;>
        cases hk
  have hout' (p) : (contents (.pxReadyTasksLists p)).remove (.xEventListItem t) =
      contents (.pxReadyTasksLists p) := by
    rw [Carousel.remove_of_not_mem]
    rw [← h.holds.container]
    intro he
    rcases h.event t _ he with he | ⟨n, he⟩ <;> cases he
  intro p hx
  by_cases hp : p = T.uxPriority t
  · subst hp
    rw [readied, Function.update_self]
    simp only [Lists.without, hout, hout']
    exact ⟨Carousel.mem_insert.2 (.inr hx), fun y => Nat.le_of_eq (Carousel.credit_insert hx _ y)⟩
  · rw [readied_of_ne (fun he => hp (KernelList.pxReadyTasksLists.inj he)), hout, hout']
    exact ⟨hx, fun y => Nat.le_refl _⟩

theorem Refines.ready_wakes (h : Refines T s a contents lo) {t : τ} (ht : a.state t ≠ .ready)
    (hb : T.uxPriority a.current < T.uxPriority t ∨ b = true ∨ s.xYieldPending = true ∨
      s.portNVIC_PENDSVSET_BIT = true →
      b' = true ∨ s'.xYieldPending = true ∨ s'.portNVIC_PENDSVSET_BIT = true) :
    Wakes T s s' a (a.wake (· == t)) contents (readied T contents t) b b' := by
  refine ⟨h.readied_turns ht, fun hp u hu => ?_⟩
  by_cases hut : u = t
  · subst hut
    rcases Nat.lt_or_ge (T.uxPriority a.current) (T.uxPriority u) with hlt | hge
    · exact .inr (hb (.inl hlt))
    · exact .inl hge
  · have hsame : (a.wake (· == t)).state u = a.state u := by
      simp only [Timeline.wake, beq_false_of_ne hut, Bool.false_eq_true, if_false]
    exact (hp u (hsame.symm.trans hu)).imp_right fun hreq => hb (.inr hreq)

/-! ### The delayed lists -/

theorem Refines.readied_delayed (h : Refines T s a contents lo) (t : τ)
    (hl : contents s.pxDelayedTaskList = ⟨[], l⟩) :
    readied T contents t s.pxDelayedTaskList = ⟨[], l.erase (.xStateListItem t)⟩ := by
  have hne : s.pxDelayedTaskList ≠ .pxReadyTasksLists (T.uxPriority t) := by
    rcases h.delayedLists with ⟨h₁, -⟩ | ⟨h₁, -⟩ <;> rw [h₁] <;> exact nofun
  have hev : (.xEventListItem t : TaskItem τ) ∉ l.erase (.xStateListItem t) := by
    intro hm
    have hx : .xEventListItem t ∈ (contents s.pxDelayedTaskList).items := by
      rw [hl]
      exact List.mem_of_mem_erase hm
    obtain ⟨u, -, hu, -⟩ := h.delayed_of_mem (.inl rfl) hx
    cases hu
  rw [readied_of_ne hne, hl]
  change Carousel.mk [] ((l.erase _).erase _) = _
  rw [List.erase_of_not_mem hev]

omit [DecidableEq τ] in
theorem Refines.mem_delayed {due : Nat} (h : Refines T s a contents lo)
    (ht : a.state t = .delayed due)
    (he : due / 2 ^ 32 = a.now / 2 ^ 32) :
    .xStateListItem t ∈ (contents s.pxDelayedTaskList).items := by
  rw [← h.holds.container, h.state, ht, home, if_pos he]

omit [DecidableEq τ] in
theorem Refines.resetUnblockTime (h : Refines T s a contents lo) :
    ∃ v, s.prvResetNextTaskUnblockTime = some { s with xNextTaskUnblockTime := v } ∧
      Refines T { s with xNextTaskUnblockTime := v } a contents lo := by
  obtain ⟨l, hl, hs⟩ := h.sorted _ (.inl rfl)
  have hitems : (contents s.pxDelayedTaskList).items = l := by rw [hl]; rfl
  rw [prvResetNextTaskUnblockTime]
  cases l with
  | nil =>
    refine ⟨portMAX_DELAY, if_pos (h.holds.empty_iff.2 hitems), h.withUnblockTime _ ?_⟩
    intro t due ht he
    have hm := h.mem_delayed ht he
    rw [hitems] at hm
    cases hm
  | cons x l =>
    have hhead := h.holds.head s.pxDelayedTaskList
    rw [hitems, List.head?_cons] at hhead
    have hx : x ∈ (contents s.pxDelayedTaskList).items := by
      rw [hitems]
      exact List.mem_cons_self
    obtain ⟨t, -, rfl, -⟩ := h.delayed_of_mem (.inl rfl) hx
    have hne : ¬s.lists.listLIST_IS_EMPTY s.pxDelayedTaskList = true := by
      rw [h.holds.empty_iff, hitems]
      exact List.cons_ne_nil _ _
    refine ⟨s.lists.xItemValue (.xStateListItem t), ?_, h.withUnblockTime _ ?_⟩
    · rw [if_neg hne, hhead]
      rfl
    · intro u due hu he
      have hm := h.mem_delayed hu he
      rw [hitems] at hm
      rcases List.mem_cons.1 hm with heq | hm
      · obtain rfl := TaskItem.xStateListItem.inj heq
        exact UInt32.le_refl _
      · exact List.rel_of_pairwise_cons hs hm

/-! ### One tick -/

omit [DecidableEq τ] in
/-- A tick within an epoch. -/
theorem Refines.advance (h : Refines T s a contents (a.now + 1))
    (hw : (a.now + 1) % 2 ^ 32 ≠ 0) :
    Refines T { s with xTickCount := s.xTickCount + 1 } { a with now := a.now + 1 } contents
      (a.now + 1) := by
  have hepoch : (a.now + 1) / 2 ^ 32 = a.now / 2 ^ 32 := by omega
  refine { h with now := ?_, overflows := ?_, state := ?_, due := ?_, unblockTime := ?_ }
  · change s.xTickCount + 1 = UInt32.ofNat (a.now + 1)
    rw [h.now, UInt32.ofNat_add]
    rfl
  · exact h.overflows.trans hepoch.symm
  · intro t
    rw [h.state]
    cases a.state t <;> simp only [home, hepoch]
  · intro t due ht
    have hd := h.due t due ht
    exact ⟨hd.1, Nat.lt_of_lt_of_le hd.2.1 (by simp), hd.2.2⟩
  · intro t due ht he
    exact h.unblockTime t due ht (he.trans hepoch)

omit [DecidableEq τ] in
/-- At the end of an epoch all tasks of the epoch are ready, and the lists change their roles. -/
theorem Refines.switch (h : Refines T s a contents (a.now + 1)) (hw : (a.now + 1) % 2 ^ 32 = 0) :
    ∃ s', { s with xTickCount := s.xTickCount + 1 }.taskSWITCH_DELAYED_LISTS = some s' ∧
      Refines T s' { a with now := a.now + 1 } contents (a.now + 1) ∧
      s'.xYieldPending = s.xYieldPending ∧
      s'.portNVIC_PENDSVSET_BIT = s.portNVIC_PENDSVSET_BIT := by
  have hepoch : (a.now + 1) / 2 ^ 32 = a.now / 2 ^ 32 + 1 := by omega
  have hnext (t due) (ht : a.state t = .delayed due) : due / 2 ^ 32 = a.now / 2 ^ 32 + 1 := by
    obtain ⟨hlo, hlt, -⟩ := h.due t due ht
    omega
  have hempty : (contents s.pxDelayedTaskList).items = [] := by
    apply List.eq_nil_iff_forall_not_mem.2
    intro x hx
    obtain ⟨t, due, -, ht, hd⟩ := h.delayed_of_mem (.inl rfl) hx
    have he := hd.1 rfl
    have hn := hnext t due ht
    omega
  let s' : Kernel τ :=
    { s with
      xTickCount := s.xTickCount + 1
      pxDelayedTaskList := s.pxOverflowDelayedTaskList
      pxOverflowDelayedTaskList := s.pxDelayedTaskList
      xNumOfOverflows := s.xNumOfOverflows + 1
      xNextTaskUnblockTime := 0 }
  have hs' : Refines T s' { a with now := a.now + 1 } contents (a.now + 1) := by
    refine { h with
      now := ?_, overflows := ?_, state := ?_, due := ?_, unblockTime := ?_, delayedLists := ?_
      sorted := ?_ }
    · change s.xTickCount + 1 = UInt32.ofNat (a.now + 1)
      rw [h.now, UInt32.ofNat_add]
      rfl
    · change s.xNumOfOverflows + 1 = (a.now + 1) / 2 ^ 32
      rw [h.overflows, hepoch]
    · exact h.delayedLists.symm.imp And.symm And.symm
    · intro t
      change s.lists.pxContainer _ = _
      rw [h.state]
      cases ht : a.state t with
      | delayed due =>
        have hn := hnext t due ht
        simp only [home]
        rw [if_neg (by omega), if_pos (by omega)]
      | absent => simp only [home]
      | ready => simp only [home]
      | suspended => simp only [home]
    · exact fun k hk => h.sorted k hk.symm
    · intro t due ht
      have hd := h.due t due ht
      exact ⟨hd.1, Nat.lt_of_lt_of_le hd.2.1 (by simp), hd.2.2⟩
    · intro t due _ _
      exact UInt32.le_iff_toNat_le.2 (Nat.zero_le _)
  obtain ⟨v, hv, hr⟩ := hs'.resetUnblockTime
  refine ⟨_, ?_, hr, rfl, rfl⟩
  rw [← hv, taskSWITCH_DELAYED_LISTS, if_pos (h.holds.empty_iff.2 hempty)]
  rfl

theorem ofNat_lt_iff (h : m / 2 ^ 32 = n / 2 ^ 32) : UInt32.ofNat m < UInt32.ofNat n ↔ m < n := by
  rw [UInt32.lt_iff_toNat_lt, UInt32.toNat_ofNat', UInt32.toNat_ofNat']
  omega

omit [DecidableEq τ] in
theorem Refines.wakeDue_of_none (h : Refines T s a contents lo)
    (hnone : ∀ t due, a.state t = .delayed due → a.now < due) :
    Refines T s a.wakeDue contents (a.now + 1) ∧ a.wakeDue = a := by
  have heq : a.wakeDue = a := by
    apply a.wake_none
    intro t
    rw [Bool.eq_false_iff, ne_eq, Timeline.isDue_iff]
    rintro ⟨due, ht, hle⟩
    exact absurd (hnone t due ht) (Nat.not_lt.2 hle)
  exact ⟨heq.symm ▸ h.later hnone, heq⟩

/-- The loop wakes the tasks that are due, one after another. -/
theorem unblockTasks_refines (fuel : Nat) (h : Refines T s a contents a.now)
    (hl : contents s.pxDelayedTaskList = ⟨[], l⟩) (hf : l.length < fuel) (b : Bool) :
    ∃ b' s' contents', unblockTasks T s.xTickCount fuel b s = some (b', s') ∧
      Refines T s' a.wakeDue contents' (a.now + 1) ∧
      Wakes T s s' a a.wakeDue contents contents' b b' := by
  have hitems : (contents s.pxDelayedTaskList).items = l := by rw [hl]; rfl
  induction l generalizing s a contents fuel b with
  | nil =>
    obtain ⟨fuel, rfl⟩ := Nat.exists_eq_succ_of_ne_zero (Nat.ne_of_gt hf)
    have hnone (t due) (ht : a.state t = .delayed due) : due / 2 ^ 32 ≠ a.now / 2 ^ 32 := by
      intro he
      have hm := h.mem_delayed ht he
      rw [hitems] at hm
      cases hm
    obtain ⟨h', heq⟩ := (h.withUnblockTime portMAX_DELAY fun t due ht he =>
      absurd he (hnone t due ht)).wakeDue_of_none fun t due ht =>
        Nat.lt_of_le_of_ne (h.due t due ht).1 fun he => hnone t due ht (by rw [he])
    refine ⟨b, _, contents, ?_, h', ?_⟩
    · rw [unblockTasks, if_pos (h.holds.empty_iff.2 hitems)]
    · rw [heq]
      exact .requests contents id
  | cons x l ih =>
    obtain ⟨fuel, rfl⟩ := Nat.exists_eq_succ_of_ne_zero (Nat.ne_of_gt (Nat.zero_lt_of_lt hf))
    have hx : x ∈ (contents s.pxDelayedTaskList).items := by
      rw [hitems]
      exact List.mem_cons_self
    obtain ⟨t, due, rfl, ht, hd⟩ := h.delayed_of_mem (.inl rfl) hx
    have hepoch := hd.1 rfl
    obtain ⟨hlo, -, hval⟩ := h.due t due ht
    have hhead := h.holds.head s.pxDelayedTaskList
    rw [hitems, List.head?_cons] at hhead
    have hne : ¬s.lists.listLIST_IS_EMPTY s.pxDelayedTaskList = true := by
      rw [h.holds.empty_iff, hitems]
      exact List.cons_ne_nil _ _
    rw [unblockTasks, if_neg hne, hhead, Option.bind_eq_bind, Option.bind_some]
    dsimp only [TaskItem.pvOwner]
    have hcmp : s.xTickCount < s.lists.xItemValue (.xStateListItem t) ↔ a.now < due := by
      rw [h.now, hval, ofNat_lt_iff hepoch.symm]
    by_cases hlt : a.now < due
    · -- the first delayed task is not due, and no other task of the epoch is
      obtain ⟨l', hl', hs⟩ := h.sorted _ (.inl rfl)
      obtain rfl : .xStateListItem t :: l = l' := (congrArg Carousel.waiting (hl.symm.trans hl'))
      have hfirst (u due') (hu : a.state u = .delayed due') (he : due' / 2 ^ 32 = a.now / 2 ^ 32) :
          s.lists.xItemValue (.xStateListItem t) ≤ s.lists.xItemValue (.xStateListItem u) := by
        have hm := h.mem_delayed hu he
        rw [hitems] at hm
        rcases List.mem_cons.1 hm with heq | hm
        · obtain rfl := TaskItem.xStateListItem.inj heq
          exact UInt32.le_refl _
        · exact List.rel_of_pairwise_cons hs hm
      have hnone (u due') (hu : a.state u = .delayed due') : a.now < due' := by
        obtain ⟨hlo', -, hval'⟩ := h.due u due' hu
        refine Nat.lt_of_le_of_ne hlo' fun he => ?_
        have hle := hfirst u due' hu (by rw [he])
        rw [hval, hval', ← he, ← UInt32.not_lt] at hle
        exact hle ((ofNat_lt_iff hepoch.symm).2 hlt)
      obtain ⟨h', heq⟩ := (h.withUnblockTime _ hfirst).wakeDue_of_none hnone
      refine ⟨b, _, contents, ?_, h', ?_⟩
      · rw [if_pos (hcmp.2 hlt)]
        rfl
      · rw [heq]
        exact .requests contents id
    · have hdue : a.isDue t = true := Timeline.isDue_iff.2 ⟨due, ht, Nat.le_of_not_lt hlt⟩
      obtain ⟨l', hun, hr⟩ := unblock_eq (T := T) h.holds (h.holds.container _ _ |>.2 hx)
      have hready := h.ready (by rw [ht]; exact nofun) hr
      have hrest : readied T contents t (s.added T t l').pxDelayedTaskList = ⟨[], l⟩ := by
        refine (h.readied_delayed t hl).trans ?_
        rw [List.erase_cons_head]
      obtain ⟨b', s', contents', hrun, href, hwakes⟩ := ih fuel hready hrest
        (Nat.lt_of_succ_lt_succ hf) (b || T.uxPriority s.pxCurrentTCB ≤ T.uxPriority t)
        (by rw [hrest]; rfl)
      rw [Timeline.wake_wakeDue hdue] at href hwakes
      refine ⟨b', s', contents', ?_, href,
        .trans (h.ready_wakes (by rw [ht]; exact nofun) ?_) hwakes⟩
      · rw [if_neg (hcmp.not.2 hlt), hun]
        exact hrun
      · rintro (hlt | hb | hreq)
        · rw [h.current, decide_eq_true (Nat.le_of_lt hlt), Bool.or_true]
          exact .inl rfl
        · rw [hb]
          exact .inl rfl
        · exact .inr hreq

theorem unblockDue_refines (h : Refines T s a contents a.now) :
    ∃ b s' contents', s.unblockDue T = some (b, s') ∧
      Refines T s' a.wakeDue contents' (a.now + 1) ∧
      Wakes T s s' a a.wakeDue contents contents' false b := by
  obtain ⟨l, hl, -⟩ := h.sorted _ (.inl rfl)
  rw [unblockDue]
  by_cases hge : s.xTickCount ≥ s.xNextTaskUnblockTime
  · rw [if_pos hge]
    refine unblockTasks_refines _ h hl ?_ false
    rw [h.holds.count, hl]
    exact Nat.lt_succ_self _
  · rw [if_neg hge]
    have hnone (t due) (ht : a.state t = .delayed due) : a.now < due := by
      obtain ⟨hlo, -, hval⟩ := h.due t due ht
      refine Nat.lt_of_le_of_ne hlo fun he => hge ?_
      have hle := h.unblockTime t due ht (by rw [he])
      rwa [hval, ← he, ← h.now] at hle
    obtain ⟨h', heq⟩ := h.wakeDue_of_none hnone
    refine ⟨false, s, contents, rfl, h', ?_⟩
    rw [heq]
    exact .requests contents id

omit [DecidableEq τ] in
theorem incrementTickCount_refines (h : Refines T s a contents (a.now + 1)) :
    ∃ s', s.incrementTickCount = some s' ∧
      Refines T s' { a with now := a.now + 1 } contents (a.now + 1) ∧
      s'.xYieldPending = s.xYieldPending ∧
      s'.portNVIC_PENDSVSET_BIT = s.portNVIC_PENDSVSET_BIT := by
  have hsum : s.xTickCount + 1 = UInt32.ofNat (a.now + 1) := by
    rw [h.now, UInt32.ofNat_add]
    rfl
  have hzero : s.xTickCount + 1 = 0 ↔ (a.now + 1) % 2 ^ 32 = 0 := by
    rw [hsum, ← UInt32.toNat_inj, UInt32.toNat_ofNat']
    rfl
  rw [incrementTickCount]
  by_cases hw : (a.now + 1) % 2 ^ 32 = 0
  · dsimp only
    rw [if_pos (hzero.2 hw)]
    exact h.switch hw
  · dsimp only
    rw [if_neg (hzero.not.2 hw)]
    exact ⟨_, rfl, h.advance hw, rfl, rfl⟩

/-- A tick of the kernel is a tick of true time. -/
theorem xTaskIncrementTick_refines (h : Refines T s a contents (a.now + 1))
    (hp : a.nesting ≠ 0 → a.pended + 1 < 2 ^ 32) :
    ∃ b s' contents', s.xTaskIncrementTick T = some (b, s') ∧
      Refines T s' a.tick contents' (a.tick.now + 1) ∧
      Wakes T s s' a a.tick contents contents' false b := by
  rw [xTaskIncrementTick, Timeline.tick]
  by_cases hn : a.nesting = 0
  · obtain ⟨s₁, hs₁, h₁, hy, hp⟩ := incrementTickCount_refines h
    obtain ⟨b, s₂, contents', hs₂, h₂, hw⟩ :=
      unblockDue_refines (a := { a with now := a.now + 1 }) h₁
    rw [if_pos (h.nesting.trans hn), if_pos hn, hs₁]
    refine ⟨s₂.switchRequired T b, s₂, contents', ?_, h₂, ⟨hw.turns, fun hpre => ?_⟩⟩
    · rw [Option.bind_eq_bind, Option.bind_some, hs₂]
      rfl
    · have hpre' : Preempts T s₁ { a with now := a.now + 1 } false := by
        intro t ht
        rw [hy, hp]
        exact hpre t ht
      intro t ht
      refine (hw.preempts hpre' t ht).imp_right (.imp_left fun hb => ?_)
      rw [switchRequired, hb, Bool.true_or, Bool.true_or]
  · rw [if_neg (fun he => hn (h.nesting.symm.trans he)), if_neg hn]
    refine ⟨false, _, contents, rfl, { h with pended := ?_, pended_lt := hp hn },
      ⟨KeepsTurn.refl contents, id⟩⟩
    change s.xPendedTicks + 1 = UInt32.ofNat (a.pended + 1)
    rw [h.pended, UInt32.ofNat_add]
    rfl

end Kernel

end RobotCar

import RobotCar.KernelSwitch
import RobotCar.Lib.Transition

namespace RobotCar
open Transition
set_option autoImplicit true

structure System (τ : Type) where
  tasks : Tasks τ
  kernel : Kernel τ

/-- The calls that change the state of the kernel, and the interrupts of its port. The blocking
calls are those that other functions of the kernel and of the queues are made of. -/
inductive KernelCall (τ : Type) where
  | xTaskCreate (pxNewTCB : τ)
  | vTaskStartScheduler
  | xPortSysTickHandler
  | xPortPendSVHandler
  | portYIELD
  | vTaskMissedYield
  | vTaskSuspendAll
  | xTaskResumeAll
  | prvAddCurrentTaskToDelayedList (xTicksToWait : UInt32)
  | vTaskPlaceOnEventList (pxEventList : Nat) (xTicksToWait : UInt32)
  | vTaskPlaceOnEventListRestricted (pxEventList : Nat) (xTicksToWait : UInt32)
      (xWaitIndefinitely : Bool)
  | xTaskRemoveFromEventList (pxEventList : Nat)
  | pvTaskIncrementMutexHeldCount
  | xTaskPriorityInherit (pxMutexHolder : τ)
  | xTaskPriorityDisinherit (pxMutexHolder : τ)
  | vTaskPriorityDisinheritAfterTimeout (pxMutexHolder : τ) (pxEventList : Nat)

def KernelCall.isSwitch : KernelCall τ → Bool
  | .xPortPendSVHandler => true
  | _ => false

def KernelCall.isInherit : KernelCall τ → Bool
  | .xTaskPriorityInherit _ => true
  | _ => false

namespace System

variable {τ : Type} [DecidableEq τ]

def withKernel (p : System τ) (s : Option (Kernel τ)) : Option (System τ) :=
  s.map fun s => { p with kernel := s }

def call (p : System τ) : KernelCall τ → Option (System τ)
  | .xTaskCreate pxNewTCB => p.withKernel (p.kernel.xTaskCreate p.tasks pxNewTCB)
  | .vTaskStartScheduler => p.withKernel p.kernel.vTaskStartScheduler
  | .xPortSysTickHandler => p.withKernel (p.kernel.xPortSysTickHandler p.tasks)
  | .xPortPendSVHandler => p.withKernel p.kernel.xPortPendSVHandler
  | .portYIELD => p.withKernel p.kernel.portYIELD
  | .vTaskMissedYield => p.withKernel (some { p.kernel with xYieldPending := true })
  | .vTaskSuspendAll => p.withKernel p.kernel.vTaskSuspendAll
  | .xTaskResumeAll => p.withKernel ((p.kernel.xTaskResumeAll p.tasks).map Prod.snd)
  | .prvAddCurrentTaskToDelayedList xTicksToWait =>
    p.withKernel (p.kernel.prvAddCurrentTaskToDelayedList xTicksToWait false)
  | .vTaskPlaceOnEventList pxEventList xTicksToWait =>
    p.withKernel (p.kernel.vTaskPlaceOnEventList pxEventList xTicksToWait)
  | .vTaskPlaceOnEventListRestricted pxEventList xTicksToWait xWaitIndefinitely =>
    p.withKernel
      (p.kernel.vTaskPlaceOnEventListRestricted pxEventList xTicksToWait xWaitIndefinitely)
  | .xTaskRemoveFromEventList pxEventList =>
    p.withKernel ((p.kernel.xTaskRemoveFromEventList p.tasks pxEventList).map Prod.snd)
  | .pvTaskIncrementMutexHeldCount =>
    some { p with tasks := p.kernel.pvTaskIncrementMutexHeldCount p.tasks }
  | .xTaskPriorityInherit pxMutexHolder =>
    (p.kernel.xTaskPriorityInherit p.tasks pxMutexHolder).map fun r => ⟨r.2.1, r.2.2⟩
  | .xTaskPriorityDisinherit pxMutexHolder =>
    (p.kernel.xTaskPriorityDisinherit p.tasks pxMutexHolder).map fun r => ⟨r.2.1, r.2.2⟩
  | .vTaskPriorityDisinheritAfterTimeout pxMutexHolder pxEventList => do
    let uxHighestPriorityWaitingTask ← p.kernel.prvGetDisinheritPriorityAfterTimeout pxEventList
    (p.kernel.vTaskPriorityDisinheritAfterTimeout p.tasks pxMutexHolder
      uxHighestPriorityWaitingTask).map fun r => ⟨r.1, r.2⟩

def IsReady (p : System τ) (t : τ) : Prop :=
  p.kernel.lists.pxContainer (.xStateListItem t) = some (.pxReadyTasksLists (p.tasks.uxPriority t))

instance (p : System τ) (t : τ) : Decidable (p.IsReady t) :=
  inferInstanceAs (Decidable (_ = _))

def Exists (p : System τ) (t : τ) : Prop :=
  p.kernel.lists.pxContainer (.xStateListItem t) ≠ none

instance (p : System τ) (t : τ) : Decidable (p.Exists t) :=
  inferInstanceAs (Decidable (_ ≠ _))

/-- The running task is ready, and the idle task never blocks. -/
def CanBlock (p : System τ) : Prop :=
  p.kernel.xSchedulerRunning = true ∧ p.kernel.pxCurrentTCB ≠ p.tasks.xIdleTaskHandle ∧
    p.IsReady p.kernel.pxCurrentTCB

instance (p : System τ) : Decidable p.CanBlock :=
  inferInstanceAs (Decidable (_ ∧ _ ∧ _))

/-- What the callers see to: there are no interrupts of the port before the scheduler is started, a
task is created once, an event comes for a task that waits for it, a block time is not zero, and
less than `2 ^ 32` ticks come while the scheduler is suspended. The conditions on mutexes are the
assertions of the calls. -/
def Legal (p : System τ) : KernelCall τ → Prop
  | .xTaskCreate pxNewTCB => ¬p.Exists pxNewTCB
  | .vTaskStartScheduler => p.kernel.xSchedulerRunning = false ∧ p.IsReady p.tasks.xIdleTaskHandle
  | .xPortSysTickHandler => p.kernel.xSchedulerRunning = true ∧
    (p.kernel.uxSchedulerSuspended ≠ 0 → p.kernel.xPendedTicks ≠ portMAX_DELAY)
  | .xPortPendSVHandler => p.kernel.xSchedulerRunning = true
  | .portYIELD | .vTaskMissedYield | .vTaskSuspendAll | .pvTaskIncrementMutexHeldCount => True
  | .xTaskResumeAll => p.kernel.uxSchedulerSuspended ≠ 0
  | .prvAddCurrentTaskToDelayedList xTicksToWait
  | .vTaskPlaceOnEventList _ xTicksToWait => p.CanBlock ∧ xTicksToWait ≠ 0
  | .vTaskPlaceOnEventListRestricted _ xTicksToWait xWaitIndefinitely =>
    p.CanBlock ∧ (xWaitIndefinitely = true ∨ xTicksToWait ≠ 0)
  | .xTaskRemoveFromEventList pxEventList =>
    p.kernel.lists.listLIST_IS_EMPTY (.xTasksWaiting pxEventList) = false
  | .xTaskPriorityInherit pxMutexHolder => p.Exists pxMutexHolder
  | .xTaskPriorityDisinherit pxMutexHolder => pxMutexHolder = p.kernel.pxCurrentTCB ∧
    p.tasks.uxMutexesHeld pxMutexHolder ≠ 0 ∧ p.IsReady pxMutexHolder
  | .vTaskPriorityDisinheritAfterTimeout pxMutexHolder _ => p.Exists pxMutexHolder ∧
    p.tasks.uxMutexesHeld pxMutexHolder ≠ 0 ∧
      (p.tasks.uxMutexesHeld pxMutexHolder = 1 → pxMutexHolder ≠ p.kernel.pxCurrentTCB)

instance (p : System τ) : (c : KernelCall τ) → Decidable (p.Legal c)
  | .xTaskCreate _ => inferInstanceAs (Decidable (¬_))
  | .vTaskStartScheduler => inferInstanceAs (Decidable (_ ∧ _))
  | .xPortSysTickHandler => inferInstanceAs (Decidable (_ ∧ (_ → _)))
  | .xPortPendSVHandler => inferInstanceAs (Decidable (_ = _))
  | .portYIELD => instDecidableTrue
  | .vTaskMissedYield => instDecidableTrue
  | .vTaskSuspendAll => instDecidableTrue
  | .pvTaskIncrementMutexHeldCount => instDecidableTrue
  | .xTaskResumeAll => inferInstanceAs (Decidable (_ ≠ _))
  | .prvAddCurrentTaskToDelayedList _ => inferInstanceAs (Decidable (_ ∧ _))
  | .vTaskPlaceOnEventList _ _ => inferInstanceAs (Decidable (_ ∧ _))
  | .vTaskPlaceOnEventListRestricted _ _ _ => inferInstanceAs (Decidable (_ ∧ (_ ∨ _)))
  | .xTaskRemoveFromEventList _ => inferInstanceAs (Decidable (_ = _))
  | .xTaskPriorityInherit _ => inferInstanceAs (Decidable (_ ≠ _))
  | .xTaskPriorityDisinherit _ => inferInstanceAs (Decidable (_ ∧ _ ∧ _))
  | .vTaskPriorityDisinheritAfterTimeout _ _ => inferInstanceAs (Decidable (_ ∧ _ ∧ (_ → _)))

/-- The system at power-on. -/
def reset (T : Tasks τ) : System τ := ⟨T, .reset T⟩

end System

/-- The tasks of the car, with those that the kernel creates itself. -/
inductive CarTask where
  | idleTask
  | timerTask
  | defaultTask
  | controlTask
  | servoTask
  | ROSTask
  | LEDTask
  deriving DecidableEq

/-- The priorities are those of the thread attributes. -/
def CarTask.priority : CarTask → Nat
  | .idleTask => 0
  | .timerTask => 2
  | .defaultTask => 24
  | .controlTask => 48
  | .servoTask => 24
  | .ROSTask => 24
  | .LEDTask => 8

theorem CarTask.priority_lt (t : CarTask) : t.priority < configMAX_PRIORITIES := by
  cases t <;> decide

def carTasks : Tasks CarTask where
  uxPriority := CarTask.priority
  uxBasePriority := CarTask.priority
  uxMutexesHeld := fun _ => 0
  xIdleTaskHandle := .idleTask
  uxPriority_lt := CarTask.priority_lt
  uxBasePriority_lt := CarTask.priority_lt

namespace Timeline

variable {τ : Type} [DecidableEq τ]

/-- The timeline at power-on. -/
def reset (T : Tasks τ) : Timeline τ where
  now := 0
  pended := 0
  nesting := 0
  running := false
  tasks := 0
  current := T.xIdleTaskHandle
  state := fun _ => .absent
  waiting := fun _ => []
  pendingReady := fun _ => false

/-- What a call does in true time. -/
inductive Step (T : Tasks τ) (a : Timeline τ) : KernelCall τ → Timeline τ → Prop where
  | create : a.state t = .absent → Step T a (.xTaskCreate t) (a.create T t)
  | start : a.state T.xIdleTaskHandle = .ready →
    Step T a .vTaskStartScheduler { a with running := true }
  | tick : a.running = true → Step T a .xPortSysTickHandler a.tick
  | stay : a.nesting ≠ 0 → Step T a .xPortPendSVHandler a
  | switch : a.nesting = 0 → a.state t = .ready →
    (∀ u, a.state u = .ready → T.uxPriority u ≤ T.uxPriority t) →
    Step T a .xPortPendSVHandler { a with current := t }
  | portYIELD : Step T a .portYIELD a
  | missedYield : Step T a .vTaskMissedYield a
  | suspend : Step T a .vTaskSuspendAll { a with nesting := a.nesting + 1 }
  | resume : a.nesting ≠ 0 → Step T a .xTaskResumeAll a.resumeAll
  | sleep : a.state a.current = .ready →
    Step T a (.prvAddCurrentTaskToDelayedList n) (a.sleep n.toNat)
  | await : a.state a.current = .ready →
    Step T a (.vTaskPlaceOnEventList event n) (a.await T event (Kernel.timeLimit n))
  | awaitLast : a.state a.current = .ready →
    Step T a (.vTaskPlaceOnEventListRestricted event n b)
      (a.awaitLast event (if b then none else some n.toNat))
  | notify : a.waiting event = t :: rest →
    Step T a (.xTaskRemoveFromEventList event) (a.notify event t rest)
  | hold : Step T a .pvTaskIncrementMutexHeldCount a
  | inherit : Step T a (.xTaskPriorityInherit t) a
  | disinherit : Step T a (.xTaskPriorityDisinherit t) a
  | timeout : Step T a (.vTaskPriorityDisinheritAfterTimeout t event) a

end Timeline

namespace Timeline

variable {τ : Type}

/-- What ticks leave as it is. -/
def setup (a : Timeline τ) : Nat × Bool × Nat × τ := (a.nesting, a.running, a.tasks, a.current)

theorem tick_setup (a : Timeline τ) : a.tick.setup = a.setup := by
  rw [tick]
  split <;> rfl

theorem ticks_setup (a : Timeline τ) (n : Nat) : (tick^[n] a).setup = a.setup := by
  induction n generalizing a with
  | zero => rfl
  | succ n ih => rw [Function.iterate_succ_apply, ih, tick_setup]

theorem resumeAll_setup (a : Timeline τ) :
    a.resumeAll.setup = (a.nesting - 1, a.running, a.tasks, a.current) := by
  rw [resumeAll]
  split
  · rename_i h
    have hs := ticks_setup ({ a with nesting := 0 }.wake a.pendingReady) a.pended
    rw [h.1]
    exact hs
  · rfl

theorem resumeAll_of_none (a : Timeline τ) (hp : a.pended = 0)
    (hr : ∀ t, a.pendingReady t = false) : a.resumeAll = { a with nesting := a.nesting - 1 } := by
  rw [resumeAll]
  split
  · rename_i h
    have hw : { a with nesting := 0 }.wake a.pendingReady = { a with nesting := 0 } :=
      wake_none _ hr
    rw [resume, hw, hp, h.1, Function.iterate_zero_apply]
  · rfl

theorem notify_setup [DecidableEq τ] (a : Timeline τ) (event : Nat) (t : τ) (rest : List τ) :
    ((a.notify event t rest).running, (a.notify event t rest).tasks, (a.notify event t rest).now) =
      (a.running, a.tasks, a.now) := by
  rw [notify]
  split <;> rfl

/-- What holds of the timeline before the scheduler is started, and after. -/
structure Begun (a : Timeline τ) : Prop where
  now : a.running = false → a.now = 0
  pended : a.running = false → a.pended = 0
  state : a.running = false → ∀ t, a.state t = .absent ∨ a.state t = .ready
  first : a.running = false → a.tasks = 0 → ∀ t, a.state t = .absent
  started : a.running = true → a.tasks ≠ 0

theorem Begun.of_running (h : a.running = true) (ht : a.tasks ≠ 0) : Begun a := by
  refine ⟨fun hf => ?_, fun hf => ?_, fun hf => ?_, fun hf => ?_, fun _ => ht⟩ <;>
    exact absurd (h.symm.trans hf) nofun

theorem Begun.no_ready (h : Begun a) (ht : a.tasks = 0) (t : τ) : a.state t ≠ .ready := by
  cases hrun : a.running with
  | true => exact absurd ht (h.started hrun)
  | false =>
    rw [h.first hrun ht t]
    exact nofun

end Timeline

namespace Kernel

variable {τ : Type} [DecidableEq τ] {T : Tasks τ} {s : Kernel τ} {a : Timeline τ}
  {contents : KernelList → Carousel (TaskItem τ)}

omit [DecidableEq τ] in
theorem Refines.absent_iff (h : Refines T s a contents lo) :
    s.lists.pxContainer (.xStateListItem t) = none ↔ a.state t = .absent := by
  rw [h.state]
  cases a.state t <;> simp [home]

omit [DecidableEq τ] in
theorem Refines.ready_iff (h : Refines T s a contents lo) :
    s.lists.pxContainer (.xStateListItem t) = some (.pxReadyTasksLists (T.uxPriority t)) ↔
      a.state t = .ready := by
  rw [h.holds.container, h.mem_ready]
  constructor
  · rintro ⟨u, hu, hready, -⟩
    rwa [TaskItem.xStateListItem.inj hu]
  · exact fun hready => ⟨t, rfl, hready, rfl⟩

omit [DecidableEq τ] in
theorem Refines.exists_waiting (h : Refines T s a contents lo)
    (hl : s.lists.listLIST_IS_EMPTY (.xTasksWaiting n) = false) :
    ∃ t rest, a.waiting n = t :: rest := by
  rw [Bool.eq_false_iff, ne_eq, h.holds.empty_iff, h.waiting] at hl
  cases hw : a.waiting n with
  | nil =>
    rw [hw] at hl
    exact absurd rfl hl
  | cons t rest => exact ⟨t, rest, rfl⟩

omit [DecidableEq τ] in
theorem Refines.no_waiting (h : Refines T s a contents lo) (hb : a.Begun) (hrun : a.running = false)
    (t : τ) : s.lists.pxContainer (.xEventListItem t) = none := by
  by_contra hne
  have hblocked := h.blocked t hne
  rcases hb.state hrun t with he | he
  · exact hblocked.2 he
  · exact hblocked.1 he

theorem xPortSysTickHandler_refines (h : Refines T s a contents (a.now + 1))
    (hp : a.nesting ≠ 0 → a.pended + 1 < 2 ^ 32) :
    ∃ s' contents', s.xPortSysTickHandler T = some s' ∧
      Refines T s' a.tick contents' (a.tick.now + 1) ∧
      Wakes T s s' a a.tick contents contents' false false := by
  obtain ⟨b, s', contents', hs', href, hw⟩ := xTaskIncrementTick_refines h hp
  rw [xPortSysTickHandler, hs']
  cases b with
  | false => exact ⟨s', contents', rfl, href, hw⟩
  | true =>
    refine ⟨s'.portYIELD, contents', rfl, href.withYield s'.xYieldPending true, ?_⟩
    exact hw.trans (.requests contents' fun _ => .inr (.inr rfl))

omit [DecidableEq τ] in
theorem vTaskStartScheduler_refines (h : Refines T s a contents lo) (hb : a.Begun)
    (hrun : a.running = false) (hidle : a.state T.xIdleTaskHandle = .ready) :
    Refines T s.vTaskStartScheduler { a with running := true } contents lo := by
  refine { h with now := ?_, running := rfl, unblockTime := ?_, idle := fun _ => hidle }
  · rw [hb.now hrun]
    rfl
  · intro t due ht
    rcases hb.state hrun t with he | he <;> exact absurd (he.symm.trans ht) nofun

end Kernel

namespace System

variable {τ : Type} [DecidableEq τ] {p p' : System τ} {a a' : Timeline τ}
  {contents contents' : KernelList → Carousel (TaskItem τ)}

/-- The number of turns, one or none, that a step gives to a task: a context switch with the task as
its result. -/
def turn (p : System τ) : KernelCall τ → System τ → τ → Nat
  | .xPortPendSVHandler, p', u =>
    if p.kernel.uxSchedulerSuspended = 0 ∧ p'.kernel.pxCurrentTCB = u then 1 else 0
  | _, _, _ => 0

theorem turn_of_not_switch {c : KernelCall τ} (hc : c.isSwitch = false) (p p' : System τ) (u : τ) :
    p.turn c p' u = 0 := by
  cases c with
  | xPortPendSVHandler => cases hc
  | _ => rfl

/-- What a step does to the order in which the ready tasks have their turns. -/
structure Effects (p p' : System τ) (c : KernelCall τ) (a a' : Timeline τ)
    (contents contents' : KernelList → Carousel (TaskItem τ)) : Prop where
  preempts : (p'.tasks.uxPriority = p.tasks.uxPriority ∨ ∃ t, c = .xTaskPriorityInherit t) →
    Kernel.Preempts p.tasks p.kernel a false → Kernel.Preempts p'.tasks p'.kernel a' false
  fair : p'.tasks.uxPriority = p.tasks.uxPriority → ∀ t u, a.state t = .ready →
    a'.state t = .ready → p.turn c p' t = 0 → p.tasks.uxPriority u ≤ p.tasks.uxPriority t →
    (contents' (.pxReadyTasksLists (p.tasks.uxPriority t))).credit (.xStateListItem t)
        (.xStateListItem u) + p.turn c p' u ≤
      (contents (.pxReadyTasksLists (p.tasks.uxPriority t))).credit (.xStateListItem t)
        (.xStateListItem u)

theorem Effects.of_wakes (h : Kernel.Refines p.tasks p.kernel a contents lo)
    (hw : Kernel.Wakes p.tasks p.kernel s' a a' contents contents' false false)
    (hc : c.isSwitch = false) :
    Effects p { p with kernel := s' } c a a' contents contents' := by
  refine ⟨fun _ hpre => hw.preempts hpre, fun _ t u ht _ _ _ => ?_⟩
  rw [turn_of_not_switch hc]
  exact (hw.turns _ _ (h.mem_ready.2 ⟨t, rfl, ht, rfl⟩)).2 _

theorem Effects.of_blocks (h : Kernel.Refines p.tasks p.kernel a contents lo)
    (hb : Kernel.Blocks p.tasks p.kernel s' a a' contents contents')
    (hcur : a'.state a.current ≠ .ready) (hc : c.isSwitch = false) :
    Effects p { p with kernel := s' } c a a' contents contents' := by
  refine ⟨fun _ hpre => hb.preempts hpre, fun _ t u ht ht' _ _ => ?_⟩
  rw [turn_of_not_switch hc]
  have hne : (.xStateListItem t : TaskItem τ) ≠ .xStateListItem a.current := by
    intro he
    rw [TaskItem.xStateListItem.inj he] at ht'
    exact hcur ht'
  exact (hb.turns _ hne _ (h.mem_ready.2 ⟨t, rfl, ht, rfl⟩)).2 _

theorem Effects.of_same (contents : KernelList → Carousel (TaskItem τ)) {T : Tasks τ} {s : Kernel τ}
    (hT : T.uxPriority = p.tasks.uxPriority)
    (hs : p.kernel.xYieldPending = true ∨ p.kernel.portNVIC_PENDSVSET_BIT = true →
      s.xYieldPending = true ∨ s.portNVIC_PENDSVSET_BIT = true)
    (hturn : ∀ u, p.turn c ⟨T, s⟩ u = 0) (hstate : a'.state = a.state)
    (hcur : a'.current = a.current) :
    Effects p ⟨T, s⟩ c a a' contents contents := by
  refine ⟨fun _ hpre t ht => ?_, fun _ t u _ _ _ _ => ?_⟩
  · rw [hT, hcur]
    rw [hstate] at ht
    exact (hpre t ht).imp_right (.imp_right hs)
  · rw [hturn]
    exact Nat.le_refl _

theorem Effects.of_unchanged {T : Tasks τ} {s : Kernel τ}
    (h : T.uxPriority = p.tasks.uxPriority → s = p.kernel ∧ contents' = contents)
    (hc : c.isSwitch = false) (hc' : c.isInherit = false) :
    Effects p ⟨T, s⟩ c a a contents contents' := by
  refine ⟨fun hor hpre t ht => ?_, fun he t u _ _ _ _ => ?_⟩
  · have he : T.uxPriority = p.tasks.uxPriority :=
      hor.resolve_right fun ⟨t, ht⟩ => by rw [ht] at hc'; cases hc'
    rw [he, (h he).1]
    exact hpre t ht
  · rw [turn_of_not_switch hc, (h he).2]
    exact Nat.le_refl _

/-- A call works, and does in true time what it should. -/
def Works (p : System τ) (a : Timeline τ) (contents : KernelList → Carousel (TaskItem τ))
    (c : KernelCall τ) : Prop :=
  ∃ p' a' contents', p.call c = some p' ∧ Timeline.Step p.tasks a c a' ∧ a'.Begun ∧
    Kernel.Refines p'.tasks p'.kernel a' contents' (a'.now + 1) ∧
    Effects p p' c a a' contents contents'

theorem xPortPendSVHandler_works (h : Kernel.Refines p.tasks p.kernel a contents (a.now + 1))
    (hb : a.Begun) (hrun : a.running = true) : Works p a contents .xPortPendSVHandler := by
  have hb' (a' : Timeline τ) (hr : a'.running = a.running) (ht : a'.tasks = a.tasks) : a'.Begun :=
    .of_running (hr.trans hrun) (ht ▸ hb.started hrun)
  let s := { p.kernel with xYieldPending := false, portNVIC_PENDSVSET_BIT := false }
  by_cases hn : a.nesting = 0
  · have hsusp : p.kernel.uxSchedulerSuspended = 0 := h.nesting.trans hn
    obtain ⟨l, n, t, c, hsel, href, hnext, ht, htop⟩ :=
      Kernel.taskSELECT_HIGHEST_PRIORITY_TASK_refines (h.withYield false false) hrun
    let s' : Kernel τ := { s with lists := l, pxCurrentTCB := t, uxTopReadyPriority := n }
    refine ⟨{ p with kernel := s' }, _, _, ?_, .switch hn ht htop, hb' _ rfl rfl, href, ⟨?_, ?_⟩⟩
    · rw [call, Kernel.xPortPendSVHandler, Kernel.vTaskSwitchContext]
      exact (congrArg p.withKernel ((if_neg (not_not.2 hsusp)).trans hsel))
    · exact fun _ _ u hu => .inl (htop u hu)
    · intro _ v u hv _ hnot hle
      have hne : t ≠ v := fun he => absurd hnot (by rw [turn, if_pos ⟨hsusp, he⟩]; exact nofun)
      have hitem : (.xStateListItem t : TaskItem τ) ≠ .xStateListItem v :=
        fun he => hne (TaskItem.xStateListItem.inj he)
      by_cases hp : p.tasks.uxPriority v = p.tasks.uxPriority t
      · have hcredit := Carousel.credit_next (u := .xStateListItem u) (h.holds.nodup _)
          (h.mem_ready.2 ⟨v, rfl, hv, hp⟩) hnext hitem
        rw [hp, Function.update_self]
        refine Nat.le_trans (Nat.add_le_add_left ?_ _) hcredit
        rw [turn]
        by_cases hu : t = u
        · rw [if_pos (congrArg _ hu)]
          split <;> omega
        · rw [if_neg fun he => hu he.2]
          exact Nat.zero_le _
      · have hother : p.turn .xPortPendSVHandler { p with kernel := s' } u = 0 := by
          refine if_neg fun he => hp ?_
          have hu : t = u := he.2
          rw [← hu] at hle
          exact Nat.le_antisymm (htop v hv) hle
        rw [hother, Function.update_of_ne fun he => hp (KernelList.pxReadyTasksLists.inj he)]
        exact Nat.le_refl _
  · have hsusp : p.kernel.uxSchedulerSuspended ≠ 0 := fun he => hn (h.nesting.symm.trans he)
    refine ⟨{ p with kernel := { s with xYieldPending := true } }, a, contents, ?_, .stay hn, hb,
      h.withYield true false, ?_⟩
    · rw [call, Kernel.xPortPendSVHandler, Kernel.vTaskSwitchContext]
      exact congrArg p.withKernel (if_pos hsusp)
    · exact .of_same contents rfl (fun _ => .inl rfl) (fun u => if_neg fun he => hsusp he.1) rfl rfl

theorem Works.of_wakes (h : Kernel.Refines p.tasks p.kernel a contents lo)
    (hs : p.call c = some { p with kernel := s' }) (hstep : Timeline.Step p.tasks a c a')
    (hb : a'.Begun) (href : Kernel.Refines p.tasks s' a' contents' (a'.now + 1))
    (hw : Kernel.Wakes p.tasks p.kernel s' a a' contents contents' false false)
    (hc : c.isSwitch = false) : Works p a contents c :=
  ⟨_, a', contents', hs, hstep, hb, href, .of_wakes h hw hc⟩

theorem Works.of_blocks (h : Kernel.Refines p.tasks p.kernel a contents lo)
    (hs : p.call c = some { p with kernel := s' }) (hstep : Timeline.Step p.tasks a c a')
    (hb : a'.Begun) (href : Kernel.Refines p.tasks s' a' contents' (a'.now + 1))
    (hw : Kernel.Blocks p.tasks p.kernel s' a a' contents contents')
    (hstate : a'.state = Function.update a.state a.current σ) (hσ : σ ≠ .ready)
    (hc : c.isSwitch = false) : Works p a contents c := by
  refine ⟨_, a', contents', hs, hstep, hb, href, .of_blocks h hw ?_ hc⟩
  rw [hstate, Function.update_self]
  exact hσ

omit [DecidableEq τ] in
theorem CanBlock.timeline (h : Kernel.Refines p.tasks p.kernel a contents lo) (hc : p.CanBlock) :
    a.running = true ∧ a.current ≠ p.tasks.xIdleTaskHandle ∧ a.state a.current = .ready := by
  obtain ⟨hrun, hidle, hready⟩ := hc
  rw [h.current] at hidle hready
  exact ⟨h.running.symm.trans hrun, hidle, h.ready_iff.1 hready⟩

/-- Every legal call works. -/
theorem works_of_legal (h : Kernel.Refines p.tasks p.kernel a contents (a.now + 1)) (hb : a.Begun)
    (c : KernelCall τ) (hl : p.Legal c) : Works p a contents c := by
  cases c with
  | xTaskCreate t =>
    have ht : a.state t = .absent := h.absent_iff.1 (not_not.1 hl)
    obtain ⟨contents', href, hw⟩ := Kernel.xTaskCreate_refines h ht fun hz => hb.no_ready hz
    refine .of_wakes h rfl (.create ht) ?_ href hw rfl
    refine ⟨hb.now, hb.pended, fun hrun u => ?_, fun _ hz => absurd hz (Nat.succ_ne_zero _),
      fun _ => Nat.succ_ne_zero _⟩
    by_cases hu : u = t
    · refine .inr ?_
      simp only [Timeline.create, Timeline.wake, hu, beq_self_eq_true, if_true]
    · simp only [Timeline.create, Timeline.wake, beq_false_of_ne hu, Bool.false_eq_true, if_false]
      exact hb.state hrun u
  | vTaskStartScheduler =>
    have hrun : a.running = false := h.running.symm.trans hl.1
    have hidle := h.ready_iff.1 hl.2
    have hne : a.tasks ≠ 0 := fun hz => hb.no_ready hz _ hidle
    exact .of_wakes h rfl (.start hidle) (.of_running rfl hne)
      (Kernel.vTaskStartScheduler_refines h hb hrun hidle) ⟨Kernel.KeepsTurn.refl contents, id⟩
      rfl
  | xPortSysTickHandler =>
    have hrun : a.running = true := h.running.symm.trans hl.1
    have hp : a.nesting ≠ 0 → a.pended + 1 < 2 ^ 32 := by
      intro hn
      have hne := hl.2 (by rwa [h.nesting])
      have hlt := h.pended_lt
      rw [h.pended] at hne
      by_contra hge
      refine hne ?_
      rw [show a.pended = 2 ^ 32 - 1 by omega]
      rfl
    obtain ⟨s', contents', hs', href, hw⟩ := Kernel.xPortSysTickHandler_refines h hp
    have hsetup := a.tick_setup
    refine .of_wakes h (congrArg p.withKernel hs') (.tick hrun) ?_ href hw rfl
    have hr : a.tick.running = a.running := congrArg (·.2.1) hsetup
    have ht : a.tick.tasks = a.tasks := congrArg (·.2.2.1) hsetup
    exact .of_running (hr.trans hrun) (ht ▸ hb.started hrun)
  | xPortPendSVHandler => exact xPortPendSVHandler_works h hb (h.running.symm.trans hl)
  | portYIELD =>
    exact .of_wakes h rfl .portYIELD hb (h.withYield p.kernel.xYieldPending true)
      (.requests contents fun _ => .inr (.inr rfl)) rfl
  | vTaskMissedYield =>
    exact .of_wakes h rfl .missedYield hb (h.withYield true p.kernel.portNVIC_PENDSVSET_BIT)
      (.requests contents fun _ => .inr (.inl rfl)) rfl
  | vTaskSuspendAll =>
    refine .of_wakes h rfl .suspend ⟨hb.now, hb.pended, hb.state, hb.first, hb.started⟩
      { h with nesting := congrArg (· + 1) h.nesting } ⟨Kernel.KeepsTurn.refl contents, id⟩ rfl
  | xTaskResumeAll =>
    have hn : a.nesting ≠ 0 := by rwa [← h.nesting]
    obtain ⟨b, s', contents', hs', href, hw⟩ := Kernel.xTaskResumeAll_refines h hn
    have hcall : p.call .xTaskResumeAll = some { p with kernel := s' } :=
      congrArg (fun r : Option (Bool × Kernel τ) => p.withKernel (r.map Prod.snd)) hs'
    refine .of_wakes h hcall (.resume hn) ?_ href hw rfl
    have hsetup := a.resumeAll_setup
    cases hrun : a.running with
    | true =>
      have hr : a.resumeAll.running = a.running := congrArg (·.2.1) hsetup
      have ht : a.resumeAll.tasks = a.tasks := congrArg (·.2.2.1) hsetup
      exact .of_running (hr.trans hrun) (ht ▸ hb.started hrun)
    | false =>
      rw [a.resumeAll_of_none (hb.pended hrun) fun t => ?_]
      · exact ⟨hb.now, hb.pended, hb.state, hb.first, hb.started⟩
      · rw [Bool.eq_false_iff, ne_eq, h.pendingReady, h.no_waiting hb hrun]
        exact (Option.some_ne_none _).symm
  | prvAddCurrentTaskToDelayedList n =>
    obtain ⟨hrun, hidle, hready⟩ := hl.1.timeline h
    obtain ⟨s', contents', hs', href, hw⟩ :=
      Kernel.prvAddCurrentTaskToDelayedList_refines h hready hidle n hl.2
    refine .of_blocks h (congrArg p.withKernel hs') (.sleep hready)
      (.of_running hrun (hb.started hrun)) href hw rfl
      (TaskState.delayed_ne_ready _) rfl
  | vTaskPlaceOnEventList event n =>
    obtain ⟨hrun, hidle, hready⟩ := hl.1.timeline h
    obtain ⟨s', contents', hs', href, hw⟩ :=
      Kernel.vTaskPlaceOnEventList_refines h hready hidle event n hl.2
    refine .of_blocks h (congrArg p.withKernel hs') (.await hready)
      (.of_running hrun (hb.started hrun)) href hw rfl ?_ rfl
    cases Kernel.timeLimit n with
    | none => exact TaskState.suspended_ne_ready
    | some n => exact TaskState.delayed_ne_ready _
  | vTaskPlaceOnEventListRestricted event n b =>
    obtain ⟨hrun, hidle, hready⟩ := hl.1.timeline h
    obtain ⟨s', contents', hs', href, hw⟩ :=
      Kernel.vTaskPlaceOnEventListRestricted_refines h hready hidle event n b hl.2
    refine .of_blocks h (congrArg p.withKernel hs') (.awaitLast hready)
      (.of_running hrun (hb.started hrun)) href hw rfl ?_ rfl
    cases b with
    | true => exact TaskState.suspended_ne_ready
    | false => exact TaskState.delayed_ne_ready _
  | xTaskRemoveFromEventList event =>
    obtain ⟨t, rest, hw⟩ := h.exists_waiting hl
    have hrun : a.running = true := by
      by_contra hrun
      have hnone := h.no_waiting hb (Bool.eq_false_iff.2 hrun) t
      rw [(h.present_of_waiting (by rw [hw]; exact List.mem_cons_self)).1] at hnone
      cases hnone
    obtain ⟨b, s', contents', hs', href, hwakes⟩ := Kernel.xTaskRemoveFromEventList_refines h hw
    have hsetup := a.notify_setup event t rest
    refine .of_wakes h ?_ (.notify hw) ?_ ?_ hwakes rfl
    · rw [call, hs']
      rfl
    · have hr : (a.notify event t rest).running = a.running := congrArg (·.1) hsetup
      have ht : (a.notify event t rest).tasks = a.tasks := congrArg (·.2.1) hsetup
      exact .of_running (hr.trans hrun) (ht ▸ hb.started hrun)
    · rwa [show (a.notify event t rest).now = a.now from congrArg (·.2.2) hsetup]
  | pvTaskIncrementMutexHeldCount =>
    refine ⟨_, a, contents, rfl, .hold, hb, h.setMutexesHeld _ _, ?_⟩
    exact .of_same contents rfl id (fun _ => rfl) rfl rfl
  | xTaskPriorityInherit t =>
    obtain ⟨b, T', s', contents', hs', href, hsame, hpre⟩ :=
      Kernel.xTaskPriorityInherit_refines h fun he => hl (h.absent_iff.2 he)
    refine ⟨⟨T', s'⟩, a, contents', by rw [call, hs']; rfl, .inherit, hb, href,
      ⟨fun _ => hpre, fun he v u _ _ _ _ => ?_⟩⟩
    rw [(hsame he).2]
    exact Nat.le_refl _
  | xTaskPriorityDisinherit t =>
    obtain ⟨ht, hheld, hready⟩ := hl
    rw [h.current] at ht
    subst ht
    obtain ⟨b, T', s', contents', hs', href, hsame⟩ :=
      Kernel.xTaskPriorityDisinherit_refines h (h.ready_iff.1 hready) hheld
    exact ⟨⟨T', s'⟩, a, contents', by rw [call, hs']; rfl, .disinherit, hb, href,
      .of_unchanged hsame rfl rfl⟩
  | vTaskPriorityDisinheritAfterTimeout t event =>
    obtain ⟨ht, hheld, hother⟩ := hl
    rw [h.current] at hother
    obtain ⟨n, hn, hwaits⟩ := Kernel.prvGetDisinheritPriorityAfterTimeout_eq h event
    have hlt : n < configMAX_PRIORITIES := by
      rcases hwaits with rfl | ⟨u, rfl⟩
      · decide
      · exact p.tasks.uxPriority_lt u
    obtain ⟨T', s', contents', hs', href, hsame⟩ :=
      Kernel.vTaskPriorityDisinheritAfterTimeout_refines h (fun he => ht (h.absent_iff.2 he)) hheld
        hother hlt
    exact ⟨⟨T', s'⟩, a, contents',
      by rw [call, hn, Option.bind_eq_bind, Option.bind_some, hs']; rfl, .timeout, hb, href,
      .of_unchanged hsame rfl rfl⟩

end System

/-! ### Runs -/

namespace System

variable {τ : Type} [DecidableEq τ]

/-- A run of the kernel, and what it does in true time. -/
inductive Follows : System τ → Timeline τ → List (KernelCall τ) → System τ → Timeline τ → Prop where
  | nil : Follows p a [] p a
  | cons : p.call c = some p₁ → Timeline.Step p.tasks a c a₁ → Follows p₁ a₁ cs p' a' →
    Follows p a (c :: cs) p' a'

variable {p p' : System τ} {a a' : Timeline τ}

/-- The kernel is in the state that the timeline stands for. -/
def Agrees (p : System τ) (a : Timeline τ) : Prop :=
  a.Begun ∧ ∃ contents, Kernel.Refines p.tasks p.kernel a contents (a.now + 1)

omit [DecidableEq τ] in
theorem agrees_reset (T : Tasks τ) : (reset T).Agrees (Timeline.reset T) := by
  refine ⟨⟨fun _ => rfl, fun _ => rfl, fun _ _ => .inl rfl, fun _ _ _ => rfl, nofun⟩,
    fun _ => ⟨[], []⟩, ?_⟩
  exact {
    holds := Lists.holds_initialised, now := rfl, overflows := (Nat.zero_div _).symm, pended := rfl,
    pended_lt := Nat.two_pow_pos 32, nesting := rfl, running := rfl, tasks := rfl, current := rfl,
    delayedLists := .inl ⟨rfl, rfl⟩, state := fun _ => rfl, event := nofun,
    pendingReady := fun _ => ⟨nofun, nofun⟩, waiting := fun _ => rfl,
    sorted := fun _ _ => ⟨[], rfl, .nil⟩, due := nofun, unblockTime := nofun,
    blocked := fun _ hne => absurd rfl hne, topReady := nofun,
    eventValue := fun _ hne => absurd rfl hne, idle := nofun }

theorem Follows.foldlM (h : Follows p a cs p' a') : cs.foldlM call p = some p' := by
  induction h with
  | nil => rfl
  | cons hc _ _ ih =>
    rw [List.foldlM_cons, hc]
    exact ih

/-- Legal runs of the kernel never fail, and follow true time. -/
theorem exists_follows (h : p.Agrees a) (hm : AllMeet call Legal p cs) :
    ∃ p' a', Follows p a cs p' a' ∧ p'.Agrees a' := by
  induction cs generalizing p a with
  | nil => exact ⟨p, a, .nil, h⟩
  | cons c cs ih =>
    obtain ⟨hb, contents, href⟩ := h
    obtain ⟨p₁, a₁, contents₁, hc, hstep, hb₁, href₁, -⟩ := works_of_legal href hb c hm.1
    obtain ⟨p', a', hf, hagrees⟩ := ih ⟨hb₁, contents₁, href₁⟩ (hm.2 p₁ hc)
    exact ⟨p', a', .cons hc hstep hf, hagrees⟩

end System

namespace KernelCall

def isTick : KernelCall τ → Bool
  | .xPortSysTickHandler => true
  | _ => false

def ticks (cs : List (KernelCall τ)) : Nat := cs.countP isTick

theorem ticks_append (cs cs' : List (KernelCall τ)) : ticks (cs ++ cs') = ticks cs + ticks cs' :=
  List.countP_append

theorem ticks_cons (c : KernelCall τ) (cs : List (KernelCall τ)) :
    ticks (c :: cs) = ticks [c] + ticks cs := ticks_append [c] cs

end KernelCall

namespace Timeline

variable {τ : Type} [DecidableEq τ] {T : Tasks τ} {a a' : Timeline τ} {c : KernelCall τ}

omit [DecidableEq τ] in
theorem tick_clock (a : Timeline τ) : a.tick.now + a.tick.pended = a.now + a.pended + 1 := by
  rw [tick]
  split
  · exact Nat.add_right_comm ..
  · rfl

omit [DecidableEq τ] in
theorem tick_pended (hn : a.nesting = 0) : a.tick.pended = a.pended := by
  rw [tick, if_pos hn]
  rfl

omit [DecidableEq τ] in
theorem ticks_clock (n : Nat) (hn : a.nesting = 0) :
    (tick^[n] a).now = a.now + n ∧ (tick^[n] a).pended = a.pended := by
  induction n generalizing a with
  | zero => exact ⟨rfl, rfl⟩
  | succ n ih =>
    have hsetup : a.tick.nesting = a.nesting := congrArg (·.1) a.tick_setup
    obtain ⟨hnow, hpended⟩ := ih (hsetup.trans hn)
    have hclock := a.tick_clock
    rw [tick_pended hn] at hclock hpended
    rw [Function.iterate_succ_apply]
    exact ⟨by omega, hpended⟩

omit [DecidableEq τ] in
theorem resumeAll_clock (a : Timeline τ) :
    a.resumeAll.now + a.resumeAll.pended = a.now + a.pended := by
  rw [resumeAll]
  split
  · have hclock := (ticks_clock (a := { a with nesting := 0 }.wake a.pendingReady) a.pended rfl).1
    exact hclock
  · rfl

/-- True time goes on with the tick interrupts, and with nothing else. -/
theorem Step.clock (h : Step T a c a') :
    a'.now + a'.pended = a.now + a.pended + KernelCall.ticks [c] := by
  cases h with
  | tick => exact a.tick_clock
  | resume => exact a.resumeAll_clock
  | @notify event t rest hw =>
    rw [Timeline.notify]
    split <;> rfl
  | _ => rfl

theorem Step.now_le (h : Step T a c a') : a.now ≤ a'.now := by
  cases h with
  | tick =>
    rw [Timeline.tick]
    split
    · exact Nat.le_succ _
    · exact Nat.le_refl _
  | resume =>
    rw [Timeline.resumeAll]
    split
    · have hclock := (ticks_clock (a := { a with nesting := 0 }.wake a.pendingReady) a.pended rfl).1
      exact (Nat.le_add_right _ _).trans_eq hclock.symm
    · exact Nat.le_refl _
  | notify =>
    rw [Timeline.notify]
    split <;> exact Nat.le_refl _
  | _ => exact Nat.le_refl _

end Timeline

namespace System

variable {τ : Type} [DecidableEq τ] {p p' : System τ} {a a' : Timeline τ}

/-- The states of the legal runs from power-on. -/
def Reachable (p : System τ) : Prop :=
  ∃ T cs, AllMeet call Legal (reset T) cs ∧ cs.foldlM call (reset T) = some p

theorem Agrees.run (h : p.Agrees a) (hm : AllMeet call Legal p cs)
    (hr : cs.foldlM call p = some p') : ∃ a', Follows p a cs p' a' ∧ p'.Agrees a' := by
  obtain ⟨q, a', hf, hq⟩ := exists_follows h hm
  obtain rfl := Option.some.inj (hf.foldlM.symm.trans hr)
  exact ⟨a', hf, hq⟩

theorem Agrees.call (h : p.Agrees a) (hl : p.Legal c) (hc : p.call c = some p') :
    ∃ a', Timeline.Step p.tasks a c a' ∧ p'.Agrees a' := by
  obtain ⟨hb, contents, href⟩ := h
  obtain ⟨q, a', contents', hq, hstep, hb', href', -⟩ := works_of_legal href hb c hl
  obtain rfl := Option.some.inj (hq.symm.trans hc)
  exact ⟨a', hstep, hb', contents', href'⟩

theorem Reachable.agrees (h : p.Reachable) : ∃ a, p.Agrees a := by
  obtain ⟨T, cs, hm, hr⟩ := h
  obtain ⟨a, -, ha⟩ := (agrees_reset T).run hm hr
  exact ⟨a, ha⟩

theorem Reachable.run (h : p.Reachable) (hm : AllMeet System.call Legal p cs)
    (hr : cs.foldlM System.call p = some p') : p'.Reachable := by
  obtain ⟨T, cs₀, hm₀, hr₀⟩ := h
  refine ⟨T, cs₀ ++ cs, hm₀.append hr₀ hm, ?_⟩
  rw [List.foldlM_append, hr₀]
  exact hr

omit [DecidableEq τ] in
theorem Agrees.tickCount (h : p.Agrees a) : p.kernel.xTickCount = UInt32.ofNat a.now := by
  obtain ⟨-, contents, href⟩ := h
  exact href.now

omit [DecidableEq τ] in
theorem Agrees.pended (h : p.Agrees a) : p.kernel.xPendedTicks.toNat = a.pended := by
  obtain ⟨-, contents, href⟩ := h
  rw [href.pended, UInt32.toNat_ofNat_of_lt' href.pended_lt]

theorem Reachable.step (h : p.Reachable) (hl : p.Legal c) (hc : p.call c = some p') :
    p'.Reachable := by
  have hm : AllMeet System.call Legal p [c] := ⟨hl, fun _ _ => trivial⟩
  refine h.run hm ?_
  rw [List.foldlM_cons, hc]
  rfl

/-- The number of ticks that are processed in a run. -/
def processed (p : System τ) (cs : List (KernelCall τ)) (p' : System τ) : Nat :=
  KernelCall.ticks cs + p.kernel.xPendedTicks.toNat - p'.kernel.xPendedTicks.toNat

theorem Follows.snoc (h : Follows p a cs p' a') (hc : p'.call c = some p'')
    (hs : Timeline.Step p'.tasks a' c a'') : Follows p a (cs ++ [c]) p'' a'' := by
  induction h with
  | nil => exact .cons hc hs .nil
  | cons hc₁ hs₁ _ ih => exact .cons hc₁ hs₁ (ih hc hs)

theorem Follows.now_le (h : Follows p a cs p' a') : a.now ≤ a'.now := by
  induction h with
  | nil => exact Nat.le_refl _
  | cons _ hs _ ih => exact hs.now_le.trans ih

theorem Follows.clock (h : Follows p a cs p' a') :
    a'.now + a'.pended = a.now + a.pended + KernelCall.ticks cs := by
  induction h with
  | nil => rfl
  | cons _ hs _ ih => rw [ih, hs.clock, Nat.add_assoc, ← KernelCall.ticks_cons]

theorem Follows.now (h : Follows p a cs p' a') (hp : p.Agrees a) (hp' : p'.Agrees a') :
    a'.now = a.now + p.processed cs p' := by
  have hclock := h.clock
  have hle := h.now_le
  rw [processed, hp.pended, hp'.pended]
  omega

theorem Follows.append (h : Follows p a cs p' a') (h' : Follows p' a' cs' p'' a'') :
    Follows p a (cs ++ cs') p'' a'' := by
  induction h with
  | nil => exact h'
  | cons hc hs _ ih => exact .cons hc hs (ih h')

theorem Follows.processed_append (h : Follows p a cs p' a') (hp : p.Agrees a) (hp' : p'.Agrees a')
    (cs' : List (KernelCall τ)) (q : System τ) :
    p.processed (cs ++ cs') q = p.processed cs p' + KernelCall.ticks cs' +
      p'.kernel.xPendedTicks.toNat - q.kernel.xPendedTicks.toNat := by
  have hclock := h.clock
  have hle := h.now_le
  rw [processed, processed, KernelCall.ticks_append, hp.pended, hp'.pended]
  omega

/-- Whatever the tasks and the interrupts do, no call fails: no assertion of the kernel is violated,
each loop ends, and no list is left in disorder. The tick count is the number of the ticks, less
those that are pended. -/
theorem never_fails (T : Tasks τ) (hm : AllMeet call Legal (reset T) cs) :
    ∃ p a, cs.foldlM call (reset T) = some p ∧ Follows (reset T) (Timeline.reset T) cs p a ∧
      p.Agrees a ∧ p.kernel.xTickCount =
        UInt32.ofNat (KernelCall.ticks cs - p.kernel.xPendedTicks.toNat) := by
  obtain ⟨p, a, hf, ha⟩ := exists_follows (agrees_reset T) hm
  refine ⟨p, a, hf.foldlM, hf, ha, ?_⟩
  have hclock : a.now + a.pended = 0 + 0 + KernelCall.ticks cs := hf.clock
  rw [ha.tickCount, ha.pended]
  congr 1
  omega

def sleepingRun : List (KernelCall CarTask) :=
  [.xTaskCreate .defaultTask, .xTaskCreate .idleTask, .vTaskStartScheduler, .vTaskSuspendAll,
    .prvAddCurrentTaskToDelayedList 2, .xTaskResumeAll, .portYIELD, .xPortPendSVHandler,
    .xPortSysTickHandler, .xPortSysTickHandler]

theorem sleepingRun_runs : (sleepingRun.foldlM call (reset carTasks)).isSome = true := by decide

theorem sleepingRun_never_fails : ∃ p a, sleepingRun.foldlM call (reset carTasks) = some p ∧
    Follows (reset carTasks) (Timeline.reset carTasks) sleepingRun p a ∧ p.Agrees a ∧
      p.kernel.xTickCount =
        UInt32.ofNat (KernelCall.ticks sleepingRun - p.kernel.xPendedTicks.toNat) :=
  never_fails carTasks (by decide)

end System

end RobotCar

import RobotCar.KernelLists

namespace RobotCar
set_option autoImplicit true

def configMAX_PRIORITIES : Nat := 56

/-- What the task control blocks hold besides the list items. A task that holds a mutex can inherit
a higher priority than its own. -/
structure Tasks (τ : Type) where
  uxPriority : τ → Nat
  uxBasePriority : τ → Nat
  uxMutexesHeld : τ → Nat
  xIdleTaskHandle : τ
  uxPriority_lt : ∀ pxTCB, uxPriority pxTCB < configMAX_PRIORITIES
  uxBasePriority_lt : ∀ pxTCB, uxBasePriority pxTCB < configMAX_PRIORITIES

inductive TaskItem (τ : Type) where
  | xStateListItem (pxTCB : τ)
  | xEventListItem (pxTCB : τ)
  deriving DecidableEq

def TaskItem.pvOwner : TaskItem τ → τ
  | .xStateListItem pxTCB => pxTCB
  | .xEventListItem pxTCB => pxTCB

theorem TaskItem.state_ne_event (t u : τ) : xStateListItem t ≠ xEventListItem u := nofun

theorem TaskItem.event_ne_state (t u : τ) : xEventListItem t ≠ xStateListItem u := nofun

/-- The lists of the kernel, and those of the tasks that wait for an event of a queue. -/
inductive KernelList where
  | pxReadyTasksLists (uxPriority : Nat)
  | xDelayedTaskList1
  | xDelayedTaskList2
  | xPendingReadyList
  | xSuspendedTaskList
  | xTasksWaiting (pxEventList : Nat)
  deriving DecidableEq

theorem KernelList.waiting_ne_ready (event p : Nat) : xTasksWaiting event ≠ pxReadyTasksLists p :=
  nofun

theorem KernelList.ready_ne_pending (p : Nat) : pxReadyTasksLists p ≠ xPendingReadyList := nofun

/-- The state of the kernel. The last field is the bit that requests the PendSV interrupt. -/
structure Kernel (τ : Type) where
  lists : Lists (TaskItem τ) KernelList
  pxCurrentTCB : τ
  pxDelayedTaskList : KernelList
  pxOverflowDelayedTaskList : KernelList
  uxCurrentNumberOfTasks : Nat
  xTickCount : UInt32
  uxTopReadyPriority : Nat
  xSchedulerRunning : Bool
  xPendedTicks : UInt32
  xYieldPending : Bool
  xNumOfOverflows : Nat
  xNextTaskUnblockTime : UInt32
  uxSchedulerSuspended : Nat
  portNVIC_PENDSVSET_BIT : Bool

namespace Kernel

variable {τ : Type} [DecidableEq τ] (T : Tasks τ)

/-- The kernel after `prvInitialiseTaskLists`, before the first task is there. Until then
`pxCurrentTCB` is `NULL`. -/
def reset : Kernel τ where
  lists := .initialised
  pxCurrentTCB := T.xIdleTaskHandle
  pxDelayedTaskList := .xDelayedTaskList1
  pxOverflowDelayedTaskList := .xDelayedTaskList2
  uxCurrentNumberOfTasks := 0
  xTickCount := 0
  uxTopReadyPriority := 0
  xSchedulerRunning := false
  xPendedTicks := 0
  xYieldPending := false
  xNumOfOverflows := 0
  xNextTaskUnblockTime := 0
  uxSchedulerSuspended := 0
  portNVIC_PENDSVSET_BIT := false

def uxListRemove (s : Kernel τ) (pxItem : TaskItem τ) : Option (Kernel τ) :=
  (s.lists.uxListRemove pxItem).map fun r => { s with lists := r.2 }

def taskRECORD_READY_PRIORITY (s : Kernel τ) (uxPriority : Nat) : Kernel τ :=
  if uxPriority > s.uxTopReadyPriority then { s with uxTopReadyPriority := uxPriority } else s

def prvAddTaskToReadyList (s : Kernel τ) (pxTCB : τ) : Kernel τ :=
  let s := s.taskRECORD_READY_PRIORITY (T.uxPriority pxTCB)
  { s with lists :=
      s.lists.vListInsertEnd (.pxReadyTasksLists (T.uxPriority pxTCB)) (.xStateListItem pxTCB) }

def portYIELD (s : Kernel τ) : Kernel τ := { s with portNVIC_PENDSVSET_BIT := true }

def notePending (s : Kernel τ) (due : Bool) : Kernel τ :=
  { s with xYieldPending := s.xYieldPending || due }

/-! ### Tasks and the scheduler -/

/-- The first task is the current one, and before the scheduler is started a new task that no task
before it has a higher priority than. -/
def setFirst (s : Kernel τ) (pxNewTCB : τ) : Kernel τ :=
  if s.uxCurrentNumberOfTasks = 1 then
    { s with pxCurrentTCB := pxNewTCB }
  else if !s.xSchedulerRunning && T.uxPriority s.pxCurrentTCB ≤ T.uxPriority pxNewTCB then
    { s with pxCurrentTCB := pxNewTCB }
  else
    s

def yieldIfHigher (s : Kernel τ) (pxNewTCB : τ) : Kernel τ :=
  if s.xSchedulerRunning && T.uxPriority s.pxCurrentTCB < T.uxPriority pxNewTCB then
    s.portYIELD
  else
    s

/-- `prvInitialiseNewTask` as far as it is about the lists, and `prvAddNewTaskToReadyList`. -/
def xTaskCreate (s : Kernel τ) (pxNewTCB : τ) : Kernel τ :=
  let lists := s.lists.setContainer (.xStateListItem pxNewTCB) none
  let lists := lists.setContainer (.xEventListItem pxNewTCB) none
  let lists := lists.listSET_LIST_ITEM_VALUE (.xEventListItem pxNewTCB)
    (UInt32.ofNat (configMAX_PRIORITIES - T.uxPriority pxNewTCB))
  let s := { s with lists, uxCurrentNumberOfTasks := s.uxCurrentNumberOfTasks + 1 }
  ((s.setFirst T pxNewTCB).prvAddTaskToReadyList T pxNewTCB).yieldIfHigher T pxNewTCB

/-- The end of `vTaskStartScheduler`, when the idle task is there. -/
def vTaskStartScheduler (s : Kernel τ) : Kernel τ :=
  { s with xNextTaskUnblockTime := portMAX_DELAY, xSchedulerRunning := true, xTickCount := 0 }

/-- The search for the highest priority of a ready task, from `uxTopPriority` down. There is an
assertion that it never gets below priority 0. -/
def topReadyPriority (s : Kernel τ) : (uxTopPriority : Nat) → Option Nat
  | 0 => if s.lists.listLIST_IS_EMPTY (.pxReadyTasksLists 0) then none else some 0
  | p + 1 =>
    if s.lists.listLIST_IS_EMPTY (.pxReadyTasksLists (p + 1)) then s.topReadyPriority p
    else some (p + 1)

def taskSELECT_HIGHEST_PRIORITY_TASK (s : Kernel τ) : Option (Kernel τ) := do
  let uxTopPriority ← s.topReadyPriority s.uxTopReadyPriority
  let (pxItem, lists) ← s.lists.listGET_OWNER_OF_NEXT_ENTRY (.pxReadyTasksLists uxTopPriority)
  return { s with lists, pxCurrentTCB := pxItem.pvOwner, uxTopReadyPriority := uxTopPriority }

def vTaskSwitchContext (s : Kernel τ) : Option (Kernel τ) :=
  if s.uxSchedulerSuspended ≠ 0 then
    some { s with xYieldPending := true }
  else
    { s with xYieldPending := false }.taskSELECT_HIGHEST_PRIORITY_TASK

def xPortPendSVHandler (s : Kernel τ) : Option (Kernel τ) :=
  { s with portNVIC_PENDSVSET_BIT := false }.vTaskSwitchContext

/-! ### The tick -/

def prvResetNextTaskUnblockTime (s : Kernel τ) : Option (Kernel τ) :=
  if s.lists.listLIST_IS_EMPTY s.pxDelayedTaskList then
    some { s with xNextTaskUnblockTime := portMAX_DELAY }
  else do
    let pxItem ← s.lists.listGET_OWNER_OF_HEAD_ENTRY s.pxDelayedTaskList
    return { s with xNextTaskUnblockTime := s.lists.xItemValue (.xStateListItem pxItem.pvOwner) }

/-- The first line is an assertion. -/
def taskSWITCH_DELAYED_LISTS (s : Kernel τ) : Option (Kernel τ) :=
  if s.lists.listLIST_IS_EMPTY s.pxDelayedTaskList then
    { s with
      pxDelayedTaskList := s.pxOverflowDelayedTaskList
      pxOverflowDelayedTaskList := s.pxDelayedTaskList
      xNumOfOverflows := s.xNumOfOverflows + 1 }.prvResetNextTaskUnblockTime
  else
    none

/-- Remove a task from the blocked state, and from the list of the event that it waits for. -/
def unblock (s : Kernel τ) (pxTCB : τ) : Option (Kernel τ) := do
  let s ← s.uxListRemove (.xStateListItem pxTCB)
  let s ←
    if (s.lists.pxContainer (.xEventListItem pxTCB)).isSome then
      s.uxListRemove (.xEventListItem pxTCB)
    else
      some s
  return s.prvAddTaskToReadyList T pxTCB

/-- The loop of `xTaskIncrementTick` over the delayed tasks, for at most `fuel` rounds. -/
def unblockTasks (xConstTickCount : UInt32) :
    Nat → (xSwitchRequired : Bool) → Kernel τ → Option (Bool × Kernel τ)
  | 0, _, _ => none
  | fuel + 1, xSwitchRequired, s =>
    if s.lists.listLIST_IS_EMPTY s.pxDelayedTaskList then
      some (xSwitchRequired, { s with xNextTaskUnblockTime := portMAX_DELAY })
    else do
      let pxItem ← s.lists.listGET_OWNER_OF_HEAD_ENTRY s.pxDelayedTaskList
      let xItemValue := s.lists.xItemValue (.xStateListItem pxItem.pvOwner)
      if xConstTickCount < xItemValue then
        return (xSwitchRequired, { s with xNextTaskUnblockTime := xItemValue })
      else
        let s ← s.unblock T pxItem.pvOwner
        unblockTasks xConstTickCount fuel
          (xSwitchRequired || T.uxPriority s.pxCurrentTCB ≤ T.uxPriority pxItem.pvOwner) s

/-- The tasks whose time is over, when the tick count has reached the next unblock time. -/
def unblockDue (s : Kernel τ) : Option (Bool × Kernel τ) :=
  if s.xTickCount ≥ s.xNextTaskUnblockTime then
    unblockTasks T s.xTickCount (s.lists.uxNumberOfItems s.pxDelayedTaskList + 1) false s
  else
    some (false, s)

/-- The new tick count. When it wraps, the delayed lists change their roles. -/
def incrementTickCount (s : Kernel τ) : Option (Kernel τ) :=
  let s := { s with xTickCount := s.xTickCount + 1 }
  if s.xTickCount = 0 then s.taskSWITCH_DELAYED_LISTS else some s

/-- A switch is also required when the time slice of the running task is over. -/
def switchRequired (s : Kernel τ) (xSwitchRequired : Bool) : Bool :=
  xSwitchRequired ||
    s.lists.uxNumberOfItems (.pxReadyTasksLists (T.uxPriority s.pxCurrentTCB)) > 1 ||
    s.xYieldPending

def xTaskIncrementTick (s : Kernel τ) : Option (Bool × Kernel τ) :=
  if s.uxSchedulerSuspended = 0 then do
    let s ← s.incrementTickCount
    let (xSwitchRequired, s) ← s.unblockDue T
    return (s.switchRequired T xSwitchRequired, s)
  else
    some (false, { s with xPendedTicks := s.xPendedTicks + 1 })

def xPortSysTickHandler (s : Kernel τ) : Option (Kernel τ) :=
  (s.xTaskIncrementTick T).map fun r => if r.1 then r.2.portYIELD else r.2

/-! ### Suspending the scheduler -/

def vTaskSuspendAll (s : Kernel τ) : Kernel τ :=
  { s with uxSchedulerSuspended := s.uxSchedulerSuspended + 1 }

def movePendingTask (s : Kernel τ) (pxTCB : τ) : Option (Kernel τ) := do
  let s ← s.uxListRemove (.xEventListItem pxTCB)
  let s ← s.uxListRemove (.xStateListItem pxTCB)
  let s := s.prvAddTaskToReadyList T pxTCB
  return s.notePending (T.uxPriority s.pxCurrentTCB ≤ T.uxPriority pxTCB)

/-- Move the tasks that became ready meanwhile, for at most `fuel` rounds. -/
def movePending : Nat → (moved : Bool) → Kernel τ → Option (Bool × Kernel τ)
  | 0, _, _ => none
  | fuel + 1, moved, s =>
    if s.lists.listLIST_IS_EMPTY .xPendingReadyList then
      some (moved, s)
    else do
      let pxItem ← s.lists.listGET_OWNER_OF_HEAD_ENTRY .xPendingReadyList
      let s ← s.movePendingTask T pxItem.pvOwner
      movePending fuel true s

def processPended : Nat → Kernel τ → Option (Kernel τ)
  | 0, s => some s
  | n + 1, s => do
    let (xSwitchRequired, s) ← s.xTaskIncrementTick T
    processPended n (s.notePending xSwitchRequired)

/-- The next unblock time can be out of date when a task was moved. -/
def resetAfter (s : Kernel τ) (moved : Bool) : Option (Kernel τ) :=
  if moved then s.prvResetNextTaskUnblockTime else some s

/-- What `xTaskResumeAll` does when the scheduler is no longer suspended. -/
def resume (s : Kernel τ) : Option (Bool × Kernel τ) := do
  let (moved, s) ←
    movePending T (s.lists.uxNumberOfItems .xPendingReadyList + 1) false s
  let s ← s.resetAfter moved
  let s ← processPended T s.xPendedTicks.toNat s
  let s := { s with xPendedTicks := 0 }
  return (s.xYieldPending, if s.xYieldPending then s.portYIELD else s)

/-- The first line is an assertion. -/
def xTaskResumeAll (s : Kernel τ) : Option (Bool × Kernel τ) :=
  if s.uxSchedulerSuspended = 0 then none
  else
    let s := { s with uxSchedulerSuspended := s.uxSchedulerSuspended - 1 }
    if s.uxSchedulerSuspended = 0 ∧ s.uxCurrentNumberOfTasks > 0 then s.resume T
    else some (false, s)

/-! ### Blocking -/

/-- Put the state item of the running task, which is in no list, into a delayed list. -/
def insertDelayed (s : Kernel τ) (xTimeToWake : UInt32) : Option (Kernel τ) := do
  let pxItem := TaskItem.xStateListItem s.pxCurrentTCB
  let lists := s.lists.listSET_LIST_ITEM_VALUE pxItem xTimeToWake
  if xTimeToWake < s.xTickCount then
    let lists ← lists.vListInsert s.pxOverflowDelayedTaskList pxItem
    return { s with lists }
  else
    let lists ← lists.vListInsert s.pxDelayedTaskList pxItem
    if xTimeToWake < s.xNextTaskUnblockTime then
      return { s with lists, xNextTaskUnblockTime := xTimeToWake }
    else
      return { s with lists }

def prvAddCurrentTaskToDelayedList (s : Kernel τ) (xTicksToWait : UInt32)
    (xCanBlockIndefinitely : Bool) : Option (Kernel τ) := do
  let s ← s.uxListRemove (.xStateListItem s.pxCurrentTCB)
  if xTicksToWait = portMAX_DELAY && xCanBlockIndefinitely then
    return { s with lists :=
      s.lists.vListInsertEnd .xSuspendedTaskList (.xStateListItem s.pxCurrentTCB) }
  else
    s.insertDelayed (s.xTickCount + xTicksToWait)

def vTaskPlaceOnEventList (s : Kernel τ) (pxEventList : Nat) (xTicksToWait : UInt32) :
    Option (Kernel τ) := do
  let lists ← s.lists.vListInsert (.xTasksWaiting pxEventList) (.xEventListItem s.pxCurrentTCB)
  { s with lists }.prvAddCurrentTaskToDelayedList xTicksToWait true

/-- The timer task is the only one that waits in its event list. -/
def vTaskPlaceOnEventListRestricted (s : Kernel τ) (pxEventList : Nat) (xTicksToWait : UInt32)
    (xWaitIndefinitely : Bool) : Option (Kernel τ) :=
  let lists := s.lists.vListInsertEnd (.xTasksWaiting pxEventList) (.xEventListItem s.pxCurrentTCB)
  { s with lists }.prvAddCurrentTaskToDelayedList
    (if xWaitIndefinitely then portMAX_DELAY else xTicksToWait) xWaitIndefinitely

def xTaskRemoveFromEventList (s : Kernel τ) (pxEventList : Nat) : Option (Bool × Kernel τ) := do
  let pxItem ← s.lists.listGET_OWNER_OF_HEAD_ENTRY (.xTasksWaiting pxEventList)
  let pxUnblockedTCB := pxItem.pvOwner
  let s ← s.uxListRemove (.xEventListItem pxUnblockedTCB)
  let s ←
    if s.uxSchedulerSuspended = 0 then do
      let s ← s.uxListRemove (.xStateListItem pxUnblockedTCB)
      some (s.prvAddTaskToReadyList T pxUnblockedTCB)
    else
      some { s with lists :=
        s.lists.vListInsertEnd .xPendingReadyList (.xEventListItem pxUnblockedTCB) }
  if T.uxPriority pxUnblockedTCB > T.uxPriority s.pxCurrentTCB then
    return (true, { s with xYieldPending := true })
  else
    return (false, s)

/-! ### Priority inheritance -/

def taskEVENT_LIST_ITEM_VALUE_IN_USE : UInt32 := 0x80000000

/-- There is a ready list for each priority below `configMAX_PRIORITIES` only. -/
def setPriority (pxTCB : τ) (uxNewPriority : Nat) : Option (Tasks τ) :=
  if h : uxNewPriority < configMAX_PRIORITIES then
    some { T with
      uxPriority := Function.update T.uxPriority pxTCB uxNewPriority
      uxPriority_lt := by
        intro t
        by_cases ht : t = pxTCB
        · rw [ht, Function.update_self]
          exact h
        · rw [Function.update_of_ne ht]
          exact T.uxPriority_lt t }
  else
    none

def setMutexesHeld (pxTCB : τ) (uxMutexesHeld : Nat) : Tasks τ :=
  { T with uxMutexesHeld := Function.update T.uxMutexesHeld pxTCB uxMutexesHeld }

/-- Only reset the event list item value if the value is not being used for anything else. -/
def resetEventValue (s : Kernel τ) (pxTCB : τ) (uxPriority : Nat) : Kernel τ :=
  if s.lists.xItemValue (.xEventListItem pxTCB) &&& taskEVENT_LIST_ITEM_VALUE_IN_USE = 0 then
    let lists := s.lists.listSET_LIST_ITEM_VALUE (.xEventListItem pxTCB)
      (UInt32.ofNat (configMAX_PRIORITIES - uxPriority))
    { s with lists }
  else
    s

/-- Change the priority of a task. If it is in its ready list it is moved into the new one. -/
def changePriority (s : Kernel τ) (pxTCB : τ) (uxNewPriority : Nat) :
    Option (Tasks τ × Kernel τ) := do
  let s := s.resetEventValue pxTCB uxNewPriority
  let T' ← setPriority T pxTCB uxNewPriority
  if s.lists.pxContainer (.xStateListItem pxTCB) =
      some (.pxReadyTasksLists (T.uxPriority pxTCB)) then
    let s ← s.uxListRemove (.xStateListItem pxTCB)
    return (T', s.prvAddTaskToReadyList T' pxTCB)
  else
    return (T', s)

def pvTaskIncrementMutexHeldCount (s : Kernel τ) : Tasks τ :=
  setMutexesHeld T s.pxCurrentTCB (T.uxMutexesHeld s.pxCurrentTCB + 1)

def xTaskPriorityInherit (s : Kernel τ) (pxMutexHolder : τ) :
    Option (Bool × Tasks τ × Kernel τ) :=
  if T.uxPriority pxMutexHolder < T.uxPriority s.pxCurrentTCB then
    (s.changePriority T pxMutexHolder (T.uxPriority s.pxCurrentTCB)).map (true, ·)
  else
    some (T.uxBasePriority pxMutexHolder < T.uxPriority s.pxCurrentTCB, T, s)

/-- The first line is two assertions. Unlike the others this one does not look at the event list
item value before, and the running task is always ready. -/
def xTaskPriorityDisinherit (s : Kernel τ) (pxMutexHolder : τ) :
    Option (Bool × Tasks τ × Kernel τ) :=
  if pxMutexHolder ≠ s.pxCurrentTCB ∨ T.uxMutexesHeld pxMutexHolder = 0 then none
  else
    let T := setMutexesHeld T pxMutexHolder (T.uxMutexesHeld pxMutexHolder - 1)
    if T.uxPriority pxMutexHolder ≠ T.uxBasePriority pxMutexHolder ∧
        T.uxMutexesHeld pxMutexHolder = 0 then do
      let s ← s.uxListRemove (.xStateListItem pxMutexHolder)
      let T' ← setPriority T pxMutexHolder (T.uxBasePriority pxMutexHolder)
      let lists := s.lists.listSET_LIST_ITEM_VALUE (.xEventListItem pxMutexHolder)
        (UInt32.ofNat (configMAX_PRIORITIES - T'.uxPriority pxMutexHolder))
      return (true, T', { s with lists }.prvAddTaskToReadyList T' pxMutexHolder)
    else
      some (false, T, s)

/-- `prvGetDisinheritPriorityAfterTimeout`: the highest priority of the tasks that wait. -/
def prvGetDisinheritPriorityAfterTimeout (s : Kernel τ) (pxEventList : Nat) : Option Nat :=
  if s.lists.uxNumberOfItems (.xTasksWaiting pxEventList) > 0 then do
    let pxItem ← s.lists.listGET_OWNER_OF_HEAD_ENTRY (.xTasksWaiting pxEventList)
    return (UInt32.ofNat configMAX_PRIORITIES - s.lists.xItemValue pxItem).toNat
  else
    some 0

/-- The conditions that fail are assertions. -/
def vTaskPriorityDisinheritAfterTimeout (s : Kernel τ) (pxMutexHolder : τ)
    (uxHighestPriorityWaitingTask : Nat) : Option (Tasks τ × Kernel τ) :=
  let uxPriorityToUse := max (T.uxBasePriority pxMutexHolder) uxHighestPriorityWaitingTask
  if T.uxMutexesHeld pxMutexHolder = 0 then none
  else if T.uxPriority pxMutexHolder = uxPriorityToUse ∨ T.uxMutexesHeld pxMutexHolder ≠ 1 then
    some (T, s)
  else if pxMutexHolder = s.pxCurrentTCB then none
  else s.changePriority T pxMutexHolder uxPriorityToUse

end Kernel

end RobotCar

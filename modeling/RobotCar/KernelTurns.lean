import RobotCar.KernelRuns

namespace RobotCar
open Transition
set_option autoImplicit true

/-- The calls for mutexes, the only ones that may change the data of the tasks. -/
def KernelCall.isMutexCall : KernelCall τ → Bool
  | .pvTaskIncrementMutexHeldCount | .xTaskPriorityInherit _ | .xTaskPriorityDisinherit _
  | .vTaskPriorityDisinheritAfterTimeout _ _ => true
  | _ => false

namespace System

variable {τ : Type} [DecidableEq τ] {p p' : System τ} {a a' : Timeline τ} {c : KernelCall τ}

omit [DecidableEq τ] in
theorem withKernel_tasks {o : Option (Kernel τ)} (h : p.withKernel o = some p') :
    p'.tasks = p.tasks := by
  obtain ⟨s, -, rfl⟩ := Option.map_eq_some_iff.1 h
  rfl

theorem call_tasks (hc : c.isMutexCall = false) (h : p.call c = some p') : p'.tasks = p.tasks := by
  cases c with
  | pvTaskIncrementMutexHeldCount => exact nomatch hc
  | xTaskPriorityInherit => exact nomatch hc
  | xTaskPriorityDisinherit => exact nomatch hc
  | vTaskPriorityDisinheritAfterTimeout => exact nomatch hc
  | _ => exact withKernel_tasks h

/-! ### Preemption -/

/-- The only call that may change a priority is the one by which a mutex holder inherits it. -/
def KeepsPriorities (p : System τ) (c : KernelCall τ) : Prop :=
  ∀ p' ∈ p.call c, p'.tasks.uxPriority = p.tasks.uxPriority ∨ ∃ t, c = .xTaskPriorityInherit t

theorem keepsPriorities_of_not_mutexCall (hc : c.isMutexCall = false) (p : System τ) :
    p.KeepsPriorities c :=
  fun _ h => .inl (congrArg Tasks.uxPriority (call_tasks hc h))

/-- No ready task has a higher priority than the running one, unless a switch is requested. -/
def Preempts (p : System τ) : Prop :=
  ∀ t, p.IsReady t → p.tasks.uxPriority t ≤ p.tasks.uxPriority p.kernel.pxCurrentTCB ∨
    p.kernel.xYieldPending = true ∨ p.kernel.portNVIC_PENDSVSET_BIT = true

omit [DecidableEq τ] in
theorem preempts_iff (h : Kernel.Refines p.tasks p.kernel a contents lo) :
    p.Preempts ↔ Kernel.Preempts p.tasks p.kernel a false := by
  constructor
  · intro hpre t ht
    rw [← h.current]
    exact (hpre t (h.ready_iff.2 ht)).imp_right .inr
  · intro hpre t ht
    rw [h.current]
    exact (hpre t (h.ready_iff.1 ht)).imp_right fun hor => hor.resolve_left nofun

theorem preempts_step (h : p.Reachable) (hpre : p.Preempts) (hl : p.Legal c)
    (hk : p.KeepsPriorities c) (hc : p.call c = some p') : p'.Preempts := by
  obtain ⟨a, hb, contents, href⟩ := h.agrees
  obtain ⟨q, a', contents', hq, -, -, href', heffects⟩ := works_of_legal href hb c hl
  obtain rfl := Option.some.inj (hq.symm.trans hc)
  exact (preempts_iff href').2 (heffects.preempts (hk q hc) ((preempts_iff href).1 hpre))

/-- The running task has the highest priority of all ready ones, or a switch is due. -/
theorem preempts_always (h : p.Reachable) (hpre : p.Preempts)
    (hm : AllMeet call (fun p c => p.Legal c ∧ p.KeepsPriorities c) p cs)
    (hr : cs.foldlM call p = some p') : p'.Preempts := by
  refine (foldlM_invariant_of_meet (I := fun p => p.Reachable ∧ p.Preempts) ?_ ⟨h, hpre⟩ hm hr).2
  intro p c p' hp hC hc
  exact ⟨hp.1.step hC.1 hc, preempts_step hp.1 hp.2 hC.1 hC.2 hc⟩

theorem reachable_reset (T : Tasks τ) : (reset T).Reachable := ⟨T, [], trivial, rfl⟩

omit [DecidableEq τ] in
theorem preempts_reset (T : Tasks τ) : (reset T).Preempts := fun _ ht => nomatch ht

theorem sleepingRun_no_mutexCall : ∀ c ∈ sleepingRun, c.isMutexCall = false := by decide

theorem preempts_always_sleepingRun :
    ((sleepingRun.foldlM call (reset carTasks)).get sleepingRun_runs).Preempts :=
  preempts_always (reachable_reset carTasks) (preempts_reset carTasks)
    (.and_of_forall (by decide)
      fun c hc p => keepsPriorities_of_not_mutexCall (sleepingRun_no_mutexCall c hc) p)
    (Option.some_get sleepingRun_runs).symm

/-! ### Fairness -/

/-- A task stays ready in a step and does not get the turn, and all priorities are as before. -/
def Waits (t : τ) (p : System τ) (c : KernelCall τ) : Prop :=
  ∀ p' ∈ p.call c, p'.tasks.uxPriority = p.tasks.uxPriority ∧ p'.IsReady t ∧ p.turn c p' t = 0

def turns (u : τ) : System τ → List (KernelCall τ) → Nat
  | _, [] => 0
  | p, c :: cs =>
    match p.call c with
    | some p' => p.turn c p' u + turns u p' cs
    | none => 0

theorem turns_le_credit {contents : KernelList → Carousel (TaskItem τ)}
    (h : Kernel.Refines p.tasks p.kernel a contents (a.now + 1)) (hb : a.Begun)
    (ht : p.IsReady t) (hm : AllMeet call (fun p c => p.Legal c ∧ p.Waits t c) p cs)
    (hle : p.tasks.uxPriority u ≤ p.tasks.uxPriority t) :
    turns u p cs ≤ (contents (.pxReadyTasksLists (p.tasks.uxPriority t))).credit
      (.xStateListItem t) (.xStateListItem u) := by
  induction cs generalizing p a contents with
  | nil => exact Nat.zero_le _
  | cons c cs ih =>
    obtain ⟨p', a', contents', hc, -, hb', href', heffects⟩ := works_of_legal h hb c hm.1.1
    obtain ⟨hsame, ht', hnot⟩ := hm.1.2 p' hc
    have hfair := heffects.fair hsame t u (h.ready_iff.1 ht) (href'.ready_iff.1 ht') hnot hle
    have hrest := ih href' hb' ht' (hm.2 p' hc) (by rwa [hsame])
    rw [hsame] at hrest
    simp only [turns, hc]
    omega

/-- While a ready task waits for its turn, no task of the same or of a lower priority gets more than
two turns. -/
theorem turns_le_two (h : p.Reachable) (ht : p.IsReady t)
    (hm : AllMeet call (fun p c => p.Legal c ∧ p.Waits t c) p cs)
    (hle : p.tasks.uxPriority u ≤ p.tasks.uxPriority t) : turns u p cs ≤ 2 := by
  obtain ⟨a, hb, contents, href⟩ := h.agrees
  exact (turns_le_credit href hb ht hm hle).trans (Carousel.credit_le ..)

/-- The default task, the servo task and the ROS task have the same priority. -/
def threeReady : List (KernelCall CarTask) :=
  [.xTaskCreate .defaultTask, .xTaskCreate .servoTask, .xTaskCreate .ROSTask,
    .xTaskCreate .idleTask, .vTaskStartScheduler, .portYIELD, .xPortPendSVHandler]

theorem threeReady_runs : (threeReady.foldlM call (reset carTasks)).isSome = true := by decide

def afterFirstTurn : System CarTask := (threeReady.foldlM call (reset carTasks)).get threeReady_runs

def othersRun : List (KernelCall CarTask) :=
  [.portYIELD, .xPortPendSVHandler, .xPortSysTickHandler, .xPortPendSVHandler]

theorem othersRun_no_mutexCall : ∀ c ∈ othersRun, c.isMutexCall = false := by decide

theorem turns_le_two_others : turns .servoTask afterFirstTurn othersRun ≤ 2 := by
  have hruns : AllMeet call (fun p c => p.Legal c ∧ ∀ p' ∈ p.call c,
      p'.IsReady .defaultTask ∧ p.turn c p' .defaultTask = 0) afterFirstTurn othersRun := by
    decide
  refine turns_le_two (t := .defaultTask)
    ⟨carTasks, threeReady, by decide, (Option.some_get threeReady_runs).symm⟩ (by decide)
    ((hruns.and_of_forall fun c hc _ => othersRun_no_mutexCall c hc).imp fun p c h => ?_)
    (by decide)
  exact ⟨h.1.1, fun p' hp' => ⟨congrArg Tasks.uxPriority (call_tasks h.2 hp'), h.1.2 p' hp'⟩⟩

end System

end RobotCar

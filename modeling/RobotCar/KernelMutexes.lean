import RobotCar.KernelTurns

namespace RobotCar
open Transition
set_option autoImplicit true

namespace Kernel

variable {τ : Type} [DecidableEq τ] {T T' : Tasks τ} {s s' : Kernel τ}

theorem setPriority_eq (h : setPriority T t n = some T') :
    T'.uxBasePriority = T.uxBasePriority ∧ T'.uxMutexesHeld = T.uxMutexesHeld ∧
      T'.uxPriority = Function.update T.uxPriority t n := by
  rw [setPriority] at h
  split at h
  · cases h
    exact ⟨rfl, rfl, rfl⟩
  · cases h

theorem changePriority_tasks (h : s.changePriority T t n = some (T', s')) :
    setPriority T t n = some T' := by
  rw [changePriority, Option.bind_eq_bind] at h
  obtain ⟨T₁, hT, h⟩ := Option.bind_eq_some_iff.1 h
  rw [hT]
  split at h
  · obtain ⟨s₁, -, h⟩ := Option.bind_eq_some_iff.1 h
    cases h
    rfl
  · cases h
    rfl

end Kernel

/-- A task that waited for a mutex of this one gives up. -/
def KernelCall.isTimeoutOf [DecidableEq τ] (t : τ) : KernelCall τ → Bool
  | .vTaskPriorityDisinheritAfterTimeout pxMutexHolder _ => pxMutexHolder == t
  | _ => false

namespace System

variable {τ : Type} [DecidableEq τ] {p p' : System τ} {a a' : Timeline τ} {c : KernelCall τ}

/-- What a call does to the priority of a task. -/
inductive Moves (p p' : System τ) (c : KernelCall τ) (t : τ) : Prop where
  | stay : p'.tasks.uxPriority t = p.tasks.uxPriority t →
    (p'.tasks.uxMutexesHeld t = 0 →
      p.tasks.uxMutexesHeld t = 0 ∨ p.tasks.uxPriority t = p.tasks.uxBasePriority t) →
    Moves p p' c t
  | inherit : c = .xTaskPriorityInherit t → p.tasks.uxPriority t < p'.tasks.uxPriority t →
    p'.tasks.uxPriority t = p.tasks.uxPriority p.kernel.pxCurrentTCB →
    p'.tasks.uxMutexesHeld t = p.tasks.uxMutexesHeld t → Moves p p' c t
  | giveBack : c = .xTaskPriorityDisinherit t → p'.tasks.uxMutexesHeld t = 0 →
    p'.tasks.uxPriority t = p.tasks.uxBasePriority t → Moves p p' c t
  | timeout (n : Nat) : c = .vTaskPriorityDisinheritAfterTimeout t event →
    n = 0 ∨ (∃ u, n = p.tasks.uxPriority u) →
    p'.tasks.uxPriority t = max (p.tasks.uxBasePriority t) n →
    p'.tasks.uxMutexesHeld t = p.tasks.uxMutexesHeld t → p.tasks.uxMutexesHeld t = 1 →
    Moves p p' c t

def MovesAll (p p' : System τ) (c : KernelCall τ) : Prop :=
  p'.tasks.uxBasePriority = p.tasks.uxBasePriority ∧ ∀ t, p.Moves p' c t

omit [DecidableEq τ] in
theorem movesAll_of_same (hp : p'.tasks.uxPriority = p.tasks.uxPriority)
    (hb : p'.tasks.uxBasePriority = p.tasks.uxBasePriority)
    (hh : ∀ t, p'.tasks.uxMutexesHeld t = 0 →
      p.tasks.uxMutexesHeld t = 0 ∨ p.tasks.uxPriority t = p.tasks.uxBasePriority t) :
    p.MovesAll p' c := ⟨hb, fun t => .stay (congrFun hp t) (hh t)⟩

theorem movesAll_of_set {T : Tasks τ} (hT : Kernel.setPriority T t n = some p'.tasks)
    (hp : T.uxPriority = p.tasks.uxPriority) (hb : T.uxBasePriority = p.tasks.uxBasePriority)
    (hh : ∀ u, u ≠ t → T.uxMutexesHeld u = p.tasks.uxMutexesHeld u) (ht : p.Moves p' c t) :
    p.MovesAll p' c := by
  obtain ⟨hbase, hheld, hprio⟩ := Kernel.setPriority_eq hT
  refine ⟨hbase.trans hb, fun u => ?_⟩
  by_cases hu : u = t
  · exact hu ▸ ht
  · refine .stay ?_ fun hz => .inl ?_
    · rw [hprio, Function.update_of_ne hu, hp]
    · rwa [hheld, hh u hu] at hz

omit [DecidableEq τ] in
theorem map_tasks {o : Option (α × Tasks τ × Kernel τ)}
    (h : (o.map fun r => (⟨r.2.1, r.2.2⟩ : System τ)) = some p') :
    ∃ b, o = some (b, p'.tasks, p'.kernel) := by
  obtain ⟨⟨b, T, s⟩, ho, rfl⟩ := Option.map_eq_some_iff.1 h
  exact ⟨b, ho⟩

theorem pvTaskIncrementMutexHeldCount_moves
    (hc : p.call .pvTaskIncrementMutexHeldCount = some p') :
    p.MovesAll p' .pvTaskIncrementMutexHeldCount := by
  cases hc
  refine movesAll_of_same rfl rfl fun t hz => .inl ?_
  by_cases ht : t = p.kernel.pxCurrentTCB
  · rw [ht] at hz
    exact absurd ((Function.update_self ..).symm.trans hz) (Nat.succ_ne_zero _)
  · exact (Function.update_of_ne ht ..).symm.trans hz

theorem xTaskPriorityInherit_moves (hc : p.call (.xTaskPriorityInherit t) = some p') :
    p.MovesAll p' (.xTaskPriorityInherit t) := by
  obtain ⟨b, hc⟩ := map_tasks hc
  rw [Kernel.xTaskPriorityInherit] at hc
  split at hc
  · rename_i hlt
    obtain ⟨⟨T, s⟩, hT, he⟩ := Option.map_eq_some_iff.1 hc
    cases he
    have hset := Kernel.changePriority_tasks hT
    obtain ⟨-, hheld, hprio⟩ := Kernel.setPriority_eq hset
    have hself : p'.tasks.uxPriority t = p.tasks.uxPriority p.kernel.pxCurrentTCB := by
      rw [hprio, Function.update_self]
    exact movesAll_of_set hset rfl rfl (fun _ _ => rfl)
      (.inherit rfl (hlt.trans_eq hself.symm) hself (congrFun hheld t))
  · obtain ⟨-, hT, -⟩ : _ ∧ p.tasks = p'.tasks ∧ _ := by
      have he := Option.some.inj hc
      exact ⟨congrArg Prod.fst he, congrArg (·.2.1) he, congrArg (·.2.2) he⟩
    refine movesAll_of_same ?_ ?_ ?_ <;> rw [← hT]
    exact fun t hz => .inl hz

theorem xTaskPriorityDisinherit_moves (hc : p.call (.xTaskPriorityDisinherit t) = some p') :
    p.MovesAll p' (.xTaskPriorityDisinherit t) := by
  obtain ⟨b, hc⟩ := map_tasks hc
  rw [Kernel.xTaskPriorityDisinherit] at hc
  split at hc
  · cases hc
  rename_i hassert
  rw [not_or] at hassert
  have hothers (u : τ) (hu : u ≠ t) :
      (Kernel.setMutexesHeld p.tasks t (p.tasks.uxMutexesHeld t - 1)).uxMutexesHeld u =
        p.tasks.uxMutexesHeld u := Function.update_of_ne hu ..
  dsimp only at hc
  split at hc
  · rename_i hlast
    rw [Option.bind_eq_bind] at hc
    obtain ⟨s₁, -, hc⟩ := Option.bind_eq_some_iff.1 hc
    obtain ⟨T, hT, hc⟩ := Option.bind_eq_some_iff.1 hc
    have hT' : p'.tasks = T := (congrArg (·.2.1) (Option.some.inj hc)).symm
    rw [← hT'] at hT
    obtain ⟨-, hheld, hprio⟩ := Kernel.setPriority_eq hT
    refine movesAll_of_set hT rfl rfl hothers (.giveBack rfl ?_ ?_)
    · rw [hheld]
      exact hlast.2
    · rw [hprio, Function.update_self]
      rfl
  · rename_i hnot
    have hT := congrArg (·.2.1) (Option.some.inj hc)
    dsimp only at hT
    refine movesAll_of_same ?_ ?_ fun u hz => ?_
    · rw [← hT]
      rfl
    · rw [← hT]
      rfl
    · rw [← hT] at hz
      by_cases hu : u = t
      · subst hu
        exact .inr (Decidable.not_not.1 fun hne => hnot ⟨hne, hz⟩)
      · exact .inl ((hothers u hu).symm.trans hz)

theorem vTaskPriorityDisinheritAfterTimeout_moves {contents : KernelList → Carousel (TaskItem τ)}
    (h : Kernel.Refines p.tasks p.kernel a contents lo)
    (hc : p.call (.vTaskPriorityDisinheritAfterTimeout t event) = some p') :
    p.MovesAll p' (.vTaskPriorityDisinheritAfterTimeout t event) := by
  obtain ⟨n, hn, hwaits⟩ := Kernel.prvGetDisinheritPriorityAfterTimeout_eq h event
  rw [call, hn, Option.bind_eq_bind, Option.bind_some] at hc
  obtain ⟨⟨T, s⟩, hT, rfl⟩ := Option.map_eq_some_iff.1 hc
  rw [Kernel.vTaskPriorityDisinheritAfterTimeout] at hT
  split at hT
  · cases hT
  · split at hT
    · cases hT
      exact movesAll_of_same rfl rfl fun _ hz => .inl hz
    · rename_i hnot
      rw [not_or, not_not] at hnot
      split at hT
      · cases hT
      · have hset := Kernel.changePriority_tasks hT
        obtain ⟨-, hheld, hprio⟩ := Kernel.setPriority_eq hset
        refine movesAll_of_set hset rfl rfl (fun _ _ => rfl) (.timeout n rfl hwaits ?_ ?_ hnot.2)
        · exact (congrFun hprio t).trans (Function.update_self ..)
        · exact congrFun hheld t

/-- Every legal call moves the priorities as it may. -/
theorem moves (h : p.Reachable) (hc : p.call c = some p') : p.MovesAll p' c := by
  obtain ⟨a, -, contents, href⟩ := h.agrees
  cases c with
  | pvTaskIncrementMutexHeldCount => exact pvTaskIncrementMutexHeldCount_moves hc
  | xTaskPriorityInherit t => exact xTaskPriorityInherit_moves hc
  | xTaskPriorityDisinherit t => exact xTaskPriorityDisinherit_moves hc
  | vTaskPriorityDisinheritAfterTimeout t event =>
    exact vTaskPriorityDisinheritAfterTimeout_moves href hc
  | _ =>
    have hT := call_tasks rfl hc
    refine movesAll_of_same ?_ ?_ ?_ <;> rw [hT]
    exact fun t hz => .inl hz

/-! ### Runs -/

/-- Only a task that holds a mutex inherits a priority. -/
def InheritsByHolder (p : System τ) : KernelCall τ → Prop
  | .xTaskPriorityInherit t => p.tasks.uxMutexesHeld t ≠ 0
  | _ => True

instance (p : System τ) (c : KernelCall τ) : Decidable (p.InheritsByHolder c) := by
  cases c with
  | xTaskPriorityInherit t => exact inferInstanceAs (Decidable (_ ≠ _))
  | _ => exact instDecidableTrue

/-- Each task has its own priority, or above it the one of another task. -/
structure Inherits (own : τ → Nat) (T : Tasks τ) : Prop where
  base : T.uxBasePriority = own
  own_le : ∀ t, own t ≤ T.uxPriority t
  of_task : ∀ t, ∃ u, T.uxPriority t = own u
  back : ∀ t, T.uxMutexesHeld t = 0 → T.uxPriority t = own t

omit [DecidableEq τ] in
theorem Inherits.step {own : τ → Nat} (h : Inherits own p.tasks) (hm : p.MovesAll p' c)
    (hc : p.InheritsByHolder c) : Inherits own p'.tasks := by
  obtain ⟨hbase, hm⟩ := hm
  have hmove (t : τ) : own t ≤ p'.tasks.uxPriority t ∧
      (∃ u, p'.tasks.uxPriority t = own u) ∧
      (p'.tasks.uxMutexesHeld t = 0 → p'.tasks.uxPriority t = own t) := by
    have hle := h.own_le t
    have hback := h.back t
    have ht : p.tasks.uxBasePriority t = own t := congrFun h.base t
    cases hm t with
    | stay hp hh =>
      rw [hp]
      exact ⟨hle, h.of_task t, fun hz => (hh hz).elim hback fun he => he.trans ht⟩
    | inherit he hlt hp hh =>
      refine ⟨hle.trans hlt.le, hp ▸ h.of_task _, fun hz => ?_⟩
      rw [he] at hc
      exact absurd (hh.symm.trans hz) hc
    | giveBack _ _ hp =>
      rw [hp, ht]
      exact ⟨le_refl _, ⟨t, rfl⟩, fun _ => rfl⟩
    | timeout n _ hn hp hh hone =>
      refine ⟨?_, ?_, fun hz => ?_⟩
      · rw [hp, ht]
        exact le_max_left ..
      · rw [hp, ht]
        rcases hn with rfl | ⟨u, rfl⟩
        · exact ⟨t, Nat.max_zero _⟩
        · obtain ⟨v, hv⟩ := h.of_task u
          rw [hv]
          rcases le_total (own t) (own v) with hle | hle
          · exact ⟨v, max_eq_right hle⟩
          · exact ⟨t, max_eq_left hle⟩
      · rw [hh, hone] at hz
        cases hz
  exact ⟨hbase.trans h.base, fun t => (hmove t).1, fun t => (hmove t).2.1, fun t => (hmove t).2.2⟩

/-- Every run keeps the own priorities, and a task without a mutex has its own priority, whatever
was inherited in between. -/
theorem own_priorities {T : Tasks τ} (hT : T.uxPriority = T.uxBasePriority)
    (hm : AllMeet call (fun p c => p.Legal c ∧ p.InheritsByHolder c) (reset T) cs)
    (hr : cs.foldlM call (reset T) = some p) :
    p.tasks.uxBasePriority = T.uxBasePriority ∧
      ∀ t, T.uxPriority t ≤ p.tasks.uxPriority t ∧
        (∃ u, p.tasks.uxPriority t = T.uxPriority u) ∧
        (p.tasks.uxMutexesHeld t = 0 → p.tasks.uxPriority t = T.uxPriority t) := by
  have hstart : Inherits T.uxPriority T :=
    ⟨hT.symm, fun _ => le_refl _, fun t => ⟨t, rfl⟩, fun _ _ => rfl⟩
  have h : p.Reachable ∧ Inherits T.uxPriority p.tasks := by
    refine foldlM_invariant_of_meet (I := fun p => p.Reachable ∧ Inherits T.uxPriority p.tasks)
      ?_ ⟨reachable_reset T, hstart⟩ hm hr
    intro p c p' hp hC hc
    exact ⟨hp.1.step hC.1 hc, hp.2.step (moves hp.1 hc) hC.2⟩
  rw [← hT]
  exact ⟨h.2.base, fun t => ⟨h.2.own_le t, h.2.of_task t, h.2.back t⟩⟩

/-- The control task asks for a mutex that the servo task holds, and waits until it is given
back. -/
def mutexRun : List (KernelCall CarTask) :=
  [.xTaskCreate .servoTask, .xTaskCreate .idleTask, .vTaskStartScheduler,
    .pvTaskIncrementMutexHeldCount, .xTaskCreate .controlTask, .xPortPendSVHandler,
    .xTaskPriorityInherit .servoTask, .vTaskPlaceOnEventList 0 portMAX_DELAY, .portYIELD,
    .xPortPendSVHandler, .xTaskRemoveFromEventList 0, .xTaskPriorityDisinherit .servoTask]

theorem mutexRun_runs : (mutexRun.foldlM call (reset carTasks)).isSome = true := by decide

theorem own_priorities_mutexRun :
    let p := (mutexRun.foldlM call (reset carTasks)).get mutexRun_runs
    p.tasks.uxBasePriority = carTasks.uxBasePriority ∧
      ∀ t, carTasks.uxPriority t ≤ p.tasks.uxPriority t ∧
        (∃ u, p.tasks.uxPriority t = carTasks.uxPriority u) ∧
        (p.tasks.uxMutexesHeld t = 0 → p.tasks.uxPriority t = carTasks.uxPriority t) :=
  have hr : mutexRun.foldlM call (reset carTasks) = some _ := (Option.some_get mutexRun_runs).symm
  own_priorities rfl (by decide) hr

/-- In a step a task does not give back its last mutex, and no wait for its only one times out. -/
def KeepsMutex (t : τ) (p : System τ) (c : KernelCall τ) : Prop :=
  (∀ p' ∈ p.call c, p'.tasks.uxMutexesHeld t ≠ 0) ∧
    (c.isTimeoutOf t = true → p.tasks.uxMutexesHeld t ≠ 1)

instance (t : τ) (p : System τ) (c : KernelCall τ) : Decidable (p.KeepsMutex t c) :=
  inferInstanceAs (Decidable (_ ∧ _))

theorem KeepsMutex.priority_le (h : p.Reachable) (hk : p.KeepsMutex t c)
    (hc : p.call c = some p') : p.tasks.uxPriority t ≤ p'.tasks.uxPriority t := by
  cases (moves h hc).2 t with
  | stay hp => exact hp.ge
  | inherit _ hlt => exact hlt.le
  | giveBack _ hz => exact absurd hz (hk.1 p' hc)
  | timeout n he _ _ _ hone =>
    have htimeout : c.isTimeoutOf t = true := by
      rw [he, KernelCall.isTimeoutOf]
      exact beq_self_eq_true t
    exact absurd hone (hk.2 htimeout)

/-- The holder of a mutex has the priority of the task that asked for it. -/
theorem inherited_le (hc : p.call (.xTaskPriorityInherit t) = some p') :
    p.tasks.uxPriority p.kernel.pxCurrentTCB ≤ p'.tasks.uxPriority t := by
  obtain ⟨b, hc⟩ := map_tasks hc
  rw [Kernel.xTaskPriorityInherit] at hc
  split at hc
  · obtain ⟨⟨T, s⟩, hT, he⟩ := Option.map_eq_some_iff.1 hc
    cases he
    obtain ⟨-, -, hprio⟩ := Kernel.setPriority_eq (Kernel.changePriority_tasks hT)
    rw [hprio, Function.update_self]
  · rename_i hle
    have hT : p.tasks = p'.tasks := congrArg (·.2.1) (Option.some.inj hc)
    rw [← hT]
    exact not_lt.1 hle

/-- From when the holder of a mutex inherits the priority of a task that asks for it, and as long as
it keeps a mutex, no context switch at which it is ready turns to a task of a lower priority than
that. -/
theorem no_inversion (h : p.Reachable) (hl : p.Legal (.xTaskPriorityInherit t))
    (hc : p.call (.xTaskPriorityInherit t) = some p₁)
    (hm : AllMeet call (fun p c => p.Legal c ∧ p.KeepsMutex t c) p₁ cs)
    (hr : cs.foldlM call p₁ = some p₂) (hready : p₂.IsReady t)
    (hrun : p₂.Legal .xPortPendSVHandler) (hsusp : p₂.kernel.uxSchedulerSuspended = 0)
    (hs : p₂.call .xPortPendSVHandler = some p') :
    p.tasks.uxPriority p.kernel.pxCurrentTCB ≤ p'.tasks.uxPriority p'.kernel.pxCurrentTCB := by
  let n := p.tasks.uxPriority p.kernel.pxCurrentTCB
  have hkeeps : p₂.Reachable ∧ n ≤ p₂.tasks.uxPriority t := by
    refine foldlM_invariant_of_meet (I := fun p => p.Reachable ∧ n ≤ p.tasks.uxPriority t)
      ?_ ⟨h.step hl hc, inherited_le hc⟩ hm hr
    intro q c q' hq hC hc
    exact ⟨hq.1.step hC.1 hc, hq.2.trans (hC.2.priority_le hq.1 hc)⟩
  obtain ⟨a, ha⟩ := hkeeps.1.agrees
  obtain ⟨a', hstep, -, contents', href'⟩ := ha.call hrun hs
  obtain ⟨-, contents, href⟩ := ha
  have hsame := call_tasks rfl hs
  cases hstep with
  | stay hn => exact absurd (href.nesting.symm.trans hsusp) hn
  | @switch u _ _ htop =>
    rw [hsame, href'.current]
    exact hkeeps.2.trans (htop t (href.ready_iff.1 hready))

theorem asking_runs : ((mutexRun.take 6).foldlM call (reset carTasks)).isSome = true := by decide

def asking : System CarTask := ((mutexRun.take 6).foldlM call (reset carTasks)).get asking_runs

theorem asking_reachable : asking.Reachable :=
  ⟨carTasks, mutexRun.take 6, by decide, (Option.some_get asking_runs).symm⟩

theorem inherit_runs : (asking.call (.xTaskPriorityInherit .servoTask)).isSome = true := by decide

def inherited : System CarTask := (asking.call (.xTaskPriorityInherit .servoTask)).get inherit_runs

def asksAndWaits : List (KernelCall CarTask) :=
  [.vTaskPlaceOnEventList 0 portMAX_DELAY, .portYIELD]

theorem waits_runs : (asksAndWaits.foldlM call inherited).isSome = true := by decide

def waiting : System CarTask := (asksAndWaits.foldlM call inherited).get waits_runs

theorem switch_runs : (waiting.call .xPortPendSVHandler).isSome = true := by decide

def switched : System CarTask := (waiting.call .xPortPendSVHandler).get switch_runs

theorem no_inversion_mutexRun : asking.tasks.uxPriority asking.kernel.pxCurrentTCB ≤
    switched.tasks.uxPriority switched.kernel.pxCurrentTCB :=
  have hr : asksAndWaits.foldlM call inherited = some waiting := (Option.some_get waits_runs).symm
  no_inversion asking_reachable (t := .servoTask) (by decide) (Option.some_get inherit_runs).symm
    (by decide) hr (by decide) (by decide) (by decide) (Option.some_get switch_runs).symm

end System

end RobotCar

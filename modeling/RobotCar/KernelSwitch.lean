import RobotCar.KernelCalls

namespace RobotCar
set_option autoImplicit true

namespace Kernel

variable {τ : Type} [DecidableEq τ] {T T' : Tasks τ} {s : Kernel τ} {a : Timeline τ}
  {contents : KernelList → Carousel (TaskItem τ)}

/-! ### Choosing the next task -/

omit [DecidableEq τ] in
theorem Refines.mem_ready (h : Refines T s a contents lo) :
    x ∈ (contents (.pxReadyTasksLists p)).items ↔
      ∃ t, x = .xStateListItem t ∧ a.state t = .ready ∧ T.uxPriority t = p := by
  rw [← h.holds.container]
  constructor
  · intro hc
    cases x with
    | xEventListItem t => rcases h.event t _ hc with he | ⟨n, he⟩ <;> cases he
    | xStateListItem t =>
      rw [h.state] at hc
      cases ht : a.state t with
      | ready =>
        rw [ht] at hc
        exact ⟨t, rfl, ht, KernelList.pxReadyTasksLists.inj (Option.some.inj hc)⟩
      | absent => rw [ht] at hc; cases hc
      | suspended => rw [ht] at hc; cases Option.some.inj hc
      | delayed due =>
        rw [ht, home] at hc
        have hk := Option.some.inj hc
        rcases h.delayedLists with ⟨h₁, h₂⟩ | ⟨h₁, h₂⟩ <;> rw [h₁, h₂] at hk <;> split at hk <;>
          cases hk
  · rintro ⟨t, rfl, ht, rfl⟩
    rw [h.state, ht]
    rfl

omit [DecidableEq τ] in
theorem Refines.empty_ready_iff (h : Refines T s a contents lo) :
    s.lists.listLIST_IS_EMPTY (.pxReadyTasksLists p) = true ↔
      ∀ t, a.state t = .ready → T.uxPriority t ≠ p := by
  rw [h.holds.empty_iff, List.eq_nil_iff_forall_not_mem]
  constructor
  · exact fun hempty t ht hp => hempty _ (h.mem_ready.2 ⟨t, rfl, ht, hp⟩)
  · intro hnone x hx
    obtain ⟨t, -, ht, hp⟩ := h.mem_ready.1 hx
    exact hnone t ht hp

omit [DecidableEq τ] in
/-- The search ends at the highest priority of a ready task. -/
theorem topReadyPriority_eq (h : Refines T s a contents lo) (n : Nat) (ht : a.state t = .ready)
    (hle : T.uxPriority t ≤ n) :
    ∃ u, s.topReadyPriority n = some (T.uxPriority u) ∧ a.state u = .ready ∧
      ∀ v, a.state v = .ready → T.uxPriority v ≤ n → T.uxPriority v ≤ T.uxPriority u := by
  induction n with
  | zero =>
    have hzero : T.uxPriority t = 0 := Nat.le_zero.1 hle
    refine ⟨t, ?_, ht, fun v _ hv => by omega⟩
    rw [topReadyPriority, if_neg (fun he => h.empty_ready_iff.1 he t ht hzero), hzero]
  | succ n ih =>
    rw [topReadyPriority]
    by_cases hempty : s.lists.listLIST_IS_EMPTY (.pxReadyTasksLists (n + 1)) = true
    · have hnone := h.empty_ready_iff.1 hempty
      rw [if_pos hempty]
      obtain ⟨u, hu, hready, hmax⟩ := ih (by have := hnone t ht; omega)
      refine ⟨u, hu, hready, fun v hv hvn => hmax v hv ?_⟩
      have hne := hnone v hv
      omega
    · rw [h.empty_ready_iff] at hempty
      push Not at hempty
      obtain ⟨u, hu, hp⟩ := hempty
      refine ⟨u, ?_, hu, fun v _ hv => by omega⟩
      rw [if_neg (fun he => h.empty_ready_iff.1 he u hu hp), hp]

omit [DecidableEq τ] in
theorem Refines.setIndex (h : Refines T s a contents lo) {c : Carousel (TaskItem τ)}
    (hc : c.items = (contents (.pxReadyTasksLists p)).items) (u : τ) (n : Nat)
    (hn : ∀ t, a.state t = .ready → T.uxPriority t ≤ n) :
    Refines T { s with
        lists := s.lists.setIndex (.pxReadyTasksLists p) (Lists.pointer (.pxReadyTasksLists p) c)
        pxCurrentTCB := u
        uxTopReadyPriority := n }
      { a with current := u } (Function.update contents (.pxReadyTasksLists p) c) lo := by
  refine { h with
    holds := h.holds.setIndex hc, current := rfl, waiting := ?_, sorted := ?_, topReady := hn }
  · intro m
    rw [Function.update_of_ne (show KernelList.xTasksWaiting m ≠ .pxReadyTasksLists p from nofun)]
    exact h.waiting m
  · intro k hk
    have hne : k ≠ .pxReadyTasksLists p := by
      rcases h.delayedLists with ⟨h₁, h₂⟩ | ⟨h₁, h₂⟩ <;> rw [h₁, h₂] at hk <;>
        rcases hk with rfl | rfl <;> exact nofun
    rw [Function.update_of_ne hne]
    exact h.sorted k hk

/-- The next task is the one whose turn it is among the ready tasks of the highest priority. -/
theorem taskSELECT_HIGHEST_PRIORITY_TASK_refines (h : Refines T s a contents lo)
    (hrun : a.running = true) :
    ∃ l n t c, s.taskSELECT_HIGHEST_PRIORITY_TASK =
        some { s with lists := l, pxCurrentTCB := t, uxTopReadyPriority := n } ∧
      Refines T { s with lists := l, pxCurrentTCB := t, uxTopReadyPriority := n }
        { a with current := t }
        (Function.update contents (.pxReadyTasksLists (T.uxPriority t)) c) lo ∧
      (contents (.pxReadyTasksLists (T.uxPriority t))).next = some (.xStateListItem t, c) ∧
      a.state t = .ready ∧ ∀ u, a.state u = .ready → T.uxPriority u ≤ T.uxPriority t := by
  have hidle := h.idle hrun
  obtain ⟨u, hu, hready, hmax⟩ :=
    topReadyPriority_eq h s.uxTopReadyPriority hidle (h.topReady _ hidle)
  have hne : (contents (.pxReadyTasksLists (T.uxPriority u))).items ≠ [] := by
    apply List.ne_nil_of_mem
    exact h.mem_ready.2 ⟨u, rfl, hready, rfl⟩
  obtain ⟨x, c, hc⟩ := Carousel.exists_next hne
  obtain ⟨t, rfl, ht, hp⟩ := h.mem_ready.1 (Carousel.next_mem hc)
  have hget := (h.holds.next hc).1
  rw [← hp] at hc hget hu
  have htop (v) (hv : a.state v = .ready) : T.uxPriority v ≤ T.uxPriority t := by
    rw [hp]
    exact hmax v hv (h.topReady v hv)
  refine ⟨_, T.uxPriority t, t, c, ?_, h.setIndex (Carousel.next_items hc) t _ htop, hc, ht, htop⟩
  rw [taskSELECT_HIGHEST_PRIORITY_TASK, hu, Option.bind_eq_bind, Option.bind_some, hget]
  rfl

/-! ### Creating tasks -/

omit [DecidableEq τ] in
theorem Refines.free_of_absent (h : Refines T s a contents lo) (ht : a.state t = .absent) :
    s.lists.pxContainer (.xStateListItem t) = none ∧
      s.lists.pxContainer (.xEventListItem t) = none := by
  refine ⟨by rw [h.state, ht]; rfl, ?_⟩
  by_contra hne
  exact (h.blocked t hne).2 ht

theorem setContainer_of_free {l : Lists (TaskItem τ) KernelList} (hx : l.pxContainer x = none) :
    l.setContainer x none = l := by
  rw [Lists.setContainer, ← hx, Function.update_eq_self]

def currentAfter (T : Tasks τ) (s : Kernel τ) (t : τ) : τ :=
  if s.uxCurrentNumberOfTasks = 0 ∨
    s.xSchedulerRunning = false ∧ T.uxPriority s.pxCurrentTCB ≤ T.uxPriority t then t
  else s.pxCurrentTCB

omit [DecidableEq τ] in
theorem setFirst_eq (T : Tasks τ) (s : Kernel τ) (t : τ) (l : Lists (TaskItem τ) KernelList) :
    { s with lists := l, uxCurrentNumberOfTasks := s.uxCurrentNumberOfTasks + 1 }.setFirst T t =
      { s with
        lists := l
        uxCurrentNumberOfTasks := s.uxCurrentNumberOfTasks + 1
        pxCurrentTCB := currentAfter T s t } := by
  rw [setFirst, currentAfter]
  by_cases hfirst : s.uxCurrentNumberOfTasks = 0
  · have hor : s.uxCurrentNumberOfTasks = 0 ∨
        s.xSchedulerRunning = false ∧ T.uxPriority s.pxCurrentTCB ≤ T.uxPriority t := .inl hfirst
    rw [if_pos hor]
    exact if_pos (congrArg (· + 1) hfirst)
  · have hne : ¬s.uxCurrentNumberOfTasks + 1 = 1 := by omega
    simp only [if_neg hne, or_iff_right hfirst, Bool.and_eq_true, Bool.not_eq_true',
      decide_eq_true_eq]
    split
    · rfl
    · rfl

omit [DecidableEq τ] in
theorem yieldIfHigher_eq (T : Tasks τ) (s : Kernel τ) (t : τ) :
    s.yieldIfHigher T t = { s with portNVIC_PENDSVSET_BIT := s.portNVIC_PENDSVSET_BIT ||
      (s.xSchedulerRunning && T.uxPriority s.pxCurrentTCB < T.uxPriority t) } := by
  rw [yieldIfHigher]
  split
  · rename_i h
    rw [h, Bool.or_true]
    rfl
  · rename_i h
    rw [Bool.eq_false_iff.2 h, Bool.or_false]

theorem xTaskCreate_refines (h : Refines T s a contents lo) (ht : a.state t = .absent)
    (hfirst : a.tasks = 0 → ∀ u, a.state u ≠ .ready) :
    ∃ contents', Refines T (s.xTaskCreate T t) (a.create T t) contents' lo ∧
      Wakes T s (s.xTaskCreate T t) a (a.create T t) contents contents' false false := by
  obtain ⟨hs, he⟩ := h.free_of_absent ht
  let l₀ := s.lists.listSET_LIST_ITEM_VALUE (.xEventListItem t)
    (UInt32.ofNat (configMAX_PRIORITIES - T.uxPriority t))
  let l := l₀.vListInsertEnd (.pxReadyTasksLists (T.uxPriority t)) (.xStateListItem t)
  have hn : NewPriority T T s l₀ t :=
    ⟨rfl, fun _ _ => rfl, rfl, fun x hx => Function.update_of_ne hx .., Function.update_self ..⟩
  have hfree : Lists.without (Lists.without contents (.xStateListItem t)) (.xEventListItem t) =
      contents := by
    rw [h.holds.without_of_free hs, h.holds.without_of_free he]
  have hr : Readied T l₀ l contents t := by
    refine readied_of_free ?_ hs he (fun _ _ _ => rfl) rfl
    rw [hfree]
    exact h.holds.setValue _ _
  have hlists : ((s.lists.setContainer (.xStateListItem t) none).setContainer
      (.xEventListItem t) none) = s.lists := by
    rw [setContainer_of_free hs, setContainer_of_free he]
  have hcur : currentAfter T s t = (a.create T t).current := by
    rw [currentAfter, h.tasks, h.running, h.current]
    rfl
  have heq : s.xTaskCreate T t = { s.added T t l with
      uxCurrentNumberOfTasks := s.uxCurrentNumberOfTasks + 1
      pxCurrentTCB := currentAfter T s t
      portNVIC_PENDSVSET_BIT := s.portNVIC_PENDSVSET_BIT || (s.xSchedulerRunning &&
        T.uxPriority (currentAfter T s t) < T.uxPriority t) } := by
    rw [xTaskCreate, hlists]
    simp only [setFirst_eq, prvAddTaskToReadyList_eq, yieldIfHigher_eq]
    rfl
  have hready := h.toReady hn hr
  rw [heq]
  refine ⟨_, { hready with tasks := ?_, current := hcur },
    h.readied_turns (by rw [ht]; exact nofun),
    fun hpre u hu => ?_⟩
  · exact congrArg (· + 1) h.tasks
  · rw [← hcur]
    by_cases hut : u = t
    · subst hut
      by_cases hlt : T.uxPriority (currentAfter T s u) < T.uxPriority u
      · refine .inr (.inr (.inr ?_))
        have hrun : s.xSchedulerRunning = true := by
          by_contra hrun
          refine absurd hlt (Nat.not_lt.2 ?_)
          rw [currentAfter]
          split
          · exact Nat.le_refl _
          · rename_i hne
            rw [not_or, not_and] at hne
            exact Nat.le_of_not_le (hne.2 (Bool.eq_false_iff.2 hrun))
        simp only [hrun, hlt, decide_true, Bool.and_self, Bool.or_true]
      · exact .inl (Nat.le_of_not_lt hlt)
    · have hold : a.state u = .ready := by
        have hsame : (a.wake (· == t)).state u = a.state u := by
          simp only [Timeline.wake, beq_false_of_ne hut, Bool.false_eq_true, if_false]
        exact hsame.symm.trans hu
      rcases hpre u hold with hle | hf | hy | hp
      · refine .inl (hle.trans ?_)
        rw [currentAfter, h.tasks, h.current]
        split
        · rename_i hor
          rcases hor with hzero | hor
          · exact absurd hold (hfirst hzero u)
          · exact hor.2
        · exact Nat.le_refl _
      · exact absurd hf Bool.false_ne_true
      · exact .inr (.inr (.inl hy))
      · refine .inr (.inr (.inr ?_))
        simp only [hp, Bool.true_or]

/-! ### Priorities -/

def setEventValue (s : Kernel τ) (t : τ) (p : Nat) : Lists (TaskItem τ) KernelList :=
  s.lists.listSET_LIST_ITEM_VALUE (.xEventListItem t) (UInt32.ofNat (configMAX_PRIORITIES - p))

theorem eventValue_not_in_use (n : Nat) (hn : n < configMAX_PRIORITIES + 1) :
    UInt32.ofNat n &&& taskEVENT_LIST_ITEM_VALUE_IN_USE = 0 := by
  revert n
  decide

theorem resetEventValue_eq (h : Refines T s a contents lo) (ht : a.state t ≠ .absent) (p : Nat) :
    s.resetEventValue t p = { s with lists := s.setEventValue t p } := by
  rw [resetEventValue, h.eventValue t ht]
  exact if_pos (eventValue_not_in_use _ (Nat.lt_succ_of_le (Nat.sub_le ..)))

/-- The tasks after the priority of one of them was changed. -/
structure PrioritySet (T T' : Tasks τ) (t : τ) (p : Nat) : Prop where
  set : setPriority T t p = some T'
  idle : T'.xIdleTaskHandle = T.xIdleTaskHandle
  self : T'.uxPriority t = p
  others : ∀ u, u ≠ t → T'.uxPriority u = T.uxPriority u

theorem exists_prioritySet (T : Tasks τ) (t : τ) (hp : p < configMAX_PRIORITIES) :
    ∃ T', PrioritySet T T' t p := by
  refine ⟨_, dif_pos hp, rfl, Function.update_self .., fun u hu => Function.update_of_ne hu ..⟩

theorem PrioritySet.newPriority (hT : PrioritySet T T' t p) (s : Kernel τ) :
    NewPriority T T' s (s.setEventValue t p) t := by
  refine ⟨hT.idle, hT.others, rfl, fun x hx => Function.update_of_ne hx .., ?_⟩
  rw [hT.self]
  exact Function.update_self ..

omit [DecidableEq τ] in
theorem Refines.wake_ready [DecidableEq τ] (h : Refines T s a contents lo)
    (ht : a.state t = .ready) : a.wake (· == t) = a := by
  apply Timeline.ext <;> try rfl
  · funext u
    by_cases hu : u = t
    · rw [hu, ht]
      simp only [Timeline.wake, beq_self_eq_true, if_true]
    · simp only [Timeline.wake, beq_false_of_ne hu, Bool.false_eq_true, if_false]
  · funext n
    change (a.waiting n).filter (! · == t) = a.waiting n
    refine List.filter_eq_self.2 fun u hu => ?_
    have hne : u ≠ t := fun he => (h.present_of_waiting hu).2.1 (he ▸ ht)
    rw [beq_false_of_ne hne]
    rfl
  · funext u
    change (a.pendingReady u && !(u == t)) = a.pendingReady u
    by_cases hu : u = t
    · rw [hu, h.pendingReady_of_ready ht]
      rfl
    · rw [beq_false_of_ne hu, Bool.not_false, Bool.and_true]

def moved (T : Tasks τ) (s : Kernel τ) (t : τ) (p : Nat) : Lists (TaskItem τ) KernelList :=
  ((s.setEventValue t p).displace (.pxReadyTasksLists (T.uxPriority t))
    (.xStateListItem t)).vListInsertEnd (.pxReadyTasksLists p) (.xStateListItem t)

theorem PrioritySet.ready_refines (hT : PrioritySet T T' t p) (h : Refines T s a contents lo)
    (ht : a.state t = .ready) :
    Refines T' (s.added T' t (s.moved T t p)) a (readied T' contents t) lo := by
  obtain rfl : T'.uxPriority t = p := hT.self
  let l := (s.setEventValue t (T'.uxPriority t)).displace
    (.pxReadyTasksLists (T.uxPriority t)) (.xStateListItem t)
  have hc : (s.setEventValue t (T'.uxPriority t)).pxContainer (.xStateListItem t) =
      some (.pxReadyTasksLists (T.uxPriority t)) := by
    change s.lists.pxContainer _ = _
    rw [h.state, ht]
    rfl
  have hh : (s.setEventValue t (T'.uxPriority t)).Holds contents := h.holds.setValue _ _
  have h₁ : l.Holds (Lists.without contents (.xStateListItem t)) := hh.without hc
  have hs : l.pxContainer (.xStateListItem t) = none := by
    rw [Lists.displace_container, if_pos rfl]
  have he : l.pxContainer (.xEventListItem t) = none := by
    rw [Lists.displace_container, if_neg nofun]
    exact h.event_of_ready ht
  have hr : Readied T' (s.setEventValue t (T'.uxPriority t)) (s.moved T t (T'.uxPriority t))
      contents t := by
    refine readied_of_free ?_ hs he (fun x hx _ => ?_) rfl
    · rw [h₁.without_of_free he]
      exact h₁
    · rw [Lists.displace_container, if_neg hx]
  have hready := h.toReady (hT.newPriority s) hr
  rwa [h.wake_ready ht] at hready

theorem PrioritySet.blocked_refines (hT : PrioritySet T T' t p) (h : Refines T s a contents lo)
    (ht : a.state t ≠ .ready) :
    Refines T' { s with lists := s.setEventValue t p } a contents lo := by
  have hn := hT.newPriority s
  have hvalue (x) (hx : x ≠ .xEventListItem t) :
      (s.setEventValue t p).xItemValue x = s.lists.xItemValue x := hn.value x hx
  refine { h with
    holds := h.holds.setValue _ _, state := ?_, sorted := ?_, due := ?_, unblockTime := ?_,
    topReady := ?_, eventValue := ?_, idle := ?_ }
  · intro u
    refine (h.state u).trans (hn.home ?_).symm
    by_cases hu : u = t
    · exact .inr (hu ▸ ht)
    · exact .inl hu
  · intro k hk
    obtain ⟨m, hm, hs⟩ := h.sorted k hk
    refine ⟨m, hm, hs.imp_of_mem fun {x y} hx hy hle => ?_⟩
    have hitem (x) (hx : x ∈ m) : (s.setEventValue t p).xItemValue x = s.lists.xItemValue x := by
      obtain ⟨u, -, rfl, -⟩ := h.delayed_of_mem hk (by rw [hm]; exact hx)
      exact hvalue _ nofun
    change (s.setEventValue t p).xItemValue x ≤ (s.setEventValue t p).xItemValue y
    rwa [hitem x hx, hitem y hy]
  · intro u due hu
    have hd := h.due u due hu
    exact ⟨hd.1, hd.2.1, (hvalue (.xStateListItem u) nofun).trans hd.2.2⟩
  · intro u due hu he
    have hd := h.unblockTime u due hu he
    exact hd.trans_eq (hvalue (.xStateListItem u) nofun).symm
  · intro u hu
    rw [hT.others u fun he => ht (he ▸ hu)]
    exact h.topReady u hu
  · intro u hu
    by_cases hut : u = t
    · rw [hut]
      exact hn.eventValue
    · rw [hT.others u hut, ← h.eventValue u hu]
      exact hvalue _ fun he => hut (TaskItem.xEventListItem.inj he)
  · rw [hT.idle]
    exact h.idle

/-- What is known about time and about the waiting tasks does not depend on the priorities. -/
theorem changePriority_refines (h : Refines T s a contents lo) (ht : a.state t ≠ .absent)
    (hp : p < configMAX_PRIORITIES) :
    ∃ T' s' contents', s.changePriority T t p = some (T', s') ∧ PrioritySet T T' t p ∧
      Refines T' s' a contents' lo ∧ s'.xYieldPending = s.xYieldPending ∧
      s'.portNVIC_PENDSVSET_BIT = s.portNVIC_PENDSVSET_BIT := by
  obtain ⟨T', hT⟩ := exists_prioritySet T t hp
  rw [changePriority, resetEventValue_eq h ht, hT.set, Option.bind_eq_bind, Option.bind_some]
  have hiff : s.lists.pxContainer (.xStateListItem t) =
      some (.pxReadyTasksLists (T.uxPriority t)) ↔ a.state t = .ready := by
    rw [h.holds.container, h.mem_ready]
    constructor
    · rintro ⟨u, hu, hready, -⟩
      rwa [TaskItem.xStateListItem.inj hu]
    · exact fun hready => ⟨t, rfl, hready, rfl⟩
  by_cases hready : a.state t = .ready
  · refine ⟨T', _, _, ?_, hT, hT.ready_refines h hready, rfl, rfl⟩
    have hc := hiff.2 hready
    have hrem := uxListRemove_eq (s := { s with lists := s.setEventValue t p })
      (h.holds.setValue _ _) hc
    refine (if_pos hc).trans ?_
    rw [hrem, Option.bind_eq_bind, Option.bind_some, prvAddTaskToReadyList_eq, hT.self]
    rfl
  · refine ⟨T', _, contents, ?_, hT, hT.blocked_refines h hready, rfl, rfl⟩
    exact if_neg (hiff.not.2 hready)

omit [DecidableEq τ] in
theorem unchanged_of_ne {t : τ} (hne : T'.uxPriority t ≠ T.uxPriority t) {P : Prop} :
    T'.uxPriority = T.uxPriority → P :=
  fun he => absurd (congrFun he t) hne

theorem xTaskPriorityInherit_refines (h : Refines T s a contents lo) (ht : a.state t ≠ .absent) :
    ∃ b T' s' contents', s.xTaskPriorityInherit T t = some (b, T', s') ∧
      Refines T' s' a contents' lo ∧
      (T'.uxPriority = T.uxPriority → s' = s ∧ contents' = contents) ∧
      (Preempts T s a false → Preempts T' s' a false) := by
  rw [xTaskPriorityInherit]
  split
  · rename_i hlt
    obtain ⟨T', s', contents', hs', hT, href, hy, hp⟩ :=
      changePriority_refines h ht (T.uxPriority_lt s.pxCurrentTCB)
    have hne : a.current ≠ t := by
      rintro rfl
      rw [h.current] at hlt
      exact Nat.lt_irrefl _ hlt
    rw [hs']
    refine ⟨true, T', s', contents', rfl, href, unchanged_of_ne (t := t) ?_, fun hpre u hu => ?_⟩
    · rw [hT.self]
      exact Nat.ne_of_gt hlt
    · rw [hT.others _ hne, hy, hp]
      by_cases hut : u = t
      · rw [hut, hT.self, h.current]
        exact .inl (Nat.le_refl _)
      · rw [hT.others u hut]
        exact hpre u hu
  · exact ⟨_, T, s, contents, rfl, h, fun _ => ⟨rfl, rfl⟩, id⟩

omit [DecidableEq τ] in
theorem Refines.setMutexesHeld [DecidableEq τ] (h : Refines T s a contents lo) (t : τ) (n : Nat) :
    Refines (setMutexesHeld T t n) s a contents lo := { h with }

theorem xTaskPriorityDisinherit_refines (h : Refines T s a contents lo)
    (ht : a.state a.current = .ready) (hheld : T.uxMutexesHeld a.current ≠ 0) :
    ∃ b T' s' contents', s.xTaskPriorityDisinherit T a.current = some (b, T', s') ∧
      Refines T' s' a contents' lo ∧
      (T'.uxPriority = T.uxPriority → s' = s ∧ contents' = contents) := by
  have hassert : ¬(a.current ≠ s.pxCurrentTCB ∨ T.uxMutexesHeld a.current = 0) := by
    rw [h.current, not_or, not_not]
    exact ⟨rfl, hheld⟩
  rw [xTaskPriorityDisinherit, if_neg hassert]
  have h₁ := h.setMutexesHeld a.current (T.uxMutexesHeld a.current - 1)
  dsimp only
  split
  · rename_i hcond
    obtain ⟨T', hT⟩ := exists_prioritySet
      (setMutexesHeld T a.current (T.uxMutexesHeld a.current - 1)) a.current
      (T.uxBasePriority_lt a.current)
    have hc : s.lists.pxContainer (.xStateListItem a.current) =
        some (.pxReadyTasksLists (T.uxPriority a.current)) := by
      rw [h.state, ht]
      rfl
    have href := hT.ready_refines h₁ ht
    refine ⟨true, T', _, _, ?_, href, unchanged_of_ne (t := a.current) ?_⟩
    · rw [uxListRemove_eq h.holds hc, Option.bind_eq_bind, Option.bind_some]
      change (setPriority _ _ (T.uxBasePriority a.current)).bind _ = _
      rw [hT.set, Option.bind_some, prvAddTaskToReadyList_eq, hT.self]
      rfl
    · rw [hT.self]
      exact hcond.1.symm
  · exact ⟨false, _, s, contents, rfl, h₁, fun _ => ⟨rfl, rfl⟩⟩

omit [DecidableEq τ] in
theorem prvGetDisinheritPriorityAfterTimeout_eq (h : Refines T s a contents lo) (event : Nat) :
    ∃ p, s.prvGetDisinheritPriorityAfterTimeout event = some p ∧
      (p = 0 ∨ ∃ t, p = T.uxPriority t) := by
  rw [prvGetDisinheritPriorityAfterTimeout]
  have hcount := h.holds.count (.xTasksWaiting event)
  rw [h.waiting] at hcount
  cases hw : a.waiting event with
  | nil =>
    rw [hw] at hcount
    refine ⟨0, ?_, .inl rfl⟩
    rw [if_neg]
    rw [hcount]
    exact Nat.lt_irrefl 0
  | cons t rest =>
    rw [hw] at hcount
    have hmem : t ∈ a.waiting event := by
      rw [hw]
      exact List.mem_cons_self
    have hhead : s.lists.listGET_OWNER_OF_HEAD_ENTRY (.xTasksWaiting event) =
        some (.xEventListItem t) := by
      rw [h.holds.head, h.waiting, hw]
      rfl
    have hpos : s.lists.uxNumberOfItems (.xTasksWaiting event) > 0 := by
      rw [hcount]
      exact Nat.succ_pos _
    have hvalue := h.eventValue t (h.present_of_waiting hmem).2.2
    refine ⟨_, ?_, .inr ⟨t, rfl⟩⟩
    rw [if_pos hpos, hhead, Option.bind_eq_bind, Option.bind_some, hvalue]
    refine congrArg some ?_
    have hlt := T.uxPriority_lt t
    rw [configMAX_PRIORITIES] at *
    rw [← UInt32.ofNat_sub (Nat.sub_le _ _), UInt32.toNat_ofNat']
    omega

theorem vTaskPriorityDisinheritAfterTimeout_refines (h : Refines T s a contents lo)
    (ht : a.state t ≠ .absent) (hheld : T.uxMutexesHeld t ≠ 0)
    (hother : T.uxMutexesHeld t = 1 → t ≠ a.current) (hp : p < configMAX_PRIORITIES) :
    ∃ T' s' contents', s.vTaskPriorityDisinheritAfterTimeout T t p = some (T', s') ∧
      Refines T' s' a contents' lo ∧
      (T'.uxPriority = T.uxPriority → s' = s ∧ contents' = contents) := by
  rw [vTaskPriorityDisinheritAfterTimeout, if_neg hheld]
  split
  · exact ⟨T, s, contents, rfl, h, fun _ => ⟨rfl, rfl⟩⟩
  · rename_i hne
    rw [not_or, not_not] at hne
    have hcur : ¬t = s.pxCurrentTCB := by
      rw [h.current]
      exact hother hne.2
    rw [if_neg hcur]
    obtain ⟨T', s', contents', hs', hT, href, -, -⟩ :=
      changePriority_refines h ht (Nat.max_lt.2 ⟨T.uxBasePriority_lt t, hp⟩)
    refine ⟨T', s', contents', hs', href, unchanged_of_ne (t := t) ?_⟩
    rw [hT.self]
    exact fun he => hne.1 he.symm

end Kernel

end RobotCar

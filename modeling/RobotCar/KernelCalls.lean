import RobotCar.KernelTime

namespace RobotCar
set_option autoImplicit true

namespace Timeline

variable {τ : Type}

@[simp] theorem wake_nesting (a : Timeline τ) (W : τ → Bool) : (a.wake W).nesting = a.nesting := rfl

theorem tick_nesting (a : Timeline τ) : a.tick.nesting = a.nesting := by
  rw [tick]
  split <;> rfl

end Timeline

namespace Kernel

variable {τ : Type} [DecidableEq τ] {T : Tasks τ} {s : Kernel τ} {a : Timeline τ}
  {contents : KernelList → Carousel (TaskItem τ)}

/-! ### Resuming the scheduler -/

omit [DecidableEq τ] in
theorem Refines.withYield (h : Refines T s a contents lo) (yieldPending pendSV : Bool) :
    Refines T { s with xYieldPending := yieldPending, portNVIC_PENDSVSET_BIT := pendSV } a contents
      lo := { h with }

omit [DecidableEq τ] in
theorem Refines.pending_of_mem (h : Refines T s a contents lo)
    (hx : x ∈ (contents .xPendingReadyList).items) :
    ∃ t k, x = .xEventListItem t ∧ a.pendingReady t = true ∧
      (a.state t ≠ .ready ∧ a.state t ≠ .absent) ∧
      s.lists.pxContainer (.xEventListItem t) = some .xPendingReadyList ∧
      s.lists.pxContainer (.xStateListItem t) = some k := by
  have hc := (h.holds.container x _).2 hx
  cases x with
  | xStateListItem t =>
    rw [h.state] at hc
    cases ht : a.state t with
    | delayed due =>
      rw [ht, home] at hc
      have hk := Option.some.inj hc
      rcases h.delayedLists with ⟨h₁, h₂⟩ | ⟨h₁, h₂⟩ <;> rw [h₁, h₂] at hk <;> split at hk <;>
        cases hk
    | absent => rw [ht] at hc; cases hc
    | ready => rw [ht] at hc; cases hc
    | suspended => rw [ht] at hc; cases hc
  | xEventListItem t =>
    have hb := h.blocked t (by rw [hc]; exact Option.some_ne_none _)
    obtain ⟨k, hk⟩ : ∃ k, s.lists.pxContainer (.xStateListItem t) = some k := by
      rw [h.state]
      cases ht : a.state t with
      | delayed due => exact ⟨_, rfl⟩
      | absent => exact absurd ht hb.2
      | ready => exact absurd ht hb.1
      | suspended => exact ⟨_, rfl⟩
    exact ⟨t, k, rfl, (h.pendingReady t).2 hc, hb, hc, hk⟩

/-- All pending tasks are moved to their ready lists. -/
theorem movePending_refines (fuel : Nat) (h : Refines T s a contents lo)
    (hl : (contents .xPendingReadyList).items = l) (hf : l.length < fuel) (b : Bool) :
    ∃ b' s' contents', movePending T fuel b s = some (b', s') ∧
      Refines T s' (a.wake a.pendingReady) contents' lo ∧
      Wakes T s s' a (a.wake a.pendingReady) contents contents' false false := by
  induction l generalizing s a contents fuel b with
  | nil =>
    obtain ⟨fuel, rfl⟩ := Nat.exists_eq_succ_of_ne_zero (Nat.ne_of_gt hf)
    have hnone (t) : a.pendingReady t = false := by
      rw [Bool.eq_false_iff, ne_eq, h.pendingReady, h.holds.container, hl]
      exact List.not_mem_nil
    rw [a.wake_none hnone]
    exact ⟨b, s, contents, by rw [movePending, if_pos (h.holds.empty_iff.2 hl)], h,
      .requests contents id⟩
  | cons x l ih =>
    obtain ⟨fuel, rfl⟩ := Nat.exists_eq_succ_of_ne_zero (Nat.ne_of_gt (Nat.zero_lt_of_lt hf))
    have hx : x ∈ (contents .xPendingReadyList).items := by
      rw [hl]
      exact List.mem_cons_self
    obtain ⟨t, k, rfl, hpend, hb, he, hk⟩ := h.pending_of_mem hx
    have hhead := h.holds.head .xPendingReadyList
    rw [hl, List.head?_cons] at hhead
    have hne : ¬s.lists.listLIST_IS_EMPTY .xPendingReadyList = true := by
      rw [h.holds.empty_iff, hl]
      exact List.cons_ne_nil _ _
    have hr := readied_of_removed (T := T) h.holds hk he
    have hc : (s.lists.displace .xPendingReadyList (.xEventListItem t)).pxContainer
        (.xStateListItem t) = some k := by
      rw [Lists.displace_container, if_neg nofun, hk]
    have hrem := uxListRemove_eq
      (s := { s with lists := s.lists.displace .xPendingReadyList (.xEventListItem t) })
      (h.holds.without he) hc
    have hrest : (readied T contents t .xPendingReadyList).items = l := by
      have hd := h.holds.nodup .xPendingReadyList
      have hst : (.xStateListItem t : TaskItem τ) ∉ (contents .xPendingReadyList).items := by
        intro hm
        obtain ⟨u, -, hu, -⟩ := h.pending_of_mem hm
        cases hu
      rw [readied_of_ne (k := .xPendingReadyList) nofun, Carousel.remove_of_not_mem hst,
        Carousel.remove_items hd, hl, List.erase_cons_head]
    have hwake : (a.wake (· == t)).wake (a.wake (· == t)).pendingReady = a.wake a.pendingReady := by
      rw [Timeline.wake_wake]
      congr 1
      funext u
      by_cases hu : u = t
      · subst hu
        rw [beq_self_eq_true, Bool.true_or, hpend]
      · change ((u == t) || (a.pendingReady u && !(u == t))) = _
        rw [beq_false_of_ne hu, Bool.false_or, Bool.not_false, Bool.and_true]
    have hready := (h.ready hb.2 hr).withYield
      (s.xYieldPending || T.uxPriority s.pxCurrentTCB ≤ T.uxPriority t) s.portNVIC_PENDSVSET_BIT
    obtain ⟨b', s', contents', hrun, href, hwakes⟩ :=
      ih fuel hready hrest (Nat.lt_of_succ_lt_succ hf) true
    rw [hwake] at href hwakes
    refine ⟨b', s', contents', ?_, href, .trans (h.ready_wakes hb.1 ?_) hwakes⟩
    · rw [movePending, if_neg hne, hhead, ← hrun]
      simp only [Option.bind_eq_bind, Option.bind_some, TaskItem.pvOwner, movePendingTask, hrem,
        uxListRemove_eq h.holds he, prvAddTaskToReadyList_eq]
      rfl
    · rintro (hlt | hf | hy | hp)
      · rw [h.current, decide_eq_true (Nat.le_of_lt hlt), Bool.or_true]
        exact .inr (.inl rfl)
      · exact absurd hf Bool.false_ne_true
      · rw [hy]
        exact .inr (.inl rfl)
      · exact .inr (.inr hp)

/-- The ticks that came while the scheduler was suspended are made up for. -/
theorem processPended_refines (n : Nat) (h : Refines T s a contents (a.now + 1))
    (hn : a.nesting = 0) :
    ∃ s' contents', processPended T n s = some s' ∧
      Refines T s' (Timeline.tick^[n] a) contents' ((Timeline.tick^[n] a).now + 1) ∧
      Wakes T s s' a (Timeline.tick^[n] a) contents contents' false false := by
  induction n generalizing s a contents with
  | zero => exact ⟨s, contents, rfl, h, .requests contents id⟩
  | succ n ih =>
    obtain ⟨b, s₁, contents₁, hs₁, h₁, hw₁⟩ :=
      xTaskIncrementTick_refines h fun hne => absurd hn hne
    have hyield := h₁.withYield (s₁.xYieldPending || b) s₁.portNVIC_PENDSVSET_BIT
    obtain ⟨s', contents', hrun, href, hw⟩ := ih hyield (a.tick_nesting.trans hn)
    refine ⟨s', contents', ?_, href, (hw₁.trans (.requests _ ?_)).trans hw⟩
    · rw [processPended, hs₁]
      exact hrun
    · rintro (hb | hy | hp)
      · rw [hb, Bool.or_true]
        exact .inr (.inl rfl)
      · rw [hy]
        exact .inr (.inl rfl)
      · exact .inr (.inr hp)

theorem resume_refines (h : Refines T s a contents (a.now + 1)) (hn : a.nesting = 0) :
    ∃ b s' contents', s.resume T = some (b, s') ∧
      Refines T s' a.resume contents' (a.resume.now + 1) ∧
      Wakes T s s' a a.resume contents contents' false false := by
  have hf : (contents .xPendingReadyList).items.length <
      s.lists.uxNumberOfItems .xPendingReadyList + 1 := by
    rw [h.holds.count]
    exact Nat.lt_succ_self _
  obtain ⟨moved, s₁, contents₁, hs₁, h₁, hw₁⟩ := movePending_refines _ h rfl hf false
  obtain ⟨s₂, hs₂, h₂, hw₂⟩ : ∃ s₂, s₁.resetAfter moved = some s₂ ∧
      Refines T s₂ (a.wake a.pendingReady) contents₁ (a.now + 1) ∧
      Wakes T s₁ s₂ (a.wake a.pendingReady) (a.wake a.pendingReady) contents₁ contents₁ false
        false := by
    cases moved with
    | false => exact ⟨s₁, rfl, h₁, .requests contents₁ id⟩
    | true =>
      obtain ⟨v, hv, hr⟩ := h₁.resetUnblockTime
      exact ⟨_, hv, hr, .requests contents₁ id⟩
  have hcount : s₂.xPendedTicks.toNat = a.pended := by
    rw [h₂.pended, UInt32.toNat_ofNat_of_lt' h₂.pended_lt]
    rfl
  obtain ⟨s₃, contents₃, hs₃, h₃, hw₃⟩ := processPended_refines a.pended h₂ hn
  have h₄ : Refines T { s₃ with xPendedTicks := 0 } a.resume contents₃ (a.resume.now + 1) :=
    { h₃ with pended := rfl, pended_lt := by simp [Timeline.resume] }
  refine ⟨s₃.xYieldPending, if s₃.xYieldPending then { s₃ with xPendedTicks := 0 }.portYIELD
    else { s₃ with xPendedTicks := 0 }, contents₃, ?_, ?_, (hw₁.trans hw₂).trans ⟨hw₃.turns, ?_⟩⟩
  · rw [resume, hs₁]
    simp only [Option.bind_eq_bind, Option.bind_some, hs₂, hcount, hs₃]
    rfl
  · split
    · exact h₄.withYield _ true
    · exact h₄
  · intro hpre t ht
    refine (hw₃.preempts hpre t ht).imp_right (.imp_right fun hreq => ?_)
    split
    · exact .inr rfl
    · exact hreq

theorem xTaskResumeAll_refines (h : Refines T s a contents (a.now + 1)) (hn : a.nesting ≠ 0) :
    ∃ b s' contents', s.xTaskResumeAll T = some (b, s') ∧
      Refines T s' a.resumeAll contents' (a.resumeAll.now + 1) ∧
      Wakes T s s' a a.resumeAll contents contents' false false := by
  have h' : Refines T { s with uxSchedulerSuspended := s.uxSchedulerSuspended - 1 }
      { a with nesting := a.nesting - 1 } contents (a.now + 1) :=
    { h with nesting := congrArg (· - 1) h.nesting }
  rw [xTaskResumeAll, if_neg (fun he => hn (h.nesting.symm.trans he)), Timeline.resumeAll]
  dsimp only
  by_cases hone : a.nesting = 1 ∧ a.tasks ≠ 0
  · rw [hone.1] at h'
    rw [if_pos hone, if_pos ⟨h'.nesting, by rw [h.tasks]; exact Nat.pos_of_ne_zero hone.2⟩]
    obtain ⟨b, s', contents', hs', href, hw⟩ := resume_refines h' rfl
    exact ⟨b, s', contents', hs', href, hw.turns, hw.preempts⟩
  · have hne : ¬(s.uxSchedulerSuspended - 1 = 0 ∧ s.uxCurrentNumberOfTasks > 0) := by
      rw [h.nesting, h.tasks]
      omega
    rw [if_neg hone, if_neg hne]
    exact ⟨false, _, contents, rfl, h', KeepsTurn.refl contents, id⟩

/-! ### Blocking -/

/-- The running task is blocked. What the lists look like afterwards is left open here. -/
theorem Refines.block (h : Refines T s a contents lo) (hidle : a.current ≠ T.xIdleTaskHandle)
    {l : Lists (TaskItem τ) KernelList} {σ : TaskState} {ws : Nat → List τ} {v : UInt32}
    (hl : l.Holds contents') (hσ : σ ≠ .ready ∧ σ ≠ .absent)
    (hst : l.pxContainer (.xStateListItem a.current) = s.home T a.now a.current σ)
    (hothers : ∀ x, x ≠ .xStateListItem a.current → x ≠ .xEventListItem a.current →
      l.pxContainer x = s.lists.pxContainer x)
    (hev : ∀ k, l.pxContainer (.xEventListItem a.current) = some k → ∃ n, k = .xTasksWaiting n)
    (hpend : a.pendingReady a.current = false)
    (hws : ∀ n, contents' (.xTasksWaiting n) = ⟨[], (ws n).map .xEventListItem⟩)
    (hsorted : ∀ k, k = s.pxDelayedTaskList ∨ k = s.pxOverflowDelayedTaskList → ∃ m,
      contents' k = ⟨[], m⟩ ∧ m.Pairwise (l.xItemValue · ≤ l.xItemValue ·))
    (hval : ∀ x, x ≠ .xStateListItem a.current → l.xItemValue x = s.lists.xItemValue x)
    (hdue : ∀ due, σ = .delayed due → lo ≤ due ∧ due < a.now + 2 ^ 32 ∧
      l.xItemValue (.xStateListItem a.current) = UInt32.ofNat due)
    (hv : v ≤ s.xNextTaskUnblockTime)
    (hvdue : ∀ due, σ = .delayed due → due / 2 ^ 32 = a.now / 2 ^ 32 →
      v ≤ l.xItemValue (.xStateListItem a.current))
    (hcur : a.state a.current ≠ .absent) :
    Refines T { s with lists := l, xNextTaskUnblockTime := v }
      { a with state := Function.update a.state a.current σ, waiting := ws } contents' lo := by
  have hstate (u) (hu : u ≠ a.current) : Function.update a.state a.current σ u = a.state u :=
    Function.update_of_ne hu ..
  have hself : Function.update a.state a.current σ a.current = σ := Function.update_self ..
  have hitem (u) (hu : u ≠ a.current) :
      (.xStateListItem u : TaskItem τ) ≠ .xStateListItem a.current :=
    fun he => hu (TaskItem.xStateListItem.inj he)
  have hevent (u) (hu : u ≠ a.current) :
      l.pxContainer (.xEventListItem u) = s.lists.pxContainer (.xEventListItem u) :=
    hothers _ nofun fun he => hu (TaskItem.xEventListItem.inj he)
  constructor
  case holds => exact hl
  case now => exact h.now
  case overflows => exact h.overflows
  case pended => exact h.pended
  case pended_lt => exact h.pended_lt
  case nesting => exact h.nesting
  case running => exact h.running
  case tasks => exact h.tasks
  case current => exact h.current
  case delayedLists => exact h.delayedLists
  case waiting => exact hws
  case sorted => exact hsorted
  case state =>
    intro u
    by_cases hu : u = a.current
    · subst hu
      exact hst.trans (congrArg _ hself.symm)
    · change l.pxContainer _ = s.home T a.now u (Function.update a.state a.current σ u)
      rw [hstate u hu, hothers _ (hitem u hu) nofun, h.state]
  case event =>
    intro u k hk
    by_cases hu : u = a.current
    · subst hu
      exact .inr (hev k hk)
    · rw [hevent u hu] at hk
      exact h.event u k hk
  case pendingReady =>
    intro u
    by_cases hu : u = a.current
    · subst hu
      change a.pendingReady a.current = true ↔ _
      rw [hpend]
      refine ⟨nofun, fun hk => ?_⟩
      obtain ⟨n, hn⟩ := hev _ hk
      cases hn
    · change _ ↔ l.pxContainer _ = _
      rw [hevent u hu]
      exact h.pendingReady u
  case due =>
    intro u due hu
    by_cases hut : u = a.current
    · subst hut
      exact hdue due (hself.symm.trans hu)
    · change lo ≤ due ∧ due < a.now + 2 ^ 32 ∧ l.xItemValue _ = _
      rw [hval _ (hitem u hut)]
      exact h.due u due ((hstate u hut).symm.trans hu)
  case unblockTime =>
    intro u due hu he
    by_cases hut : u = a.current
    · subst hut
      exact hvdue due (hself.symm.trans hu) he
    · change v ≤ l.xItemValue _
      rw [hval _ (hitem u hut)]
      exact UInt32.le_trans hv (h.unblockTime u due ((hstate u hut).symm.trans hu) he)
  case blocked =>
    intro u hu
    by_cases hut : u = a.current
    · subst hut
      change Function.update a.state a.current σ a.current ≠ _ ∧
        Function.update a.state a.current σ a.current ≠ _
      rw [hself]
      exact hσ
    · change l.pxContainer _ ≠ none at hu
      rw [hevent u hut] at hu
      change Function.update a.state a.current σ u ≠ _ ∧ Function.update a.state a.current σ u ≠ _
      rw [hstate u hut]
      exact h.blocked u hu
  case topReady =>
    intro u hu
    by_cases hut : u = a.current
    · subst hut
      exact absurd (hself.symm.trans hu) hσ.1
    · exact h.topReady u ((hstate u hut).symm.trans hu)
  case eventValue =>
    intro u hu
    change l.xItemValue _ = _
    rw [hval (.xEventListItem u) nofun]
    apply h.eventValue
    by_cases hut : u = a.current
    · subst hut
      exact hcur
    · exact fun he => hu ((hstate u hut).trans he)
  case idle =>
    intro hrun
    exact (hstate _ hidle.symm).trans (h.idle hrun)

/-- The state item of the running task leaves the ready list, and goes into a list in which the
items are in the order of their values, or into the list of suspended tasks. -/
structure Parked (s : Kernel τ) (contents contents' : KernelList → Carousel (TaskItem τ))
    (l : Lists (TaskItem τ) KernelList) (target : KernelList) : Prop where
  holds : l.Holds contents'
  container : ∀ x, l.pxContainer x =
    if x = .xStateListItem s.pxCurrentTCB then some target else s.lists.pxContainer x
  value : ∀ x, x ≠ .xStateListItem s.pxCurrentTCB → l.xItemValue x = s.lists.xItemValue x
  others : ∀ k, k ≠ target → contents' k = (contents k).remove (.xStateListItem s.pxCurrentTCB)

theorem Parked.sorted_of_ne (h : Parked s contents contents' l target)
    (hx : s.lists.pxContainer (.xStateListItem s.pxCurrentTCB) ≠ some k) (hk : k ≠ target)
    (hH : s.lists.Holds contents) (hm : contents k = ⟨[], m⟩)
    (hs : m.Pairwise (s.lists.xItemValue · ≤ s.lists.xItemValue ·)) :
    contents' k = ⟨[], m⟩ ∧ m.Pairwise (l.xItemValue · ≤ l.xItemValue ·) := by
  have hnot : .xStateListItem s.pxCurrentTCB ∉ (contents k).items := by
    rwa [← hH.container]
  have hnot' : .xStateListItem s.pxCurrentTCB ∉ m := by
    rw [hm] at hnot
    exact hnot
  refine ⟨by rw [h.others k hk, Carousel.remove_of_not_mem hnot, hm], hs.imp_of_mem ?_⟩
  intro x y hx hy hle
  rwa [h.value x fun he => hnot' (he ▸ hx), h.value y fun he => hnot' (he ▸ hy)]

def delayedList (s : Kernel τ) (v : UInt32) : KernelList :=
  if v < s.xTickCount then s.pxOverflowDelayedTaskList else s.pxDelayedTaskList

theorem insertDelayed_eq (hH : s.lists.Holds contents)
    (hx : s.lists.pxContainer (.xStateListItem s.pxCurrentTCB) = none) (v : UInt32)
    (hm : contents (s.delayedList v) = ⟨[], m⟩)
    (hs : m.Pairwise (s.lists.xItemValue · ≤ s.lists.xItemValue ·)) :
    ∃ l w contents', s.insertDelayed v =
        some { s with lists := l, xNextTaskUnblockTime := w } ∧
      Parked s contents contents' l (s.delayedList v) ∧
      (∃ m', contents' (s.delayedList v) = ⟨[], m'⟩ ∧
        m'.Pairwise (l.xItemValue · ≤ l.xItemValue ·)) ∧
      l.xItemValue (.xStateListItem s.pxCurrentTCB) = v ∧ w ≤ s.xNextTaskUnblockTime ∧
      (¬v < s.xTickCount → w ≤ v) := by
  let x : TaskItem τ := .xStateListItem s.pxCurrentTCB
  let l₁ := s.lists.listSET_LIST_ITEM_VALUE x v
  have h₁ : l₁.Holds contents := hH.setValue x v
  have hother (y) (hy : y ≠ x) : l₁.xItemValue y = s.lists.xItemValue y :=
    Function.update_of_ne hy ..
  have hself : l₁.xItemValue x = v := Function.update_self ..
  have hnot : x ∉ m := by
    have hf := hH.free hx (s.delayedList v)
    rw [hm, Lists.item_mem] at hf
    exact hf
  have hs₁ : m.Pairwise (l₁.xItemValue · ≤ l₁.xItemValue ·) := by
    refine hs.imp_of_mem fun {y z} hy hz hle => ?_
    rwa [hother y fun he => hnot (he ▸ hy), hother z fun he => hnot (he ▸ hz)]
  obtain ⟨p, q, hins, hholds⟩ := h₁.insert (x := x) hx hm
  obtain ⟨m', hm', hholds⟩ : ∃ m', m'.Pairwise (l₁.xItemValue · ≤ l₁.xItemValue ·) ∧
      (l₁.place (s.delayedList v) p x q).Holds
        (Function.update contents (s.delayedList v) ⟨[], m'⟩) :=
    ⟨_, Lists.pairwise_insert hs₁ x, hholds⟩
  have hparked : Parked s contents (Function.update contents (s.delayedList v) ⟨[], m'⟩)
      (l₁.place (s.delayedList v) p x q) (s.delayedList v) := by
    refine ⟨hholds, fun y => Lists.place_container .., hother, fun k hk => ?_⟩
    rw [Function.update_of_ne hk, Carousel.remove_of_not_mem]
    exact fun hmem => hH.free hx k (Lists.item_mem.2 hmem)
  refine ⟨_, if v < s.xTickCount then s.xNextTaskUnblockTime else
    if v < s.xNextTaskUnblockTime then v else s.xNextTaskUnblockTime, _, ?_, hparked,
    ⟨m', Function.update_self .., hm'⟩, hself, ?_, ?_⟩
  · rw [insertDelayed]
    rw [delayedList] at hins ⊢
    by_cases hv : v < s.xTickCount
    · rw [if_pos hv] at hins
      simp only [if_pos hv]
      rw [hins]
      rfl
    · rw [if_neg hv] at hins
      simp only [if_neg hv]
      rw [hins]
      by_cases hw : v < s.xNextTaskUnblockTime
      · simp only [Option.bind_eq_bind, Option.bind_some, if_pos hw]
        rfl
      · simp only [Option.bind_eq_bind, Option.bind_some, if_neg hw]
        rfl
  · split
    · exact UInt32.le_refl _
    · split
      · rename_i hw
        exact UInt32.le_of_lt hw
      · exact UInt32.le_refl _
  · intro hv
    rw [if_neg hv]
    split
    · exact UInt32.le_refl _
    · rename_i hw
      exact UInt32.not_lt.1 hw

theorem prvAddCurrentTaskToDelayedList_eq (hH : s.lists.Holds contents)
    (hx : s.lists.pxContainer (.xStateListItem s.pxCurrentTCB) = some k) (n : UInt32)
    (hk : k ≠ s.delayedList (s.xTickCount + n))
    (hm : contents (s.delayedList (s.xTickCount + n)) = ⟨[], m⟩)
    (hs : m.Pairwise (s.lists.xItemValue · ≤ s.lists.xItemValue ·)) (b : Bool)
    (hb : ¬(n = portMAX_DELAY ∧ b = true)) :
    ∃ l w contents', s.prvAddCurrentTaskToDelayedList n b =
        some { s with lists := l, xNextTaskUnblockTime := w } ∧
      Parked s contents contents' l (s.delayedList (s.xTickCount + n)) ∧
      (∃ m', contents' (s.delayedList (s.xTickCount + n)) = ⟨[], m'⟩ ∧
        m'.Pairwise (l.xItemValue · ≤ l.xItemValue ·)) ∧
      l.xItemValue (.xStateListItem s.pxCurrentTCB) = s.xTickCount + n ∧
      w ≤ s.xNextTaskUnblockTime ∧
      (¬s.xTickCount + n < s.xTickCount → w ≤ s.xTickCount + n) := by
  let x : TaskItem τ := .xStateListItem s.pxCurrentTCB
  have h₁ := hH.without hx
  have hfree : (s.lists.displace k x).pxContainer x = none := by
    rw [Lists.displace_container, if_pos rfl]
  have hnot : x ∉ (contents (s.delayedList (s.xTickCount + n))).items := by
    rw [← hH.container, hx]
    exact fun he => hk (Option.some.inj he)
  have hm₁ : Lists.without contents x (s.delayedList (s.xTickCount + n)) = ⟨[], m⟩ := by
    rw [Lists.without, Carousel.remove_of_not_mem hnot, hm]
  obtain ⟨l, w, contents', hrun, hp, hsorted, hval, hw, hw'⟩ := insertDelayed_eq
    (s := { s with lists := s.lists.displace k x }) h₁ hfree (s.xTickCount + n) hm₁ hs
  refine ⟨l, w, contents', ?_, ?_, hsorted, hval, hw, hw'⟩
  · rw [prvAddCurrentTaskToDelayedList, uxListRemove_eq hH hx, ← hrun, Option.bind_eq_bind,
      Option.bind_some]
    exact if_neg fun he => hb ((Bool.and_eq_true_iff.1 he).imp_left of_decide_eq_true)
  · refine ⟨hp.holds, fun y => ?_, hp.value, fun k' hk' => ?_⟩
    · rw [hp.container]
      by_cases hy : y = x
      · rw [if_pos hy, if_pos hy]
        rfl
      · rw [if_neg hy, if_neg hy, Lists.displace_container, if_neg hy]
    · rw [hp.others k' hk']
      exact Carousel.remove_of_not_mem fun hmem =>
        h₁.free hfree k' (Lists.item_mem.2 hmem)

theorem prvAddCurrentTaskToDelayedList_suspend (hH : s.lists.Holds contents)
    (hx : s.lists.pxContainer (.xStateListItem s.pxCurrentTCB) = some k) :
    ∃ l contents', s.prvAddCurrentTaskToDelayedList portMAX_DELAY true =
        some { s with lists := l } ∧
      Parked s contents contents' l .xSuspendedTaskList ∧ l.xItemValue = s.lists.xItemValue := by
  let x : TaskItem τ := .xStateListItem s.pxCurrentTCB
  have h₁ := hH.without hx
  have hfree : (s.lists.displace k x).pxContainer x = none := by
    rw [Lists.displace_container, if_pos rfl]
  obtain ⟨p, q, he, hh⟩ := h₁.insertEnd hfree .xSuspendedTaskList
  refine ⟨_, _, ?_, ⟨hh, fun y => ?_, fun y _ => rfl, fun k' hk' => ?_⟩, rfl⟩
  · rw [prvAddCurrentTaskToDelayedList, uxListRemove_eq hH hx, Option.bind_eq_bind,
      Option.bind_some, ← he]
    exact if_pos (by simp)
  · rw [Lists.place_container]
    by_cases hy : y = x
    · rw [if_pos hy, if_pos hy]
    · rw [if_neg hy, if_neg hy, Lists.displace_container, if_neg hy]
  · rw [Function.update_of_ne hk', Lists.without]

def blockedState (now : Nat) (n : UInt32) (b : Bool) : TaskState :=
  if n = portMAX_DELAY ∧ b = true then .suspended else .delayed (now + n.toNat)

/-- A task that waits for an event besides is in the list of the event before its state item is
moved. -/
structure Placed (s : Kernel τ) (a : Timeline τ) (l : Lists (TaskItem τ) KernelList)
    (contents contents' : KernelList → Carousel (TaskItem τ)) (ws : Nat → List τ) : Prop where
  holds : l.Holds contents'
  container : ∀ x, x ≠ .xEventListItem a.current → l.pxContainer x = s.lists.pxContainer x
  event : ∀ k, l.pxContainer (.xEventListItem a.current) = some k → ∃ n, k = .xTasksWaiting n
  value : l.xItemValue = s.lists.xItemValue
  waiting : ∀ n, contents' (.xTasksWaiting n) = ⟨[], (ws n).map .xEventListItem⟩
  others : ∀ k, (∀ n, k ≠ .xTasksWaiting n) → contents' k = contents k

/-- The running task was moved from its ready list to the list of its new state. -/
theorem Parked.refines (h : Refines T s a contents lo) (hcur : a.state a.current = .ready)
    (hidle : a.current ≠ T.xIdleTaskHandle) (hpend : a.pendingReady a.current = false)
    (hp : Placed s a l contents contents₁ ws)
    (hk : Parked { s with lists := l } contents₁ contents' l' target)
    {σ : TaskState} (hσ : σ ≠ .ready ∧ σ ≠ .absent)
    (htarget : s.home T a.now a.current σ = some target)
    (hsorted : target = s.pxDelayedTaskList ∨ target = s.pxOverflowDelayedTaskList → ∃ m,
      contents' target = ⟨[], m⟩ ∧ m.Pairwise (l'.xItemValue · ≤ l'.xItemValue ·))
    (hdue : ∀ due, σ = .delayed due → lo ≤ due ∧ due < a.now + 2 ^ 32 ∧
      l'.xItemValue (.xStateListItem a.current) = UInt32.ofNat due)
    (hv : v ≤ s.xNextTaskUnblockTime)
    (hvdue : ∀ due, σ = .delayed due → due / 2 ^ 32 = a.now / 2 ^ 32 →
      v ≤ l'.xItemValue (.xStateListItem a.current)) :
    Refines T { s with lists := l', xNextTaskUnblockTime := v }
      { a with state := Function.update a.state a.current σ, waiting := ws } contents' lo := by
  have hready : l.pxContainer (.xStateListItem a.current) =
      some (.pxReadyTasksLists (T.uxPriority a.current)) := by
    rw [hp.container (.xStateListItem _) (TaskItem.state_ne_event _ _), h.state, hcur]
    rfl
  have hready' : l.pxContainer (.xStateListItem s.pxCurrentTCB) =
      some (.pxReadyTasksLists (T.uxPriority a.current)) := by
    rw [h.current, hready]
  have hlists (k) (hk : k = s.pxDelayedTaskList ∨ k = s.pxOverflowDelayedTaskList) :
      k = .xDelayedTaskList1 ∨ k = .xDelayedTaskList2 := by
    rcases h.delayedLists with ⟨h₁, h₂⟩ | ⟨h₁, h₂⟩
    · exact hk.imp (·.trans h₁) (·.trans h₂)
    · exact hk.symm.imp (·.trans h₂) (·.trans h₁)
  have hwaiting (n) : target ≠ .xTasksWaiting n := by
    rintro rfl
    cases σ with
    | absent => exact hσ.2 rfl
    | ready => exact hσ.1 rfl
    | suspended => cases Option.some.inj htarget
    | delayed due =>
      have hmem : KernelList.xTasksWaiting n = s.pxDelayedTaskList ∨
          .xTasksWaiting n = s.pxOverflowDelayedTaskList := by
        rw [home] at htarget
        have heq := Option.some.inj htarget
        split at heq
        · exact .inl heq.symm
        · exact .inr heq.symm
      rcases hlists _ hmem with he | he <;> cases he
  have hnot (k) (hk : k ≠ .pxReadyTasksLists (T.uxPriority a.current)) :
      .xStateListItem s.pxCurrentTCB ∉ (contents₁ k).items := by
    rw [← hp.holds.container, hready']
    exact fun he => hk (Option.some.inj he).symm
  have hothers (x) (hx : x ≠ .xStateListItem a.current) : l'.pxContainer x = l.pxContainer x := by
    rw [hk.container, if_neg]
    rwa [h.current]
  refine h.block hidle hk.holds hσ ?_ ?_ ?_ hpend ?_ ?_ ?_ hdue hv hvdue ?_
  · rw [hk.container, if_pos (by rw [h.current]), htarget]
  · intro x hx hx'
    rw [hothers x hx, hp.container x hx']
  · intro k he
    rw [hothers (.xEventListItem _) (TaskItem.event_ne_state _ _)] at he
    exact hp.event k he
  · intro n
    rw [hk.others _ (hwaiting n).symm, Carousel.remove_of_not_mem, hp.waiting]
    exact hnot (.xTasksWaiting n) (KernelList.waiting_ne_ready _ _)
  · intro k hkd
    by_cases hkt : k = target
    · subst hkt
      exact hsorted hkd
    · have hkw (n) : k ≠ .xTasksWaiting n := by
        rintro rfl
        rcases hlists _ hkd with he | he <;> cases he
      have hkr : k ≠ .pxReadyTasksLists (T.uxPriority a.current) := by
        rintro rfl
        rcases hlists _ hkd with he | he <;> cases he
      obtain ⟨m, hm, hs⟩ := h.sorted k hkd
      rw [← hp.value] at hs
      rw [← hp.others k hkw] at hm
      refine ⟨m, hk.sorted_of_ne ?_ hkt hp.holds hm hs⟩
      change l.pxContainer _ ≠ _
      rw [hready']
      exact fun he => hkr (Option.some.inj he).symm
  · intro x hx
    rw [← hp.value]
    exact hk.value x (by rwa [h.current])
  · rw [hcur]
    intro he
    cases he

/-- What a step in which the running task is blocked leaves as it is. -/
structure Blocks (T : Tasks τ) (s s' : Kernel τ) (a a' : Timeline τ)
    (contents contents' : KernelList → Carousel (TaskItem τ)) : Prop where
  turns : ∀ x, x ≠ .xStateListItem a.current → KeepsTurn contents contents' x
  preempts : Preempts T s a b → Preempts T s' a' b

theorem Parked.blocks (h : Refines T s a contents lo) (hp : Placed s a l contents contents₁ ws)
    (hk : Parked { s with lists := l } contents₁ contents' l' target)
    (htarget : ∀ p, target ≠ .pxReadyTasksLists p) {σ : TaskState} (hσ : σ ≠ .ready) :
    Blocks T s { s with lists := l', xNextTaskUnblockTime := v } a
      { a with state := Function.update a.state a.current σ, waiting := ws }
      contents contents' := by
  refine ⟨fun x hx p hm => ?_, fun hpre u hu => hpre u ?_⟩
  · have heq : contents' (.pxReadyTasksLists p) =
        (contents (.pxReadyTasksLists p)).remove (.xStateListItem a.current) := by
      rw [hk.others _ (htarget p).symm, hp.others (.pxReadyTasksLists p) fun _ => nofun,
        ← h.current]
    rw [heq]
    refine ⟨?_, fun y => Carousel.credit_remove _ hx.symm y⟩
    rw [Carousel.remove_items (h.holds.nodup _)]
    exact (List.mem_erase_of_ne hx).2 hm
  · change Function.update a.state a.current σ u = .ready at hu
    by_cases hut : u = a.current
    · rw [hut, Function.update_self] at hu
      exact absurd hu hσ
    · rwa [Function.update_of_ne hut] at hu

omit [DecidableEq τ] in
theorem Refines.event_of_ready (h : Refines T s a contents lo) (ht : a.state t = .ready) :
    s.lists.pxContainer (.xEventListItem t) = none := by
  by_contra hne
  exact (h.blocked t hne).1 ht

omit [DecidableEq τ] in
theorem Refines.pendingReady_of_ready (h : Refines T s a contents lo) (ht : a.state t = .ready) :
    a.pendingReady t = false := by
  rw [Bool.eq_false_iff, ne_eq, h.pendingReady, h.event_of_ready ht]
  exact nofun

theorem block_refines (h : Refines T s a contents (a.now + 1))
    (hcur : a.state a.current = .ready) (hidle : a.current ≠ T.xIdleTaskHandle)
    (hpend : a.pendingReady a.current = false) (hp : Placed s a l contents contents₁ ws)
    (n : UInt32) (hn : n ≠ 0) (b : Bool) :
    ∃ s' contents', { s with lists := l }.prvAddCurrentTaskToDelayedList n b = some s' ∧
      Refines T s' { a with
        state := Function.update a.state a.current (blockedState a.now n b)
        waiting := ws } contents' (a.now + 1) ∧
      Blocks T s s' a { a with
        state := Function.update a.state a.current (blockedState a.now n b)
        waiting := ws } contents contents' := by
  have hready : l.pxContainer (.xStateListItem s.pxCurrentTCB) =
      some (.pxReadyTasksLists (T.uxPriority a.current)) := by
    rw [hp.container (.xStateListItem _) nofun, h.state, h.current, hcur]
    rfl
  by_cases hb : n = portMAX_DELAY ∧ b = true
  · obtain ⟨l', contents', hrun, hk, hval⟩ :=
      prvAddCurrentTaskToDelayedList_suspend (s := { s with lists := l }) hp.holds hready
    rw [blockedState, if_pos hb, hb.1, hb.2]
    refine ⟨_, contents', hrun, hk.refines h hcur hidle hpend hp ⟨nofun, nofun⟩ rfl ?_ ?_
      (UInt32.le_refl _) ?_, hk.blocks h hp nofun nofun⟩
    · intro he
      rcases h.delayedLists with ⟨h₁, h₂⟩ | ⟨h₁, h₂⟩ <;> rw [h₁, h₂] at he <;> simp at he
    · exact nofun
    · exact nofun
  · rw [blockedState, if_neg hb]
    have htick : s.xTickCount + n = UInt32.ofNat (a.now + n.toNat) := by
      rw [h.now, UInt32.ofNat_add, UInt32.ofNat_toNat]
    have hpos : 0 < n.toNat := Nat.pos_of_ne_zero fun he => hn (UInt32.toNat_inj.1 he)
    have hlt := n.toNat_lt
    have hwrap : s.xTickCount + n < s.xTickCount ↔
        (a.now + n.toNat) / 2 ^ 32 ≠ a.now / 2 ^ 32 := by
      rw [htick, h.now, UInt32.lt_iff_toNat_lt, UInt32.toNat_ofNat', UInt32.toNat_ofNat']
      omega
    have hlist : s.delayedList (s.xTickCount + n) = s.pxDelayedTaskList ∨
        s.delayedList (s.xTickCount + n) = s.pxOverflowDelayedTaskList := by
      rw [delayedList]
      split
      · exact .inr rfl
      · exact .inl rfl
    have hkw (k) (hk : k = s.pxDelayedTaskList ∨ k = s.pxOverflowDelayedTaskList) :
        (∀ p, k ≠ .pxReadyTasksLists p) ∧ ∀ n, k ≠ .xTasksWaiting n := by
      rcases h.delayedLists with ⟨h₁, h₂⟩ | ⟨h₁, h₂⟩ <;> rw [h₁, h₂] at hk <;>
        rcases hk with rfl | rfl <;> exact ⟨nofun, nofun⟩
    obtain ⟨hnr, hnw⟩ := hkw _ hlist
    obtain ⟨m, hm, hs⟩ := h.sorted _ hlist
    rw [← hp.value] at hs
    rw [← hp.others _ hnw] at hm
    obtain ⟨l', w, contents', hrun, hk, hsorted, hval, hw, hw'⟩ :=
      prvAddCurrentTaskToDelayedList_eq (s := { s with lists := l }) hp.holds hready n
        (hnr _).symm hm hs b hb
    change l'.xItemValue (.xStateListItem s.pxCurrentTCB) = s.xTickCount + n at hval
    rw [h.current] at hval
    refine ⟨_, contents', hrun, hk.refines h hcur hidle hpend hp ⟨nofun, nofun⟩ ?_
      (fun _ => hsorted) ?_ hw ?_, hk.blocks h hp hnr nofun⟩
    · change some (if (a.now + n.toNat) / 2 ^ 32 = a.now / 2 ^ 32 then s.pxDelayedTaskList
        else s.pxOverflowDelayedTaskList) =
          some (if s.xTickCount + n < s.xTickCount then s.pxOverflowDelayedTaskList
            else s.pxDelayedTaskList)
      by_cases he : (a.now + n.toNat) / 2 ^ 32 = a.now / 2 ^ 32
      · rw [if_pos he, if_neg (hwrap.not.2 (not_not.2 he))]
      · rw [if_neg he, if_pos (hwrap.2 he)]
    · rintro due he
      obtain rfl := TaskState.delayed.inj he
      exact ⟨by omega, by omega, hval.trans htick⟩
    · rintro due he hd
      obtain rfl := TaskState.delayed.inj he
      rw [hval]
      exact hw' (hwrap.not.2 (not_not.2 hd))

theorem prvAddCurrentTaskToDelayedList_refines (h : Refines T s a contents (a.now + 1))
    (hcur : a.state a.current = .ready) (hidle : a.current ≠ T.xIdleTaskHandle) (n : UInt32)
    (hn : n ≠ 0) :
    ∃ s' contents', s.prvAddCurrentTaskToDelayedList n false = some s' ∧
      Refines T s' (a.sleep n.toNat) contents' (a.now + 1) ∧
      Blocks T s s' a (a.sleep n.toNat) contents contents' := by
  have hfree := h.event_of_ready hcur
  have hp : Placed s a s.lists contents contents a.waiting := by
    refine ⟨h.holds, fun _ _ => rfl, ?_, rfl, h.waiting, fun _ _ => rfl⟩
    rw [hfree]
    exact nofun
  have hstate : blockedState a.now n false = .delayed (a.now + n.toNat) :=
    if_neg fun he => nomatch he.2
  have hb := block_refines h hcur hidle (h.pendingReady_of_ready hcur) hp n hn false
  rw [hstate] at hb
  exact hb

/-! ### Events -/

theorem takeWhile_congr {p q : α → Bool} {l : List α} (h : ∀ x ∈ l, p x = q x) :
    l.takeWhile p = l.takeWhile q ∧ l.dropWhile p = l.dropWhile q := by
  induction l with
  | nil => exact ⟨rfl, rfl⟩
  | cons x l ih =>
    obtain ⟨ht, hd⟩ := ih fun y hy => h y (List.mem_cons_of_mem x hy)
    rw [List.takeWhile_cons, List.takeWhile_cons, List.dropWhile_cons, List.dropWhile_cons,
      h x List.mem_cons_self, ht, hd]
    exact ⟨rfl, rfl⟩

omit [DecidableEq τ] in
/-- The values of the event items are in the order opposite to that of the priorities. -/
theorem eventValue_le_iff (T : Tasks τ) (t u : τ) :
    UInt32.ofNat (configMAX_PRIORITIES - T.uxPriority t) ≤
      UInt32.ofNat (configMAX_PRIORITIES - T.uxPriority u) ↔ T.uxPriority u ≤ T.uxPriority t := by
  have ht := T.uxPriority_lt t
  have hu := T.uxPriority_lt u
  rw [configMAX_PRIORITIES] at *
  rw [UInt32.le_iff_toNat_le, UInt32.toNat_ofNat', UInt32.toNat_ofNat']
  omega

omit [DecidableEq τ] in
theorem Refines.present_of_waiting (h : Refines T s a contents lo) (ht : t ∈ a.waiting n) :
    s.lists.pxContainer (.xEventListItem t) = some (.xTasksWaiting n) ∧ a.state t ≠ .ready ∧
      a.state t ≠ .absent := by
  have hc : s.lists.pxContainer (.xEventListItem t) = some (.xTasksWaiting n) := by
    rw [h.holds.container, h.waiting]
    exact List.mem_map_of_mem ht
  exact ⟨hc, h.blocked t (by rw [hc]; exact nofun)⟩

theorem Placed.of_place (h : Refines T s a contents lo) {n : Nat}
    (hh : (s.lists.place (.xTasksWaiting n) p (.xEventListItem a.current) q).Holds
      (Function.update contents (.xTasksWaiting n) ⟨[], ws.map .xEventListItem⟩)) :
    Placed s a (s.lists.place (.xTasksWaiting n) p (.xEventListItem a.current) q) contents
      (Function.update contents (.xTasksWaiting n) ⟨[], ws.map .xEventListItem⟩)
      (Function.update a.waiting n ws) := by
  refine ⟨hh, fun x hx => ?_, fun k hk => ?_, rfl, fun m => ?_, fun k hk => ?_⟩
  · rw [Lists.place_container, if_neg hx]
  · rw [Lists.place_container, if_pos rfl] at hk
    exact ⟨n, (Option.some.inj hk).symm⟩
  · by_cases hm : m = n
    · subst hm
      rw [Function.update_self, Function.update_self]
    · rw [Function.update_of_ne hm, Function.update_of_ne, h.waiting]
      exact fun he => hm (KernelList.xTasksWaiting.inj he)
  · exact Function.update_of_ne (hk n) ..

/-- The time limit that a number of ticks stands for. -/
def timeLimit (n : UInt32) : Option Nat := if n = portMAX_DELAY then none else some n.toNat

theorem blockedState_true (now : Nat) (n : UInt32) :
    blockedState now n true = (timeLimit n).elim .suspended fun n => .delayed (now + n) := by
  rw [blockedState, timeLimit]
  by_cases hn : n = portMAX_DELAY
  · rw [if_pos ⟨hn, rfl⟩, if_pos hn]
    rfl
  · rw [if_neg fun he => hn he.1, if_neg hn]
    rfl

theorem vTaskPlaceOnEventList_refines (h : Refines T s a contents (a.now + 1))
    (hcur : a.state a.current = .ready) (hidle : a.current ≠ T.xIdleTaskHandle) (event : Nat)
    (n : UInt32) (hn : n ≠ 0) :
    ∃ s' contents', s.vTaskPlaceOnEventList event n = some s' ∧
      Refines T s' (a.await T event (timeLimit n)) contents' (a.now + 1) ∧
      Blocks T s s' a (a.await T event (timeLimit n)) contents contents' := by
  have hfree := h.event_of_ready hcur
  obtain ⟨p, q, hins, hh⟩ := h.holds.insert hfree (h.waiting event)
  have hcmp : ∀ t ∈ a.waiting event, decide (s.lists.xItemValue (.xEventListItem t) ≤
      s.lists.xItemValue (.xEventListItem a.current)) =
        decide (T.uxPriority a.current ≤ T.uxPriority t) := by
    intro t ht
    rw [h.eventValue t (h.present_of_waiting ht).2.2, h.eventValue _ (by rw [hcur]; exact nofun),
      decide_eq_decide]
    exact eventValue_le_iff T t a.current
  obtain ⟨htake, hdrop⟩ := takeWhile_congr hcmp
  rw [List.takeWhile_map, List.dropWhile_map] at hh
  have hh' : (s.lists.place (.xTasksWaiting event) p (.xEventListItem a.current) q).Holds
      (Function.update contents (.xTasksWaiting event) ⟨[],
        ((a.waiting event).takeWhile (T.uxPriority a.current ≤ T.uxPriority ·) ++ a.current ::
          (a.waiting event).dropWhile (T.uxPriority a.current ≤ T.uxPriority ·)).map
            TaskItem.xEventListItem⟩) := by
    rw [List.map_append, List.map_cons, ← htake, ← hdrop]
    exact hh
  obtain ⟨s', contents', hrun, href, hblocks⟩ := block_refines h hcur hidle
    (h.pendingReady_of_ready hcur) (.of_place h hh') n hn true
  rw [blockedState_true] at href hblocks
  refine ⟨s', contents', ?_, href, hblocks⟩
  rw [vTaskPlaceOnEventList, h.current, hins, ← hrun, h.current]
  rfl

theorem vTaskPlaceOnEventListRestricted_refines (h : Refines T s a contents (a.now + 1))
    (hcur : a.state a.current = .ready) (hidle : a.current ≠ T.xIdleTaskHandle) (event : Nat)
    (n : UInt32) (b : Bool) (hn : b = true ∨ n ≠ 0) :
    ∃ s' contents', s.vTaskPlaceOnEventListRestricted event n b = some s' ∧
      Refines T s' (a.awaitLast event (if b then none else some n.toNat)) contents' (a.now + 1) ∧
      Blocks T s s' a (a.awaitLast event (if b then none else some n.toNat))
        contents contents' := by
  have hfree := h.event_of_ready hcur
  obtain ⟨p, q, hins, hh⟩ := h.holds.insertEnd hfree (.xTasksWaiting event)
  have hh' : (s.lists.place (.xTasksWaiting event) p (.xEventListItem a.current) q).Holds
      (Function.update contents (.xTasksWaiting event) ⟨[],
        (a.waiting event ++ [a.current]).map TaskItem.xEventListItem⟩) := by
    rw [h.waiting] at hh
    rw [List.map_append]
    exact hh
  have hne : (if b then portMAX_DELAY else n) ≠ 0 := by
    cases b with
    | false => exact hn.resolve_left nofun
    | true => exact nofun
  have hstate : blockedState a.now (if b then portMAX_DELAY else n) b =
      (if b then none else some n.toNat).elim .suspended fun n => .delayed (a.now + n) := by
    cases b with
    | false => exact if_neg fun he => nomatch he.2
    | true => exact if_pos ⟨rfl, rfl⟩
  obtain ⟨s', contents', hrun, href, hblocks⟩ := block_refines h hcur hidle
    (h.pendingReady_of_ready hcur) (.of_place h hh') _ hne b
  rw [hstate] at href hblocks
  refine ⟨s', contents', ?_, href, hblocks⟩
  rw [vTaskPlaceOnEventListRestricted, h.current, hins, ← hrun, h.current]

theorem Refines.makePending {event : Nat} (h : Refines T s a contents lo)
    (hw : a.waiting event = t :: rest)
    (hh : ((s.lists.displace (.xTasksWaiting event) (.xEventListItem t)).place .xPendingReadyList p
      (.xEventListItem t) q).Holds contents')
    (hc : ∀ k, k ≠ .xPendingReadyList → contents' k = (contents k).remove (.xEventListItem t)) :
    Refines T { s with lists := (s.lists.displace (.xTasksWaiting event)
        (.xEventListItem t)).place .xPendingReadyList p (.xEventListItem t) q }
      { a with
        waiting := Function.update a.waiting event rest
        pendingReady := Function.update a.pendingReady t true } contents' lo := by
  obtain ⟨hcont, hblocked⟩ := h.present_of_waiting (t := t) (n := event)
    (by rw [hw]; exact List.mem_cons_self)
  let l := (s.lists.displace (.xTasksWaiting event) (.xEventListItem t)).place .xPendingReadyList p
    (.xEventListItem t) q
  have hself : l.pxContainer (.xEventListItem t) = some .xPendingReadyList := by
    rw [Lists.place_container, if_pos rfl]
  have hother (x) (hx : x ≠ .xEventListItem t) : l.pxContainer x = s.lists.pxContainer x := by
    rw [Lists.place_container, if_neg hx, Lists.displace_container, if_neg hx]
  have hevent (u) (hu : u ≠ t) : l.pxContainer (.xEventListItem u) =
      s.lists.pxContainer (.xEventListItem u) :=
    hother _ fun he => hu (TaskItem.xEventListItem.inj he)
  have hout (k) (hk : k ≠ .xTasksWaiting event) :
      (contents k).remove (.xEventListItem t) = contents k := by
    rw [Carousel.remove_of_not_mem]
    rw [← h.holds.container, hcont]
    exact fun he => hk (Option.some.inj he).symm
  refine { h with
    holds := hh, state := ?_, event := ?_, pendingReady := ?_, waiting := ?_, sorted := ?_,
    blocked := ?_ }
  · exact fun u => (hother (.xStateListItem u) nofun).trans (h.state u)
  · intro u k hk
    by_cases hu : u = t
    · subst hu
      exact .inl (Option.some.inj (hself.symm.trans hk)).symm
    · exact h.event u k ((hevent u hu).symm.trans hk)
  · intro u
    by_cases hu : u = t
    · subst hu
      change Function.update a.pendingReady u true u = true ↔ l.pxContainer _ = _
      rw [Function.update_self, hself]
      exact ⟨fun _ => rfl, fun _ => rfl⟩
    · change Function.update a.pendingReady t true u = true ↔ l.pxContainer _ = _
      rw [Function.update_of_ne hu, hevent u hu]
      exact h.pendingReady u
  · intro n
    rw [hc (.xTasksWaiting n) nofun]
    change _ = Carousel.mk [] ((Function.update a.waiting event rest n).map TaskItem.xEventListItem)
    by_cases hn : n = event
    · subst hn
      rw [Function.update_self, h.waiting, hw, List.map_cons]
      exact congrArg (Carousel.mk []) (List.erase_cons_head ..)
    · rw [Function.update_of_ne hn, hout _ fun he => hn (KernelList.xTasksWaiting.inj he),
        h.waiting]
  · intro k hk
    have hne : k ≠ .xPendingReadyList ∧ k ≠ .xTasksWaiting event := by
      rcases h.delayedLists with ⟨h₁, h₂⟩ | ⟨h₁, h₂⟩ <;> rw [h₁, h₂] at hk <;>
        rcases hk with rfl | rfl <;> exact ⟨nofun, nofun⟩
    rw [hc k hne.1, hout k hne.2]
    exact h.sorted k hk
  · intro u hu
    by_cases hut : u = t
    · subst hut
      exact hblocked
    · exact h.blocked u fun he => hu ((hevent u hut).trans he)

theorem xTaskRemoveFromEventList_refines (h : Refines T s a contents lo)
    (hw : a.waiting event = t :: rest) :
    ∃ b s' contents', s.xTaskRemoveFromEventList T event = some (b, s') ∧
      Refines T s' (a.notify event t rest) contents' lo ∧
      Wakes T s s' a (a.notify event t rest) contents contents' false false := by
  obtain ⟨hcont, hblocked⟩ := h.present_of_waiting (t := t) (n := event)
    (by rw [hw]; exact List.mem_cons_self)
  have hhead : s.lists.listGET_OWNER_OF_HEAD_ENTRY (.xTasksWaiting event) =
      some (.xEventListItem t) := by
    rw [h.holds.head, h.waiting, hw]
    rfl
  obtain ⟨k, hk⟩ : ∃ k, s.lists.pxContainer (.xStateListItem t) = some k := by
    rw [h.state]
    cases hs : a.state t with
    | delayed due => exact ⟨_, rfl⟩
    | absent => exact absurd hs hblocked.2
    | ready => exact absurd hs hblocked.1
    | suspended => exact ⟨_, rfl⟩
  have hrem := uxListRemove_eq h.holds hcont
  -- the end of the call for the kernel that it starts from
  have hend {a₁ : Timeline τ} {contents₁} (s₁ : Kernel τ) (hcur : s₁.pxCurrentTCB = a.current)
      (href : Refines T s₁ a₁ contents₁ lo) (hwakes : ∀ s' : Kernel τ,
        (T.uxPriority a.current < T.uxPriority t ∨ s₁.xYieldPending = true ∨
          s₁.portNVIC_PENDSVSET_BIT = true →
            s'.xYieldPending = true ∨ s'.portNVIC_PENDSVSET_BIT = true) →
        Wakes T s s' a a₁ contents contents₁ false false) :
      ∃ b s', (if T.uxPriority t > T.uxPriority s₁.pxCurrentTCB then
          some (true, { s₁ with xYieldPending := true }) else some (false, s₁)) = some (b, s') ∧
        Refines T s' a₁ contents₁ lo ∧ Wakes T s s' a a₁ contents contents₁ false false := by
    by_cases hgt : T.uxPriority t > T.uxPriority s₁.pxCurrentTCB
    · rw [if_pos hgt]
      refine ⟨true, { s₁ with xYieldPending := true }, rfl, ?_, hwakes _ fun _ => .inl rfl⟩
      exact href.withYield true s₁.portNVIC_PENDSVSET_BIT
    · rw [if_neg hgt]
      rw [hcur] at hgt
      exact ⟨_, _, rfl, href, hwakes _ fun hreq => hreq.resolve_left hgt⟩
  rw [Timeline.notify]
  by_cases hn : a.nesting = 0
  · have hr := readied_of_removed (T := T) h.holds hk hcont
    have hc : (s.lists.displace (.xTasksWaiting event) (.xEventListItem t)).pxContainer
        (.xStateListItem t) = some k := by
      rw [Lists.displace_container, if_neg (TaskItem.state_ne_event _ _), hk]
    have hrem' := uxListRemove_eq
      (s := { s with lists := s.lists.displace (.xTasksWaiting event) (.xEventListItem t) })
      (h.holds.without hcont) hc
    have hready := h.ready hblocked.2 hr
    rw [if_pos hn]
    obtain ⟨b, s', hs', href, hwakes⟩ := hend (s.added T t _) h.current hready fun s' hreq =>
      h.ready_wakes hblocked.1 fun hor =>
        .inr (hreq (hor.imp_right fun ho => ho.resolve_left Bool.false_ne_true))
    refine ⟨b, s', _, ?_, href, hwakes⟩
    rw [xTaskRemoveFromEventList, hhead, ← hs']
    simp only [Option.bind_eq_bind, Option.bind_some, TaskItem.pvOwner, hrem, hrem',
      if_pos (h.nesting.trans hn), prvAddTaskToReadyList_eq]
    rfl
  · have hfree : (s.lists.displace (.xTasksWaiting event) (.xEventListItem t)).pxContainer
        (.xEventListItem t) = none := by
      rw [Lists.displace_container, if_pos rfl]
    obtain ⟨p, q, heq, hh⟩ := (h.holds.without hcont).insertEnd hfree .xPendingReadyList
    have href := h.makePending hw hh fun k hk' => Function.update_of_ne hk' ..
    rw [if_neg hn]
    have hturns (x) : KeepsTurn contents (Function.update
        (Lists.without contents (.xEventListItem t)) .xPendingReadyList
        ((Lists.without contents (.xEventListItem t) .xPendingReadyList).insert
          (.xEventListItem t))) x := by
      intro p hx
      rw [Function.update_of_ne (KernelList.ready_ne_pending p), Lists.without,
        Carousel.remove_of_not_mem]
      · exact ⟨hx, fun y => Nat.le_refl _⟩
      · rw [← h.holds.container, hcont]
        exact fun he => KernelList.waiting_ne_ready event p (Option.some.inj he)
    let l := s.lists.displace (.xTasksWaiting event) (.xEventListItem t)
    let s₂ := { s with lists := l.place .xPendingReadyList p (.xEventListItem t) q }
    obtain ⟨b, s', hs', href, hwakes⟩ := hend s₂ h.current href fun s' hreq =>
      ⟨hturns, fun hpre u hu => (hpre u hu).imp_right fun ho =>
        .inr (hreq (.inr (ho.resolve_left Bool.false_ne_true)))⟩
    refine ⟨b, s', _, ?_, href, hwakes⟩
    rw [xTaskRemoveFromEventList, hhead, ← hs']
    simp only [Option.bind_eq_bind, Option.bind_some, TaskItem.pvOwner, hrem, heq,
      if_neg fun he => hn (h.nesting.symm.trans he)]
    rfl

end Kernel

end RobotCar

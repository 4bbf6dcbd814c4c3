import RobotCar.KernelRuns

namespace RobotCar
open Transition
set_option autoImplicit true

namespace Timeline

variable {τ : Type} {T : Tasks τ} {a a' : Timeline τ} {c : KernelCall τ}

/-- A task sleeps when it waits for a time and for no event. -/
structure Asleep (a : Timeline τ) (t : τ) (due : Nat) : Prop where
  state : a.state t = .delayed due
  waiting : ∀ n, t ∉ a.waiting n
  pendingReady : a.pendingReady t = false

theorem Asleep.wake (h : Asleep a t due) (hW : W t = false) : Asleep (a.wake W) t due := by
  refine ⟨?_, fun n hm => h.waiting n (List.mem_of_mem_filter hm), ?_⟩
  · change (if W t then _ else a.state t) = _
    rw [hW]
    exact h.state
  · change (a.pendingReady t && !W t) = false
    rw [h.pendingReady, Bool.false_and]

theorem tick_of_delayed (ht : a.state t = .delayed due) :
    a.tick.state t = if a.nesting = 0 ∧ due ≤ a.now + 1 then .ready else .delayed due := by
  rw [tick]
  by_cases hn : a.nesting = 0
  · rw [if_pos hn]
    by_cases hdue : due ≤ a.now + 1
    · have hd : isDue { a with now := a.now + 1 } t = true := isDue_iff.2 ⟨due, ht, hdue⟩
      rw [if_pos ⟨hn, hdue⟩]
      exact if_pos hd
    · have hd : ¬isDue { a with now := a.now + 1 } t = true := by
        rw [isDue_iff]
        rintro ⟨due', ht', hle⟩
        obtain rfl := TaskState.delayed.inj (ht.symm.trans ht')
        exact hdue hle
      rw [if_neg fun he => hdue he.2]
      exact (if_neg hd).trans ht
  · rw [if_neg hn, if_neg fun he => hn he.1]
    exact ht

theorem tick_of_ready (ht : a.state t = .ready) : a.tick.state t = .ready := by
  rw [tick]
  split
  · refine (if_neg ?_).trans ht
    rw [isDue_iff]
    rintro ⟨due, ht', -⟩
    cases ht.symm.trans ht'
  · exact ht

theorem ticks_of_ready (n : Nat) (ht : a.state t = .ready) : (tick^[n] a).state t = .ready := by
  induction n generalizing a with
  | zero => exact ht
  | succ n ih =>
    rw [Function.iterate_succ_apply]
    exact ih (tick_of_ready ht)

theorem Asleep.tick (h : Asleep a t due) (hlt : a.tick.now < due) : Asleep a.tick t due := by
  rw [Timeline.tick] at hlt ⊢
  split
  · rename_i hn
    rw [if_pos hn] at hlt
    have h' : Asleep { a with now := a.now + 1 } t due := ⟨h.state, h.waiting, h.pendingReady⟩
    refine h'.wake ?_
    rw [Bool.eq_false_iff, ne_eq, isDue_iff]
    rintro ⟨due', ht', hle⟩
    obtain rfl := TaskState.delayed.inj (h.state.symm.trans ht')
    exact absurd hle (Nat.not_le.2 hlt)
  · exact ⟨h.state, h.waiting, h.pendingReady⟩

theorem Asleep.ticks (n : Nat) (hn : a.nesting = 0) (h : Asleep a t due) (hlt : a.now + n < due) :
    Asleep (Timeline.tick^[n] a) t due := by
  induction n generalizing a with
  | zero => exact h
  | succ n ih =>
    have hnow : a.tick.now = a.now + 1 := by
      rw [Timeline.tick, if_pos hn]
      rfl
    have hsetup : a.tick.nesting = a.nesting := congrArg (·.1) a.tick_setup
    rw [Function.iterate_succ_apply]
    refine ih (hsetup.trans hn) (h.tick ?_) ?_ <;> omega

theorem ticks_of_delayed (n : Nat) (hn : a.nesting = 0) (ht : a.state t = .delayed due)
    (hlt : a.now < due) :
    (tick^[n] a).state t = if due ≤ a.now + n then .ready else .delayed due := by
  induction n generalizing a with
  | zero =>
    rw [if_neg (by omega)]
    exact ht
  | succ n ih =>
    have hnow : a.tick.now = a.now + 1 := by
      rw [tick, if_pos hn]
      rfl
    have hsetup : a.tick.nesting = a.nesting := congrArg (·.1) a.tick_setup
    have htick := tick_of_delayed ht
    rw [Function.iterate_succ_apply]
    by_cases hdue : due ≤ a.now + 1
    · rw [if_pos ⟨hn, hdue⟩] at htick
      rw [if_pos (by omega)]
      exact ticks_of_ready n htick
    · rw [if_neg fun he => hdue he.2] at htick
      rw [ih (hsetup.trans hn) htick (by omega), hnow, Nat.add_assoc, Nat.add_comm 1 n]

theorem resume_of_delayed (hn : a.nesting = 0) (ht : a.state t = .delayed due) (hlt : a.now < due) :
    a.resume.state t = .ready ∨ a.resume.state t = .delayed due ∧ a.resume.now < due := by
  have hnow : a.resume.now = a.now + a.pended :=
    (ticks_clock (a := a.wake a.pendingReady) a.pended hn).1
  have hw : (a.wake a.pendingReady).state t =
      if a.pendingReady t then .ready else .delayed due := by
    rw [← ht]
    rfl
  rw [hnow]
  change (tick^[a.pended] (a.wake a.pendingReady)).state t = .ready ∨
    (tick^[a.pended] (a.wake a.pendingReady)).state t = _ ∧ _
  cases hp : a.pendingReady t with
  | true =>
    rw [hp, if_pos rfl] at hw
    exact .inl (ticks_of_ready _ hw)
  | false =>
    rw [hp, if_neg Bool.false_ne_true] at hw
    rw [ticks_of_delayed (a := a.wake a.pendingReady) a.pended hn hw hlt]
    change (if due ≤ a.now + a.pended then _ else _) = _ ∨
      (if due ≤ a.now + a.pended then _ else _) = _ ∧ _
    by_cases hdue : due ≤ a.now + a.pended
    · exact .inl (if_pos hdue)
    · exact .inr ⟨if_neg hdue, Nat.lt_of_not_le hdue⟩

variable [DecidableEq τ]

/-- A task that is delayed can only become ready, and does so when it is due. -/
theorem Step.delayed (h : Step T a c a') (ht : a.state t = .delayed due) (hlt : a.now < due) :
    a'.state t = .ready ∨ a'.state t = .delayed due ∧ a'.now < due := by
  have hother (hcur : a.state a.current = .ready) : t ≠ a.current := by
    rintro rfl
    exact nomatch hcur.symm.trans ht
  cases h with
  | @create u hu =>
    have hne : t ≠ u := by
      rintro rfl
      exact nomatch hu.symm.trans ht
    refine .inr ⟨?_, hlt⟩
    simp only [Timeline.create, wake, beq_false_of_ne hne, Bool.false_eq_true, if_false]
    exact ht
  | tick =>
    have htick := tick_of_delayed ht
    by_cases hn : a.nesting = 0
    · have hnow : a.tick.now = a.now + 1 := by
        rw [Timeline.tick, if_pos hn]
        rfl
      by_cases hdue : due ≤ a.now + 1
      · exact .inl (htick.trans (if_pos ⟨hn, hdue⟩))
      · exact .inr ⟨htick.trans (if_neg fun he => hdue he.2), by omega⟩
    · have hnow : a.tick.now = a.now := by rw [Timeline.tick, if_neg hn]
      exact .inr ⟨htick.trans (if_neg fun he => hn he.1), by omega⟩
  | resume =>
    rw [Timeline.resumeAll]
    split
    · exact resume_of_delayed (a := { a with nesting := 0 }) rfl ht hlt
    · exact .inr ⟨ht, hlt⟩
  | sleep hcur => exact .inr ⟨(Function.update_of_ne (hother hcur) ..).trans ht, hlt⟩
  | await hcur => exact .inr ⟨(Function.update_of_ne (hother hcur) ..).trans ht, hlt⟩
  | awaitLast hcur => exact .inr ⟨(Function.update_of_ne (hother hcur) ..).trans ht, hlt⟩
  | @notify event u rest hw =>
    rw [Timeline.notify]
    split
    · by_cases hu : t = u
      · refine .inl ?_
        simp only [wake, hu, beq_self_eq_true, if_true]
      · refine .inr ⟨?_, hlt⟩
        simp only [wake, beq_false_of_ne hu, Bool.false_eq_true, if_false]
        exact ht
    · exact .inr ⟨ht, hlt⟩
  | _ => exact .inr ⟨ht, hlt⟩

theorem Step.asleep (h : Step T a c a') (ha : Asleep a t due) (hlt : a'.now < due) :
    Asleep a' t due := by
  have hother (hcur : a.state a.current = .ready) : t ≠ a.current := by
    rintro rfl
    exact nomatch hcur.symm.trans ha.state
  cases h with
  | @create u hu =>
    have hne : t ≠ u := by
      rintro rfl
      exact nomatch hu.symm.trans ha.state
    have hw := ha.wake (W := (· == u)) (beq_false_of_ne hne)
    exact ⟨hw.state, hw.waiting, hw.pendingReady⟩
  | tick => exact ha.tick hlt
  | resume =>
    rw [Timeline.resumeAll] at hlt ⊢
    split
    · rename_i hn
      rw [if_pos hn] at hlt
      have hw : Asleep ({ a with nesting := 0 }.wake a.pendingReady) t due :=
        Asleep.wake ⟨ha.state, ha.waiting, ha.pendingReady⟩ ha.pendingReady
      have hclock := (ticks_clock (a := { a with nesting := 0 }.wake a.pendingReady) a.pended rfl).1
      have ht := hw.ticks a.pended rfl (hclock.symm.trans_lt hlt)
      exact ⟨ht.state, ht.waiting, ht.pendingReady⟩
    · exact ⟨ha.state, ha.waiting, ha.pendingReady⟩
  | sleep hcur =>
    exact ⟨(Function.update_of_ne (hother hcur) ..).trans ha.state, ha.waiting, ha.pendingReady⟩
  | @await event n hcur =>
    refine ⟨(Function.update_of_ne (hother hcur) ..).trans ha.state, fun m hm => ?_,
      ha.pendingReady⟩
    change t ∈ Function.update a.waiting event _ m at hm
    by_cases hme : m = event
    · subst hme
      rw [Function.update_self] at hm
      rcases List.mem_append.1 hm with hm | hm
      · exact ha.waiting _ (List.takeWhile_subset _ hm)
      · exact ha.waiting _ (List.dropWhile_subset _
          ((List.mem_cons.1 hm).resolve_left (hother hcur)))
    · rw [Function.update_of_ne hme] at hm
      exact ha.waiting m hm
  | @awaitLast event n b hcur =>
    refine ⟨(Function.update_of_ne (hother hcur) ..).trans ha.state, fun m hm => ?_,
      ha.pendingReady⟩
    change t ∈ Function.update a.waiting event _ m at hm
    by_cases hme : m = event
    · subst hme
      rw [Function.update_self] at hm
      rcases List.mem_append.1 hm with hm | hm
      · exact ha.waiting _ hm
      · exact hother hcur (List.mem_singleton.1 hm)
    · rw [Function.update_of_ne hme] at hm
      exact ha.waiting m hm
  | @notify event u rest hw =>
    have hne : t ≠ u := by
      rintro rfl
      refine ha.waiting event ?_
      rw [hw]
      exact List.mem_cons_self
    rw [Timeline.notify]
    split
    · exact ha.wake (beq_false_of_ne hne)
    · refine ⟨ha.state, fun m hm => ?_, ?_⟩
      · change t ∈ Function.update a.waiting event rest m at hm
        by_cases hme : m = event
        · subst hme
          rw [Function.update_self] at hm
          refine ha.waiting m ?_
          rw [hw]
          exact List.mem_cons_of_mem _ hm
        · rw [Function.update_of_ne hme] at hm
          exact ha.waiting m hm
      · exact (Function.update_of_ne hne ..).trans ha.pendingReady
  | _ => exact ⟨ha.state, ha.waiting, ha.pendingReady⟩

end Timeline

namespace System

variable {τ : Type} [DecidableEq τ] {p p' : System τ} {a a' : Timeline τ}

theorem Follows.asleep (h : Follows p a cs p' a') (ha : a.Asleep t due) (hlt : a'.now < due) :
    a'.Asleep t due := by
  induction h with
  | nil => exact ha
  | cons _ hs hf ih => exact ih (hs.asleep ha (hf.now_le.trans_lt hlt)) hlt

def IsDelayed (p : System τ) (t : τ) : Prop :=
  p.kernel.lists.pxContainer (.xStateListItem t) = some p.kernel.pxDelayedTaskList ∨
    p.kernel.lists.pxContainer (.xStateListItem t) = some p.kernel.pxOverflowDelayedTaskList

omit [DecidableEq τ] in
theorem Agrees.isDelayed (h : p.Agrees a) (ht : a.state t = .delayed due) : p.IsDelayed t := by
  obtain ⟨-, contents, href⟩ := h
  rw [IsDelayed, href.state, ht, Kernel.home]
  split
  · exact .inl rfl
  · exact .inr rfl

omit [DecidableEq τ] in
theorem Agrees.isReady_iff (h : p.Agrees a) : p.IsReady t ↔ a.state t = .ready := by
  obtain ⟨-, contents, href⟩ := h
  exact href.ready_iff

omit [DecidableEq τ] in
theorem Agrees.now_lt (h : p.Agrees a) (ht : a.state t = .delayed due) : a.now < due := by
  obtain ⟨-, contents, href⟩ := h
  exact (href.due t due ht).1

theorem Agrees.sleep (h : p.Agrees a) (hl : p.Legal (.prvAddCurrentTaskToDelayedList n))
    (hc : p.call (.prvAddCurrentTaskToDelayedList n) = some p') :
    ∃ a', p'.Agrees a' ∧ a'.now = a.now ∧ a'.Asleep p.kernel.pxCurrentTCB (a.now + n.toNat) ∧
      Timeline.Step p.tasks a (.prvAddCurrentTaskToDelayedList n) a' := by
  obtain ⟨a', hstep, ha'⟩ := h.call hl hc
  obtain ⟨-, contents, href⟩ := h
  cases hstep with
  | sleep hcur =>
    refine ⟨_, ha', rfl, ?_, .sleep hcur⟩
    rw [href.current]
    refine ⟨Function.update_self .., fun m hm => ?_, href.pendingReady_of_ready hcur⟩
    exact (href.present_of_waiting hm).2.1 hcur

/-- A task is delayed for exactly as many ticks as it asks for, whatever else happens meanwhile: it
is blocked until then, and the step that processes the last one of them makes it ready. -/
theorem delayed_exactly (h : p.Reachable)
    (hm : AllMeet call Legal p (.prvAddCurrentTaskToDelayedList n :: cs))
    (hr : (KernelCall.prvAddCurrentTaskToDelayedList n :: cs).foldlM call p = some p')
    (hlt : p.processed (.prvAddCurrentTaskToDelayedList n :: cs) p' < n.toNat) :
    p'.IsDelayed p.kernel.pxCurrentTCB ∧
      ∀ c p'', p'.Legal c → p'.call c = some p'' →
        n.toNat ≤ p.processed (.prvAddCurrentTaskToDelayedList n :: (cs ++ [c])) p'' →
        p''.IsReady p.kernel.pxCurrentTCB := by
  obtain ⟨a, ha⟩ := h.agrees
  rw [List.foldlM_cons] at hr
  obtain ⟨p₁, hc, hr⟩ := Option.bind_eq_some_iff.1 hr
  obtain ⟨a₁, ha₁, hnow₁, hasleep, hstep⟩ := ha.sleep hm.1 hc
  obtain ⟨a', hf, ha'⟩ := ha₁.run (hm.2 p₁ hc) hr
  have hnow := (Follows.cons hc hstep hf).now ha ha'
  have hasleep' := hf.asleep hasleep (by omega)
  refine ⟨ha'.isDelayed hasleep'.state, fun c p'' hl hc' hle => ?_⟩
  obtain ⟨a'', hstep', ha''⟩ := ha'.call hl hc'
  have hnow' := (Follows.cons hc hstep (hf.snoc hc' hstep')).now ha ha''
  rw [ha''.isReady_iff]
  refine (hstep'.delayed hasleep'.state (ha'.now_lt hasleep'.state)).resolve_right fun hlate => ?_
  omega

theorem sleepingRun_four : ((sleepingRun.take 4).foldlM call (reset carTasks)).isSome = true := by
  decide

/-- The default task while the scheduler is suspended, before it is delayed. -/
def beforeDelay : System CarTask :=
  ((sleepingRun.take 4).foldlM call (reset carTasks)).get sleepingRun_four

theorem beforeDelay_reachable : beforeDelay.Reachable :=
  ⟨carTasks, sleepingRun.take 4, by decide, (Option.some_get _).symm⟩

theorem sleepingRun_nine :
    (((sleepingRun.drop 4).take 5).foldlM call beforeDelay).isSome = true := by
  decide

/-- One tick later it is still delayed, and after the next one it is ready. -/
def afterOneTick : System CarTask :=
  (((sleepingRun.drop 4).take 5).foldlM call beforeDelay).get sleepingRun_nine

theorem delayed_exactly_two : afterOneTick.IsDelayed .defaultTask ∧
    ∀ c p'', afterOneTick.Legal c → afterOneTick.call c = some p'' →
      2 ≤ beforeDelay.processed (.prvAddCurrentTaskToDelayedList 2 ::
        ((sleepingRun.drop 5).take 4 ++ [c])) p'' → p''.IsReady .defaultTask :=
  delayed_exactly (n := 2) beforeDelay_reachable (by decide) (Option.some_get _).symm (by decide)

/-- A task that is delayed stays so as long as it does not become ready. -/
theorem Agrees.delayed_run (h : p.Agrees a) (hm : AllMeet System.call Legal p cs)
    (hr : cs.foldlM System.call p = some p') (ht : a.state t = .delayed due)
    (hnever : ∀ k q, (cs.take k).foldlM System.call p = some q → ¬q.IsReady t) :
    ∃ a', Follows p a cs p' a' ∧ p'.Agrees a' ∧ a'.state t = .delayed due := by
  induction cs generalizing p a with
  | nil =>
    obtain rfl := Option.some.inj hr
    exact ⟨a, .nil, h, ht⟩
  | cons c cs ih =>
    rw [List.foldlM_cons] at hr
    obtain ⟨p₁, hc, hr⟩ := Option.bind_eq_some_iff.1 hr
    obtain ⟨a₁, hs, h₁⟩ := h.call hm.1 hc
    have hfirst : ((c :: cs).take 1).foldlM System.call p = some p₁ := by
      rw [List.take_succ_cons, List.take_zero, List.foldlM_cons, hc]
      rfl
    have hnot := hnever 1 p₁ hfirst
    rw [h₁.isReady_iff] at hnot
    have ht₁ := ((hs.delayed ht (h.now_lt ht)).resolve_left hnot).1
    obtain ⟨a', hf, ha', ht'⟩ := ih h₁ (hm.2 p₁ hc) hr ht₁ fun k q hq => hnever (k + 1) q (by
      rw [List.take_succ_cons, List.foldlM_cons, hc]
      exact hq)
    exact ⟨a', .cons hc hs hf, ha', ht'⟩

/-- A task that waits for an event with a time limit becomes ready at the limit at the latest. -/
theorem waits_at_most (h : p.Reachable) (hn : n ≠ portMAX_DELAY)
    (hm : AllMeet call Legal p (.vTaskPlaceOnEventList event n :: cs))
    (hr : (KernelCall.vTaskPlaceOnEventList event n :: cs).foldlM call p = some p')
    (hnever : ∀ k q, ((KernelCall.vTaskPlaceOnEventList event n :: cs).take (k + 1)).foldlM call p =
      some q → ¬q.IsReady p.kernel.pxCurrentTCB) :
    p.processed (.vTaskPlaceOnEventList event n :: cs) p' < n.toNat := by
  obtain ⟨a, ha⟩ := h.agrees
  rw [List.foldlM_cons] at hr
  obtain ⟨p₁, hc, hr⟩ := Option.bind_eq_some_iff.1 hr
  obtain ⟨a₁, hs, ha₁⟩ := ha.call hm.1 hc
  have hstate : a₁.now = a.now ∧
      a₁.state p.kernel.pxCurrentTCB = .delayed (a.now + n.toNat) := by
    obtain ⟨-, contents, href⟩ := ha
    cases hs with
    | await hcur =>
      rw [href.current]
      refine ⟨rfl, (Function.update_self ..).trans ?_⟩
      rw [Kernel.timeLimit, if_neg hn]
      rfl
  obtain ⟨a', hf, ha', ht'⟩ := ha₁.delayed_run (hm.2 p₁ hc) hr hstate.2 fun k q hq => hnever k q (by
    rw [List.take_succ_cons, List.foldlM_cons, hc]
    exact hq)
  have hnow := (Follows.cons hc hs hf).now ha ha'
  have hlt := ha'.now_lt ht'
  omega

def awaitingRun : List (KernelCall CarTask) := [.vTaskPlaceOnEventList 0 2, .xPortSysTickHandler]

theorem awaitingRun_two : (awaitingRun.foldlM call beforeDelay).isSome = true := by decide

def afterAwaiting : System CarTask := (awaitingRun.foldlM call beforeDelay).get awaitingRun_two

theorem waits_at_most_two : beforeDelay.processed awaitingRun afterAwaiting < 2 := by
  have hfirst : ((awaitingRun.take 1).foldlM call beforeDelay).all
      (fun q => ¬q.IsReady beforeDelay.kernel.pxCurrentTCB) = true := by
    decide
  have hlast : (awaitingRun.foldlM call beforeDelay).all
      (fun q => ¬q.IsReady beforeDelay.kernel.pxCurrentTCB) = true := by
    decide
  refine waits_at_most (n := 2) beforeDelay_reachable (by decide) (by decide)
    (Option.some_get awaitingRun_two).symm fun k q hq => ?_
  cases k with
  | zero =>
    rw [awaitingRun, hq] at hfirst
    exact of_decide_eq_true hfirst
  | succ k =>
    rw [List.take_of_length_le (Nat.le_add_left 2 k)] at hq
    rw [awaitingRun, hq] at hlast
    exact of_decide_eq_true hlast

end System

/-! ### Periodic tasks -/

/-- The time increment for `vTaskDelayUntil`, if the target tick has not expired. -/
def osDelayUntil (ticks tcnt : UInt32) : Option UInt32 :=
  let delay := ticks - tcnt
  if delay ≠ 0 ∧ delay >>> 31 = 0 then some delay else none

/-- The time for which the task is blocked, if it should delay. -/
def vTaskDelayUntil (xConstTickCount pxPreviousWakeTime xTimeIncrement : UInt32) : Option UInt32 :=
  let xTimeToWake := pxPreviousWakeTime + xTimeIncrement
  let xShouldDelay :=
    if xConstTickCount < pxPreviousWakeTime then
      xTimeToWake < pxPreviousWakeTime && xTimeToWake > xConstTickCount
    else
      xTimeToWake < pxPreviousWakeTime || xTimeToWake > xConstTickCount
  if xShouldDelay then some (xTimeToWake - xConstTickCount) else none

theorem shiftRight_31_eq_zero_iff (d : UInt32) : d >>> 31 = 0 ↔ d.toNat < 2 ^ 31 := by
  rw [← UInt32.toNat_inj, UInt32.toNat_shiftRight]
  change d.toNat >>> 31 = 0 ↔ _
  rw [Nat.shiftRight_eq_div_pow]
  omega

theorem ofNat_add_sub (a : Nat) (h : e ≤ d) :
    UInt32.ofNat (a + d) - UInt32.ofNat (a + e) = UInt32.ofNat (d - e) := by
  have hsum : a + d = (d - e) + (a + e) := by omega
  rw [hsum, UInt32.ofNat_add (d - e), UInt32.add_sub_cancel]

theorem osDelayUntil_eq (a e P : Nat) (hP : P < 2 ^ 31) (he : e ≤ P + 2 ^ 31) :
    osDelayUntil (UInt32.ofNat a + UInt32.ofNat P) (UInt32.ofNat (a + e)) =
      if e < P then some (UInt32.ofNat (P - e)) else none := by
  rw [osDelayUntil, ← UInt32.ofNat_add]
  by_cases hlt : e < P
  · have hpos : (UInt32.ofNat (P - e)).toNat = P - e :=
      UInt32.toNat_ofNat_of_lt' (Nat.lt_of_le_of_lt (Nat.sub_le ..) (hP.trans (by decide)))
    rw [ofNat_add_sub a (Nat.le_of_lt hlt), if_pos hlt, if_pos]
    refine ⟨fun hz => ?_, (shiftRight_31_eq_zero_iff _).2 (by omega)⟩
    rw [hz] at hpos
    have hzero : (0 : UInt32).toNat = 0 := rfl
    omega
  · have hneg : (UInt32.ofNat (a + P) - UInt32.ofNat (a + e)).toNat =
        (2 ^ 32 - (e - P)) % 2 ^ 32 := by
      rw [UInt32.toNat_sub, UInt32.toNat_ofNat', UInt32.toNat_ofNat']
      omega
    rw [if_neg hlt, if_neg]
    rintro ⟨hne, hshift⟩
    rw [shiftRight_31_eq_zero_iff, hneg] at hshift
    refine hne (UInt32.toNat_inj.1 ?_)
    rw [hneg]
    change _ = 0
    omega

theorem vTaskDelayUntil_eq (b e d : Nat) (hd : d < 2 ^ 31) (he : e < 2 ^ 32) :
    vTaskDelayUntil (UInt32.ofNat (b + e)) (UInt32.ofNat b) (UInt32.ofNat d) =
      if e < d then some (UInt32.ofNat (d - e)) else none := by
  rw [vTaskDelayUntil, ← UInt32.ofNat_add]
  have hiff : (if UInt32.ofNat (b + e) < UInt32.ofNat b then
      decide (UInt32.ofNat (b + d) < UInt32.ofNat b) &&
        decide (UInt32.ofNat (b + d) > UInt32.ofNat (b + e))
    else decide (UInt32.ofNat (b + d) < UInt32.ofNat b) ||
        decide (UInt32.ofNat (b + d) > UInt32.ofNat (b + e))) = true ↔ e < d := by
    simp only [gt_iff_lt, UInt32.lt_iff_toNat_lt, UInt32.toNat_ofNat']
    split
    · rw [Bool.and_eq_true, decide_eq_true_eq, decide_eq_true_eq]
      omega
    · rw [Bool.or_eq_true, decide_eq_true_eq, decide_eq_true_eq]
      omega
  by_cases hlt : e < d
  · rw [if_pos (hiff.2 hlt), if_pos hlt, ofNat_add_sub b (Nat.le_of_lt hlt)]
  · rw [if_neg (hiff.not.2 hlt), if_neg hlt]

namespace System

variable {τ : Type} [DecidableEq τ]

/-- The time for which a task of period `P` is blocked at the end of its loop. It reads the tick
count at the beginning of the loop, in `osDelayUntil` and in `vTaskDelayUntil`. -/
def blockTime (P : Nat) (p₀ p₁ p₂ : System τ) : Option UInt32 := do
  let delay ← osDelayUntil (p₀.kernel.xTickCount + UInt32.ofNat P) p₁.kernel.xTickCount
  vTaskDelayUntil p₂.kernel.xTickCount p₁.kernel.xTickCount delay

omit [DecidableEq τ] in
theorem blockTime_eq {p₀ p₁ p₂ : System τ} (P : Nat) (h₀ : p₀.kernel.xTickCount = UInt32.ofNat a)
    (h₁ : p₁.kernel.xTickCount = UInt32.ofNat (a + e₁))
    (h₂ : p₂.kernel.xTickCount = UInt32.ofNat (a + e₁ + e₂)) (hP : P < 2 ^ 31)
    (he₁ : e₁ ≤ P + 2 ^ 31) (he₂ : e₂ < 2 ^ 32) :
    blockTime P p₀ p₁ p₂ =
      if e₁ + e₂ < P then some (UInt32.ofNat (P - (e₁ + e₂))) else none := by
  rw [blockTime, h₀, h₁, h₂, osDelayUntil_eq a e₁ P hP he₁]
  by_cases hlt : e₁ < P
  · rw [if_pos hlt, Option.bind_eq_bind, Option.bind_some,
      vTaskDelayUntil_eq _ e₂ (P - e₁) (by omega) he₂, Nat.sub_sub]
    by_cases hlt' : e₁ + e₂ < P
    · rw [if_pos hlt', if_pos (by omega)]
    · rw [if_neg hlt', if_neg (by omega)]
  · rw [if_neg hlt, if_neg (by omega)]
    rfl

/-- A periodic task whose work is done in time is ready again exactly one period after the beginning
of its loop. When the work takes longer, the task is not blocked at all. -/
theorem period_exact {p₀ p₁ p₂ : System τ} (h : p₀.Reachable) (hm₁ : AllMeet call Legal p₀ cs₁)
    (hr₁ : cs₁.foldlM call p₀ = some p₁) (hm₂ : AllMeet call Legal p₁ cs₂)
    (hr₂ : cs₂.foldlM call p₁ = some p₂) (hP : P < 2 ^ 31)
    (he₁ : p₀.processed cs₁ p₁ ≤ P + 2 ^ 31) (he₂ : p₁.processed cs₂ p₂ < 2 ^ 32) :
    (P ≤ p₀.processed (cs₁ ++ cs₂) p₂ → blockTime P p₀ p₁ p₂ = none) ∧
      (p₀.processed (cs₁ ++ cs₂) p₂ < P → ∃ n, blockTime P p₀ p₁ p₂ = some n ∧ n ≠ 0 ∧
        ∀ cs p', AllMeet call Legal p₂ (.prvAddCurrentTaskToDelayedList n :: cs) →
          (KernelCall.prvAddCurrentTaskToDelayedList n :: cs).foldlM call p₂ = some p' →
          p₀.processed (cs₁ ++ cs₂ ++ .prvAddCurrentTaskToDelayedList n :: cs) p' < P →
          p'.IsDelayed p₂.kernel.pxCurrentTCB ∧ ∀ c p'', p'.Legal c → p'.call c = some p'' →
            P ≤ p₀.processed (cs₁ ++ cs₂ ++ .prvAddCurrentTaskToDelayedList n :: (cs ++ [c])) p'' →
            p''.IsReady p₂.kernel.pxCurrentTCB) := by
  obtain ⟨a, ha⟩ := h.agrees
  obtain ⟨a₁, hf₁, ha₁⟩ := ha.run hm₁ hr₁
  obtain ⟨a₂, hf₂, ha₂⟩ := ha₁.run hm₂ hr₂
  have hnow₁ := hf₁.now ha ha₁
  have hnow₂ := hf₂.now ha₁ ha₂
  have hblock := blockTime_eq P ha.tickCount (hnow₁ ▸ ha₁.tickCount)
    (hnow₁ ▸ hnow₂ ▸ ha₂.tickCount) hP he₁ he₂
  have hsum : p₀.processed (cs₁ ++ cs₂) p₂ = p₀.processed cs₁ p₁ + p₁.processed cs₂ p₂ := by
    have hnow := (hf₁.append hf₂).now ha ha₂
    omega
  rw [← hsum] at hblock
  refine ⟨fun hle => hblock.trans (if_neg (Nat.not_lt.2 hle)), fun hlt => ?_⟩
  have hpos : (UInt32.ofNat (P - p₀.processed (cs₁ ++ cs₂) p₂)).toNat =
      P - p₀.processed (cs₁ ++ cs₂) p₂ :=
    UInt32.toNat_ofNat_of_lt' (Nat.lt_of_le_of_lt (Nat.sub_le ..) (hP.trans (by decide)))
  refine ⟨_, hblock.trans (if_pos hlt), fun hz => ?_, fun cs p' hm hr hlt' => ?_⟩
  · rw [hz] at hpos
    have hzero : (0 : UInt32).toNat = 0 := rfl
    omega
  · have hsplit := (hf₁.append hf₂).processed_append ha ha₂
    rw [hsplit] at hlt'
    obtain ⟨hdelayed, hready⟩ := delayed_exactly ((h.run hm₁ hr₁).run hm₂ hr₂) hm hr (by
      rw [hpos, processed]
      omega)
    refine ⟨hdelayed, fun c p'' hl hc hle => hready c p'' hl hc ?_⟩
    rw [hsplit] at hle
    rw [hpos]
    simp only [processed] at hle ⊢
    omega

def workingRun : List (KernelCall CarTask) := [.xTaskResumeAll, .xPortSysTickHandler]

theorem workingRun_one : (workingRun.foldlM call beforeDelay).isSome = true := by decide

def afterWork : System CarTask := (workingRun.foldlM call beforeDelay).get workingRun_one

theorem suspendAll_afterWork :
    ([KernelCall.vTaskSuspendAll].foldlM call afterWork).isSome = true := by
  decide

def afterSuspendAll : System CarTask :=
  ([KernelCall.vTaskSuspendAll].foldlM call afterWork).get suspendAll_afterWork

theorem period_exact_ten :
    ∃ n, blockTime 10 beforeDelay afterWork afterSuspendAll = some n ∧ n ≠ 0 :=
  have hexact := (period_exact (P := 10) beforeDelay_reachable (by decide)
    (Option.some_get workingRun_one).symm (by decide) (Option.some_get suspendAll_afterWork).symm
    (by decide) (by decide) (by decide)).2 (by decide)
  hexact.imp fun _ h => ⟨h.1, h.2.1⟩

end System

end RobotCar

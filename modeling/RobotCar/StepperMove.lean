import Mathlib.Algebra.Order.Group.Unbundled.Int
import Mathlib.Order.Interval.Set.UnorderedInterval
import RobotCar.StepperPulses
import RobotCar.StepperWait

namespace RobotCar
open Concurrent
set_option autoImplicit true

/-! ### One interrupt -/

namespace Axis

/-- The divider counts up from 0, and no edge of the limit switch is counted twice. -/
structure Counts (a : Axis) : Prop where
  counter : 0 ≤ a.counter
  clear_count : a.clear_count = 0

theorem drive_current_speed (a : Axis) : a.drive.current_speed = a.current_speed := by
  by_cases h : a.Steps
  · rw [drive_of_steps h, halfstep]
    split <;> rfl
  · obtain ⟨counter, hd⟩ := drive_of_not_steps h
    rw [hd]

theorem drive_counter (a : Axis) :
    a.drive.counter = if a.counter + 1 ≥ a.current_speed then 0 else a.counter + 1 := by
  simp only [drive]
  split
  · rfl
  · rfl

theorem drive_counter_nonneg {a : Axis} (h : 0 ≤ a.counter) : 0 ≤ a.drive.counter := by
  rw [drive_counter]
  split <;> omega

theorem home_counts {a : Axis} (h : a.Counts) (sw : Bool) : (a.home sw).Counts := by
  by_cases hc : a.Clears sw
  · rw [home_of_clears hc]
    exact ⟨h.counter, rfl⟩
  · unfold home
    split
    · dsimp only
      have hone : a.clear_count + 1 ≥ 1 := by
        rw [h.clear_count]
        decide
      rw [if_pos hone]
      split
      · exact ⟨h.counter, rfl⟩
      · exact ⟨h.counter, rfl⟩
    · exact h

theorem stepper_ISR_counts {a : Axis} (h : a.Counts) (sw : Bool) : (a.stepper_ISR sw).Counts :=
  home_counts ⟨drive_counter_nonneg h.counter, (drive_clear_count a).trans h.clear_count⟩ sw

theorem home_of_open {a : Axis} (hcount : a.clear_count = 0)
    (hsw : a.clear_flag = true → sw = true) : a.home sw = { a with clear_flag := false } := by
  obtain ⟨speed, left, total, count, flag, counter, state, DIR, STEP⟩ := a
  obtain rfl : count = 0 := hcount
  cases flag with
  | false => rfl
  | true =>
    obtain rfl : sw = true := hsw rfl
    rfl

theorem stepper_ISR_of_open {a : Axis} (h : a.Counts) (hsw : a.clear_flag = true → sw = true) :
    a.stepper_ISR sw = { a.drive with clear_flag := false } := by
  apply home_of_open ((drive_clear_count a).trans h.clear_count)
  rw [drive_clear_flag]
  exact hsw

/-- A half-step goes towards the target, which is where the total and the rest add up to. -/
theorem drive_total {a : Axis} (h : a.Steps) :
    a.drive.current_halfstep_total = a.current_halfstep_total + a.current_halfstep_left.sign ∧
      a.drive.current_halfstep_left = a.current_halfstep_left - a.current_halfstep_left.sign := by
  rw [drive_of_steps h, halfstep]
  by_cases hpos : a.current_halfstep_left > 0
  · rw [if_pos hpos, Int.sign_eq_one_of_pos hpos]
    exact ⟨rfl, rfl⟩
  · have hneg : a.current_halfstep_left < 0 := by
      have hne := h.2
      omega
    rw [if_neg hpos, Int.sign_eq_neg_one_of_neg hneg]
    exact ⟨rfl, (Int.sub_neg _ _).symm⟩

theorem drive_of_waits {a : Axis} (h : ¬a.Steps) :
    a.drive.current_halfstep_left = a.current_halfstep_left ∧
      a.drive.current_halfstep_total = a.current_halfstep_total ∧
      a.drive.STEP = a.STEP ∧ a.drive.DIR = a.DIR := by
  obtain ⟨counter, hd⟩ := drive_of_not_steps h
  rw [hd]
  exact ⟨rfl, rfl, rfl, rfl⟩

theorem ticksLeft_le {a : Axis} (hc : 0 ≤ a.counter) (hv : 1 ≤ a.current_speed) :
    a.ticksLeft ≤ a.current_halfstep_left.natAbs * a.current_speed.toNat := by
  unfold ticksLeft
  cases a.current_halfstep_left.natAbs with
  | zero => exact Nat.zero_le _
  | succ n =>
    have hperiod : (max 1 a.current_speed).toNat = a.current_speed.toNat := by omega
    have hfirst : (max 1 (a.current_speed - a.counter)).toNat ≤ a.current_speed.toNat := by omega
    dsimp only
    rw [hperiod, Nat.succ_mul, Nat.add_comm]
    exact Nat.add_le_add_left hfirst _

end Axis

/-! ### A move -/

def interrupts (sws : Nat → Bool) (p : Steppers) : Nat → Steppers
  | 0 => p
  | n + 1 => stepper1_ISR (sws n) (interrupts sws p n)

/-- The axis moves at a constant speed, and the next interrupt, which sees the level `sw`, does not
find the limit switch closed after an edge. -/
structure Moving (steps v : Int) (sw : Bool) (a : Axis) : Prop where
  counts : a.Counts
  current_speed : a.current_speed = v
  sum : a.current_halfstep_left + a.current_halfstep_total = -2 * steps
  clear_flag : a.clear_flag = true → sw = true

namespace Moving

theorem eq {a : Axis} (h : Moving steps v sw a) :
    a.stepper_ISR sw = { a.drive with clear_flag := false } :=
  Axis.stepper_ISR_of_open h.counts h.clear_flag

theorem step {a : Axis} (h : Moving steps v sw a) (sw' : Bool) :
    Moving steps v sw' (a.stepper_ISR sw) := by
  have hcounts := Axis.stepper_ISR_counts h.counts sw
  rw [h.eq] at hcounts ⊢
  exact ⟨hcounts, a.drive_current_speed.trans h.current_speed, a.drive_sum.trans h.sum, nofun⟩

theorem interrupts {p : Steppers} {sws : Nat → Bool} (h : Moving steps v (sws 0) p.axis1)
    (n : Nat) : Moving steps v (sws n) (RobotCar.interrupts sws p n).axis1 := by
  induction n with
  | zero => exact h
  | succ n ih => exact ih.step (sws (n + 1))

theorem total_of_steps {a : Axis} (h : Moving steps v sw a) (hs : a.Steps) :
    a.current_halfstep_total ≠ -2 * steps ∧
      (a.stepper_ISR sw).current_halfstep_total =
        a.current_halfstep_total + (-2 * steps - a.current_halfstep_total).sign := by
  have hsum := h.sum
  have hleft := hs.2
  have hrest : -2 * steps - a.current_halfstep_total = a.current_halfstep_left := by omega
  rw [h.eq, hrest]
  exact ⟨by omega, (Axis.drive_total hs).1⟩

theorem same_of_waits {a : Axis} (h : Moving steps v sw a) (hs : ¬a.Steps) :
    (a.stepper_ISR sw).current_halfstep_left = a.current_halfstep_left ∧
      (a.stepper_ISR sw).current_halfstep_total = a.current_halfstep_total ∧
      (a.stepper_ISR sw).STEP = a.STEP ∧ (a.stepper_ISR sw).DIR = a.DIR := by
  rw [h.eq]
  exact Axis.drive_of_waits hs

theorem within {a : Axis} (h : Moving steps v sw a)
    (ht : a.current_halfstep_total ∈ Set.uIcc start (-2 * steps)) :
    (a.stepper_ISR sw).current_halfstep_total ∈ Set.uIcc start (-2 * steps) := by
  by_cases hs : a.Steps
  · obtain ⟨hne, htotal⟩ := h.total_of_steps hs
    rw [htotal]
    rw [Set.mem_uIcc] at ht ⊢
    rcases lt_or_gt_of_ne hne with hlt | hgt
    · rw [Int.sign_eq_one_of_pos (by omega)]
      omega
    · rw [Int.sign_eq_neg_one_of_neg (by omega)]
      omega
  · rw [(h.same_of_waits hs).2.1]
    exact ht

section
variable {p : Steppers} {sws : Nat → Bool} (h : Moving steps v (sws 0) p.axis1)
include h

theorem total_within (n : Nat) : (RobotCar.interrupts sws p n).axis1.current_halfstep_total ∈
    Set.uIcc p.axis1.current_halfstep_total (-2 * steps) := by
  induction n with
  | zero => exact Set.left_mem_uIcc
  | succ n ih => exact (h.interrupts n).within ih

theorem stays (hn : (RobotCar.interrupts sws p n).axis1.current_halfstep_left = 0) (k : Nat) :
    (RobotCar.interrupts sws p (n + k)).axis1.current_halfstep_left = 0 := by
  induction k with
  | zero => exact hn
  | succ k ih =>
    have hs : ¬(RobotCar.interrupts sws p (n + k)).axis1.Steps := fun hs => hs.2 ih
    exact ((h.interrupts (n + k)).same_of_waits hs).1.trans ih

theorem next_counter (n : Nat) : (RobotCar.interrupts sws p (n + 1)).axis1.counter =
    if (RobotCar.interrupts sws p n).axis1.counter + 1 ≥ v then 0
    else (RobotCar.interrupts sws p n).axis1.counter + 1 := by
  have hn := h.interrupts n
  change ((RobotCar.interrupts sws p n).axis1.stepper_ISR (sws n)).counter = _
  rw [hn.eq, ← hn.current_speed]
  exact Axis.drive_counter _

theorem counter_after (hm : (RobotCar.interrupts sws p m).axis1.Steps) (j : Nat)
    (hj : (j : Int) < v) :
    (RobotCar.interrupts sws p (m + 1 + j)).axis1.counter = j := by
  induction j with
  | zero =>
    have hc := hm.1
    rw [(h.interrupts m).current_speed] at hc
    exact (h.next_counter m).trans (if_pos hc)
  | succ j ih =>
    have hc := ih (by omega)
    have hnext := h.next_counter (m + 1 + j)
    rw [hc, if_neg (by omega)] at hnext
    exact hnext.trans (Nat.cast_succ j).symm

theorem apart (hv : 1 ≤ v) (hmn : m < n) (hm : (RobotCar.interrupts sws p m).axis1.Steps)
    (hn : (RobotCar.interrupts sws p n).axis1.Steps)
    (hbetween : ∀ k, m < k → k < n → ¬(RobotCar.interrupts sws p k).axis1.Steps) :
    (n : Int) = m + v := by
  rcases lt_trichotomy (n : Int) (m + v) with hlt | heq | hgt
  · have hc := h.counter_after hm (n - m - 1) (by omega)
    have hindex : m + 1 + (n - m - 1) = n := by omega
    have hdue := hn.1
    rw [hindex] at hc
    rw [hc, (h.interrupts n).current_speed] at hdue
    omega
  · exact heq
  · have hc := h.counter_after hm (v.toNat - 1) (by omega)
    have hindex : m + 1 + (v.toNat - 1) = m + v.toNat := by omega
    rw [hindex] at hc
    have hwaits := hbetween (m + v.toNat) (by omega) (by omega)
    have hzero : (RobotCar.interrupts sws p (m + v.toNat)).axis1.current_halfstep_left = 0 := by
      by_contra hne
      refine hwaits ⟨?_, hne⟩
      rw [hc, (h.interrupts (m + v.toNat)).current_speed]
      omega
    have hrest := h.stays hzero (n - (m + v.toNat))
    have hindex' : m + v.toNat + (n - (m + v.toNat)) = n := by omega
    rw [hindex'] at hrest
    exact absurd hrest hn.2

theorem ticksLeft_eq (n : Nat) :
    (RobotCar.interrupts sws p n).axis1.ticksLeft = p.axis1.ticksLeft - n := by
  induction n with
  | zero => rfl
  | succ n ih =>
    have hn := h.interrupts n
    change ((RobotCar.interrupts sws p n).axis1.stepper_ISR (sws n)).ticksLeft = _
    rw [hn.eq]
    change (RobotCar.interrupts sws p n).axis1.drive.ticksLeft = _
    rw [Axis.ticksLeft_drive, ih, Nat.sub_sub]

theorem arrives {n : Nat} (hv : 1 ≤ v)
    (hn : v * |-2 * steps - p.axis1.current_halfstep_total| ≤ (n : Int)) :
    (RobotCar.interrupts sws p n).axis1.current_halfstep_left = 0 := by
  have hsum := h.sum
  have hrest : -2 * steps - p.axis1.current_halfstep_total = p.axis1.current_halfstep_left := by
    omega
  have hle := Axis.ticksLeft_le h.counts.counter (h.current_speed.symm ▸ hv)
  have hticks := h.ticksLeft_eq n
  apply Axis.ticksLeft_eq_zero
  rw [hrest, Int.abs_eq_natAbs] at hn
  rw [h.current_speed] at hle
  have hcast : ((p.axis1.current_halfstep_left.natAbs * v.toNat : Nat) : Int) =
      v * (p.axis1.current_halfstep_left.natAbs : Int) := by
    rw [Nat.cast_mul, Int.toNat_of_nonneg (by omega), mul_comm]
  omega

end

end Moving

/-! ### From any reachable state -/

theorem counts_axis1 (m : StepperCall) : (stepperClient.handler m).Preserves fun s =>
    s.axis1.Counts := by
  have hpart {t : Task AxisAccess Axis Unit} (part : Task.Part Steppers Axis)
      (ht : t.Only fun _ a a' => a.Counts → a'.Counts)
      (hpart : ∀ s a, (part.set a s).axis1 = s.axis1 ∨ part.get s = s.axis1 ∧
        (part.set a s).axis1 = a) : (t.zoom id part).Preserves fun s => s.axis1.Counts := by
    apply (ht.zoom id part).preserves
    rintro l s s' h ⟨l', a, -, rfl, hT⟩
    rcases hpart s a with he | ⟨hg, he⟩
    · exact he ▸ h
    · rw [he]
      exact hT (hg ▸ h)
  have hset (steps : Int) :
      (Axis.set_stepper steps).Only fun _ a a' => a.Counts → a'.Counts := by
    apply Task.only_bind
    · exact Task.only_access _ fun _ h => h
    · exact fun _ => Task.only_access _ fun _ h => ⟨h.counter, h.clear_count⟩
  have hspeed (speed : Int) :
      (Axis.set_speed speed).Only fun _ a a' => a.Counts → a'.Counts :=
    Task.only_access _ fun _ h => ⟨h.counter, h.clear_count⟩
  cases m with
  | set_stepper_1 steps => exact hpart Steppers.part1 (hset steps) fun _ _ => .inr ⟨rfl, rfl⟩
  | set_stepper_2 steps => exact hpart Steppers.part2 (hset steps) fun _ _ => .inl rfl
  | set_speed_1 speed => exact hpart Steppers.part1 (hspeed speed) fun _ _ => .inr ⟨rfl, rfl⟩
  | set_speed_2 speed => exact hpart Steppers.part2 (hspeed speed) fun _ _ => .inl rfl

theorem run_counts (es : List (Client.Event StepperCall StepperInterrupt)) :
    (stepperClient.run {} es).shared.axis1.Counts := by
  apply stepperClient.run_invariant (I := fun s => s.axis1.Counts)
  · intro s e h
    cases e with
    | TIM7 sw1 sw2 => exact Axis.stepper_ISR_counts h sw1
    | EXTI GPIO_Pin =>
      obtain ⟨flag, he⟩ := exti_axis1 GPIO_Pin s
      change (HAL_GPIO_EXTI_Callback GPIO_Pin s).axis1.Counts
      rw [he]
      exact ⟨h.counter, h.clear_count⟩
  · exact fun m s h => h
  · exact counts_axis1
  · exact ⟨le_rfl, rfl⟩

/-- A move of axis 1 goes half-step by half-step to its target, one half-step for each period of the
divider, and then stays there. -/
theorem stepper_converges (es : List (Client.Event StepperCall StepperInterrupt)) (steps v : Int)
    (sws : Nat → Bool) :
    let p := (set_stepper_1 steps).exec (stepperClient.run {} es).shared
    p.axis1.current_speed = v → 1 ≤ v → (p.axis1.clear_flag = true → sws 0 = true) →
      let a := fun n => (interrupts sws p n).axis1
      (∀ n, (a n).Steps → (a n).current_halfstep_total ≠ -2 * steps ∧
        (a (n + 1)).current_halfstep_total = (a n).current_halfstep_total +
          (-2 * steps - (a n).current_halfstep_total).sign) ∧
      (∀ n, ¬(a n).Steps →
        (a (n + 1)).current_halfstep_total = (a n).current_halfstep_total) ∧
      (∀ n, (a n).current_halfstep_total ∈
        Set.uIcc p.axis1.current_halfstep_total (-2 * steps)) ∧
      (∀ m n, m < n → (a m).Steps → (a n).Steps →
        (∀ k, m < k → k < n → ¬(a k).Steps) → (n : Int) = m + v) ∧
      ∀ n : Nat, v * |-2 * steps - p.axis1.current_halfstep_total| ≤ n →
        (a n).current_halfstep_left = 0 ∧ get_steps_1 (interrupts sws p n) = steps ∧
          (a (n + 1)).current_halfstep_left = (a n).current_halfstep_left ∧
          (a (n + 1)).current_halfstep_total = (a n).current_halfstep_total ∧
          (a (n + 1)).STEP = (a n).STEP ∧ (a (n + 1)).DIR = (a n).DIR := by
  intro p hspeed hv hflag a
  have hcounts := run_counts es
  have hp : p.axis1 = { (stepperClient.run {} es).shared.axis1 with
      current_halfstep_left :=
        -2 * steps - (stepperClient.run {} es).shared.axis1.current_halfstep_total } := rfl
  have h : Moving steps v (sws 0) p.axis1 := by
    refine ⟨?_, hspeed, ?_, hflag⟩
    · rw [hp]
      exact ⟨hcounts.counter, hcounts.clear_count⟩
    · rw [hp]
      exact Int.sub_add_cancel _ _
  refine ⟨fun n hs => (h.interrupts n).total_of_steps hs,
    fun n hs => ((h.interrupts n).same_of_waits hs).2.1, h.total_within,
    fun m n hmn hm hn hbetween => h.apart hv hmn hm hn hbetween, ?_⟩
  intro n hn
  have hzero : (a n).current_halfstep_left = 0 := h.arrives hv hn
  have hwaits : ¬(a n).Steps := fun hs => hs.2 hzero
  have hsum : (a n).current_halfstep_left + (a n).current_halfstep_total = -2 * steps :=
    (h.interrupts n).sum
  have htotal : (a n).current_halfstep_total = -2 * steps := by
    rw [hzero] at hsum
    omega
  have hsteps : get_steps_1 (interrupts sws p n) = steps := by
    change (-(a n).current_halfstep_total).tdiv 2 = steps
    rw [htotal, Int.neg_mul, neg_neg]
    exact Int.mul_tdiv_cancel_left steps (by decide)
  exact ⟨hzero, hsteps, (h.interrupts n).same_of_waits hwaits⟩

def slowAxis : List (Client.Event StepperCall StepperInterrupt) :=
  [.recv (.set_speed_1 3), .step, .recv (.set_stepper_1 4), .step, .step, .env (.TIM7 true true),
    .env (.TIM7 true true), .env (.TIM7 true true), .env (.TIM7 true true)]

theorem slowAxis_arrives :
    let p := (set_stepper_1 (-5)).exec (stepperClient.run {} slowAxis).shared
    (interrupts (fun _ => true) p 33).axis1.current_halfstep_left = 0 ∧
      get_steps_1 (interrupts (fun _ => true) p 33) = -5 := by
  have h := (stepper_converges slowAxis (-5) 3 (fun _ => true) rfl (by decide) fun _ => rfl).2.2.2.2
    33 (by decide)
  exact ⟨h.1, h.2.1⟩

end RobotCar

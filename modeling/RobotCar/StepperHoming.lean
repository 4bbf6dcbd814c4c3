import RobotCar.StepperMove

namespace RobotCar
open Concurrent
set_option autoImplicit true

/-- An axis, and its distance from the limit switch in steps. The switch is closed at 0. -/
structure Bench where
  axis : Axis
  distance : Int

namespace Bench

/-- Each pulse moves the axis by one step, towards the switch when `DIR` is set. -/
def drive (b : Bench) : Bench where
  axis := b.axis.drive
  distance := b.distance - countPulse b.axis b.axis.drive 0

/-- The switch opens: its level is high. -/
def isOpen (b : Bench) : Bool := decide (0 < b.distance)

/-- The timer interrupt, and the edge of the switch when it closes. The contact may bounce, which
makes more edges. -/
def tick (b : Bench) (bounce : Bool) : Bench :=
  let a := b.drive.axis.home b.drive.isOpen
  { b.drive with
    axis := if bounce || (b.isOpen && !b.drive.isOpen) then { a with clear_flag := true } else a }

def run (b : Bench) (bounces : List Bool) : Bench := bounces.foldl tick b

def mark (b : Bench) (flag : Bool) : Bench :=
  { b with axis := { b.axis with clear_flag := flag } }

/-- Before the first half-step, when the task has just called `set_stepper(-0xFFFF)`. -/
structure Starts (v : Int) (b : Bench) : Prop where
  current_speed : b.axis.current_speed = v
  counter : 0 ≤ b.axis.counter ∧ b.axis.counter < v
  clear_count : b.axis.clear_count = 0
  left : b.axis.current_halfstep_left = 2 * 0xFFFF
  total : b.axis.current_halfstep_total = 0
  state : b.axis.state = false
  STEP : b.axis.STEP = false

/-- The half-step that is still missing in a pulse. -/
def phase (b : Bench) : Int := if b.axis.state then 1 else 0

/-- What holds in both directions. -/
structure Steady (v : Int) (b : Bench) : Prop where
  current_speed : b.axis.current_speed = v
  counter : 0 ≤ b.axis.counter ∧ b.axis.counter < v
  clear_count : b.axis.clear_count = 0
  low : b.axis.state = true → b.axis.STEP = false
  distance : 0 ≤ b.distance

/-- On the way to the switch, from `d` steps away. -/
structure Approaches (d v : Int) (b : Bench) : Prop extends Steady v b where
  sum : b.axis.current_halfstep_left + b.axis.current_halfstep_total = 2 * 0xFFFF
  total : b.axis.current_halfstep_total = 2 * (d - b.distance) + b.phase

/-- On the way from the switch to the place that homing ends at. The switch was found in either
phase of a pulse. -/
structure Leaves (v : Int) (b : Bench) : Prop extends Steady v b where
  sum : b.axis.current_halfstep_left + b.axis.current_halfstep_total = -900
  left : b.axis.current_halfstep_left ≤ 0
  total_le : b.axis.current_halfstep_total ≤ 0
  total : b.axis.current_halfstep_total = -2 * b.distance - b.phase ∨
    b.axis.current_halfstep_total = -2 * b.distance - b.phase + 1

/-! ### The axis is driven -/

theorem phase_of_low {b : Bench} (h : b.axis.state = false) : b.phase = 0 := by
  rw [phase, h]
  rfl

theorem phase_of_high {b : Bench} (h : b.axis.state = true) : b.phase = 1 := by
  rw [phase, h]
  rfl

theorem phase_congr {b b' : Bench} (h : b'.axis.state = b.axis.state) : b'.phase = b.phase := by
  rw [phase, phase, h]

theorem drive_of_waits {b : Bench} (h : ¬b.axis.Steps) :
    b.drive.distance = b.distance ∧ b.drive.axis.state = b.axis.state ∧
      b.drive.axis.STEP = b.axis.STEP := by
  obtain ⟨counter, hd⟩ := Axis.drive_of_not_steps h
  have hp : countPulse b.axis { b.axis with counter := counter } 0 = 0 :=
    if_neg fun hn => absurd (hn.1.symm.trans hn.2) Bool.false_ne_true
  rw [drive, hd, hp, Int.sub_zero]
  exact ⟨rfl, rfl, rfl⟩

theorem drive_of_first {b : Bench} (h : b.axis.Steps) (hs : b.axis.state = false) :
    b.drive.distance = b.distance ∧ b.drive.axis.state = true ∧ b.drive.axis.STEP = false := by
  have hp : countPulse b.axis { b.axis.halfstep with counter := 0 } 0 = 0 := by
    refine if_neg fun hn => ?_
    have hstep : b.axis.halfstep.STEP = b.axis.state := by
      simp only [Axis.halfstep]
      split <;> rfl
    exact absurd (hs.symm.trans (hstep.symm.trans hn.2)) Bool.false_ne_true
  rw [drive, Axis.drive_of_steps h, hp]
  refine ⟨Int.sub_zero _, ?_, ?_⟩
  · exact (Axis.halfstep_state _).trans (by rw [hs]; rfl)
  · simp only [Axis.halfstep]
    split <;> exact hs

theorem drive_of_second {b : Bench} (h : b.axis.Steps) (hs : b.axis.state = true)
    (hlow : b.axis.STEP = false) :
    b.drive.distance = b.distance - b.axis.current_halfstep_left.sign ∧
      b.drive.axis.state = false := by
  have hstate : b.axis.halfstep.state = false := (Axis.halfstep_state _).trans (by rw [hs]; rfl)
  refine ⟨?_, by rw [drive, Axis.drive_of_steps h]; exact hstate⟩
  rw [drive, Axis.drive_of_steps h]
  by_cases hl : b.axis.current_halfstep_left > 0
  · rw [Int.sign_eq_one_of_pos hl]
    simp [countPulse, Axis.halfstep, hs, hl, hlow]
  · have hneg : b.axis.current_halfstep_left < 0 := by
      have hne := h.2
      omega
    rw [Int.sign_eq_neg_one_of_neg hneg]
    simp [countPulse, Axis.halfstep, hs, hl, hlow]

/-- Every half-step towards the switch or away from it. -/
theorem drive_half {b : Bench} (h : b.axis.Steps)
    (hlow : b.axis.state = true → b.axis.STEP = false) :
    2 * b.drive.distance - b.axis.current_halfstep_left.sign * b.drive.phase =
      2 * b.distance - b.axis.current_halfstep_left.sign * b.phase -
        b.axis.current_halfstep_left.sign := by
  cases hs : b.axis.state with
  | false =>
    obtain ⟨hd, hs', -⟩ := drive_of_first h hs
    rw [hd, phase_of_high hs', phase_of_low hs]
    omega
  | true =>
    obtain ⟨hd, hs'⟩ := drive_of_second h hs (hlow hs)
    rw [hd, phase_of_low hs', phase_of_high hs]
    omega

theorem phase_eq (b : Bench) :
    b.phase = 0 ∧ b.axis.state = false ∨ b.phase = 1 ∧ b.axis.state = true := by
  cases hs : b.axis.state with
  | false => exact .inl ⟨phase_of_low hs, rfl⟩
  | true => exact .inr ⟨phase_of_high hs, rfl⟩

theorem drive_counter (b : Bench) : b.drive.axis.counter =
    if b.axis.counter + 1 ≥ b.axis.current_speed then 0 else b.axis.counter + 1 :=
  b.axis.drive_counter

theorem drive_counter_of_waits {b : Bench} (hl : b.axis.current_halfstep_left ≠ 0)
    (hs : ¬b.axis.Steps) : b.drive.axis.counter = b.axis.counter + 1 := by
  have hlt : ¬b.axis.counter + 1 ≥ b.axis.current_speed := fun hc => hs ⟨hc, hl⟩
  rw [drive_counter, if_neg hlt]

theorem Steady.drive {b : Bench} (h : b.Steady v) (hd : 0 ≤ b.drive.distance) :
    b.drive.Steady v := by
  refine ⟨(Axis.drive_current_speed _).trans h.current_speed, ?_,
    (Axis.drive_clear_count _).trans h.clear_count, ?_, hd⟩
  · have hcounter := h.counter
    have hspeed := h.current_speed
    rw [drive_counter]
    split <;> omega
  · by_cases hs : b.axis.Steps
    · cases hst : b.axis.state with
      | false => exact fun _ => (drive_of_first hs hst).2.2
      | true =>
        have hst' := (drive_of_second hs hst (h.low hst)).2
        exact fun hn => absurd (hst'.symm.trans hn) Bool.false_ne_true
    · obtain ⟨-, hst, hSTEP⟩ := drive_of_waits hs
      rw [hst, hSTEP]
      exact h.low

theorem Approaches.drive {b : Bench} (h : b.Approaches d v) (hd : d < 0xFFFF)
    (hopen : b.distance = 0 → b.axis.state = false) :
    b.drive.Approaches d v ∧
      (b.drive.distance = b.distance ∨ 0 < b.distance ∧ b.drive.axis.state = false) ∧
      (2 * b.drive.distance - b.drive.phase = 2 * b.distance - b.phase ∧
          b.drive.axis.counter = b.axis.counter + 1 ∨
        2 * b.drive.distance - b.drive.phase + 1 = 2 * b.distance - b.phase) := by
  have hsum := h.sum
  have htotal := h.total
  have hy := h.distance
  have hphase := b.phase_eq
  have hleft : 0 < b.axis.current_halfstep_left := by omega
  have hsum' := b.axis.drive_sum.trans hsum
  by_cases hs : b.axis.Steps
  · have hhalf := drive_half hs h.low
    obtain ⟨htotal', -⟩ := Axis.drive_total hs
    rw [Int.sign_eq_one_of_pos hleft] at hhalf htotal'
    have hdist : b.drive.distance = b.distance ∨
        b.drive.distance = b.distance - 1 ∧ 0 < b.distance ∧ b.drive.axis.state = false := by
      cases hst : b.axis.state with
      | false => exact .inl (drive_of_first hs hst).1
      | true =>
        obtain ⟨hdist, hst'⟩ := drive_of_second hs hst (h.low hst)
        rw [Int.sign_eq_one_of_pos hleft] at hdist
        have hne : b.distance ≠ 0 := fun hn =>
          absurd ((hopen hn).symm.trans hst) Bool.false_ne_true
        exact .inr ⟨hdist, by omega, hst'⟩
    refine ⟨⟨h.toSteady.drive (by omega), hsum', ?_⟩, ?_, .inr (by omega)⟩
    · exact htotal'.trans (by omega)
    · exact hdist.imp_right And.right
  · have hcounter := drive_counter_of_waits (by omega) hs
    obtain ⟨hdist, hst, -⟩ := drive_of_waits hs
    obtain ⟨-, htotal', -, -⟩ := Axis.drive_of_waits hs
    have hphase' := phase_congr hst
    refine ⟨⟨h.toSteady.drive (by omega), hsum', ?_⟩, .inl hdist, .inl ⟨by omega, hcounter⟩⟩
    exact htotal'.trans (by omega)

theorem Leaves.drive {b : Bench} (h : b.Leaves v) :
    b.drive.Leaves v ∧ b.distance ≤ b.drive.distance ∧
      (b.drive.axis.current_halfstep_left = b.axis.current_halfstep_left ∧
          b.drive.phase = b.phase ∧ b.drive.distance = b.distance ∧
          (b.axis.current_halfstep_left ≠ 0 →
            b.drive.axis.counter = b.axis.counter + 1) ∨
        b.drive.axis.current_halfstep_left = b.axis.current_halfstep_left + 1 ∧
          2 * b.drive.distance + b.drive.phase = 2 * b.distance + b.phase + 1) := by
  have hsum := h.sum
  have htotal := h.total
  have htotal_le := h.total_le
  have hleft := h.left
  have hy := h.distance
  have hsum' := b.axis.drive_sum.trans hsum
  have hphase := b.phase_eq
  have hphase' := b.drive.phase_eq
  by_cases hs : b.axis.Steps
  · have hneg : b.axis.current_halfstep_left < 0 := lt_of_le_of_ne hleft hs.2
    have hhalf := drive_half hs h.low
    obtain ⟨htotal', hleft'⟩ := Axis.drive_total hs
    rw [Int.sign_eq_neg_one_of_neg hneg] at hhalf htotal' hleft'
    change b.drive.axis.current_halfstep_total = _ at htotal'
    change b.drive.axis.current_halfstep_left = _ at hleft'
    exact ⟨⟨h.toSteady.drive (by omega), hsum', by omega, by omega, by omega⟩, by omega,
      .inr ⟨by omega, by omega⟩⟩
  · obtain ⟨hdist, hst, -⟩ := drive_of_waits hs
    obtain ⟨hleft', htotal', -, -⟩ := Axis.drive_of_waits hs
    change b.drive.axis.current_halfstep_total = _ at htotal'
    change b.drive.axis.current_halfstep_left = _ at hleft'
    have hsame := phase_congr hst
    exact ⟨⟨h.toSteady.drive (by omega), hsum', by omega, by omega, by omega⟩, by omega,
      .inl ⟨hleft', hsame, hdist, fun hl => drive_counter_of_waits hl hs⟩⟩

/-! ### The switch is read -/

theorem tick_of_closed {b : Bench} (hcount : b.axis.clear_count = 0)
    (hflag : b.axis.clear_flag = true) (hd : b.drive.distance = 0) (bounce : Bool) :
    ∃ flag, b.tick bounce = { b.drive with axis := { b.drive.axis with
      current_halfstep_left := -900
      current_halfstep_total := 0
      clear_count := 0
      clear_flag := flag } } := by
  have hclosed : b.drive.isOpen = false := decide_eq_false (by omega)
  have hclears : b.drive.axis.Clears b.drive.isOpen :=
    (Axis.drive_clears _).2 ⟨hflag, by rw [hcount]; decide, hclosed⟩
  rw [tick, Axis.home_of_clears hclears]
  split
  · exact ⟨true, rfl⟩
  · exact ⟨false, rfl⟩

theorem tick_of_open {b : Bench} (hcount : b.axis.clear_count = 0)
    (hopen : b.axis.clear_flag = true → 0 < b.drive.distance) (bounce : Bool) :
    b.tick bounce = b.drive.mark (bounce || (b.isOpen && !b.drive.isOpen)) := by
  have hsw : b.drive.axis.clear_flag = true → b.drive.isOpen = true := fun hf =>
    decide_eq_true (hopen ((Axis.drive_clear_flag _).symm.trans hf))
  have hcount' : b.drive.axis.clear_count = 0 := (Axis.drive_clear_count _).trans hcount
  rw [tick, Axis.home_of_open hcount' hsw]
  cases bounce || (b.isOpen && !b.drive.isOpen) with
  | false => rfl
  | true => rfl

/-- The axis is on its way to the switch, which will be noticed, or from it. -/
def Homing (d v : Int) (b : Bench) : Prop :=
  b.Approaches d v ∧
      (b.distance = 0 → b.axis.clear_flag = true ∧ b.axis.state = false) ∨
    b.Leaves v

def way (b : Bench) : Int :=
  if b.axis.current_halfstep_left + b.axis.current_halfstep_total = -900 then
    if b.distance = 0 then 901 - b.phase else -b.axis.current_halfstep_left
  else 2 * b.distance - b.phase + 902

theorem Approaches.way_eq {b : Bench} (h : b.Approaches d v) :
    b.way = 2 * b.distance - b.phase + 902 := by
  have hsum := h.sum
  exact if_neg (by omega)

theorem Leaves.way_eq {b : Bench} (h : b.Leaves v) :
    b.way = if b.distance = 0 then 901 - b.phase else -b.axis.current_halfstep_left :=
  if_pos h.sum

/-- Time passes, or a half-step of the way is done. -/
def Nears (b b' : Bench) : Prop :=
  b'.way = b.way ∧ b'.axis.counter = b.axis.counter + 1 ∨ b'.way + 1 ≤ b.way

/-- The switch is read when it is closed: the axis stands at 0. -/
theorem leaves_of_closed {b b' : Bench} (h : b.Steady v) (hd : b.distance = 0)
    (hb : b' = { b with axis := { b.axis with
      current_halfstep_left := -900
      current_halfstep_total := 0
      clear_count := 0
      clear_flag := flag } }) : b'.Leaves v ∧ b'.way = 901 - b.phase := by
  have hphase := b.phase_eq
  have hleaves : b'.Leaves v := by
    subst hb
    refine ⟨⟨h.current_speed, h.counter, rfl, h.low, h.distance⟩, rfl, ?_, ?_, ?_⟩
    · exact (by decide : (-900 : Int) ≤ 0)
    · exact Int.le_refl 0
    · change (0 : Int) = -2 * b.distance - b.phase ∨ 0 = -2 * b.distance - b.phase + 1
      omega
  refine ⟨hleaves, ?_⟩
  subst hb
  exact hleaves.way_eq.trans (if_pos hd)

theorem Approaches.mark {b : Bench} (h : b.Approaches d v) (flag : Bool) :
    (b.mark flag).Approaches d v :=
  ⟨⟨h.current_speed, h.counter, h.clear_count, h.low, h.distance⟩, h.sum, h.total⟩

theorem Leaves.mark {b : Bench} (h : b.Leaves v) (flag : Bool) : (b.mark flag).Leaves v :=
  ⟨⟨h.current_speed, h.counter, h.clear_count, h.low, h.distance⟩, h.sum, h.left, h.total_le,
    h.total⟩

theorem Leaves.tick {b : Bench} (h : b.Leaves v) (bounce : Bool) :
    (b.tick bounce).Leaves v ∧
      (b.axis.current_halfstep_left ≠ 0 → b.Nears (b.tick bounce)) ∧
      (b.axis.current_halfstep_left = 0 → (b.tick bounce).axis.current_halfstep_left = 0) := by
  obtain ⟨h', hle, hprogress⟩ := h.drive
  have hsum := h.sum
  have htotal := h.total
  have hy := h.distance
  have hphase := b.phase_eq
  have hphase' := b.drive.phase_eq
  have hway := h.way_eq
  by_cases hc : b.axis.clear_flag = true ∧ b.drive.distance = 0
  · obtain ⟨flag, he⟩ := tick_of_closed h.clear_count hc.1 hc.2 bounce
    obtain ⟨hleaves, hway'⟩ := leaves_of_closed h'.toSteady hc.2 he
    have hcounter : (b.tick bounce).axis.counter = b.drive.axis.counter := by rw [he]
    have hd : b.distance = 0 := le_antisymm (by omega) hy
    rw [if_pos hd] at hway
    refine ⟨hleaves, fun hl => ?_, fun hl => ?_⟩
    · unfold Nears
      rw [hway', hway, hcounter]
      omega
    · omega
  · have hopen : b.axis.clear_flag = true → 0 < b.drive.distance := fun hf =>
      lt_of_le_of_ne h'.distance fun hn => hc ⟨hf, hn.symm⟩
    obtain ⟨flag, he⟩ : ∃ flag, b.tick bounce = b.drive.mark flag :=
      ⟨_, tick_of_open h.clear_count hopen bounce⟩
    have hway' := h'.way_eq
    rw [he]
    refine ⟨h'.mark flag, fun hl => ?_, fun hl => ?_⟩
    · change b.drive.way = b.way ∧ b.drive.axis.counter = b.axis.counter + 1 ∨
        b.drive.way + 1 ≤ b.way
      have hsum' := h'.sum
      have htotal' := h'.total
      have hy' := h'.distance
      rw [hway', hway]
      rcases hprogress with ⟨hleft', hsame, hdist, hcounter⟩ | ⟨hleft', hhalf⟩
      · rw [hleft', hsame, hdist]
        exact .inl ⟨rfl, hcounter hl⟩
      · right
        split <;> split <;> omega
    · change b.drive.axis.current_halfstep_left = 0
      have hleft' := h'.left
      omega

theorem Homing.tick {b : Bench} (h : b.Homing d v) (hd : d < 0xFFFF) (bounce : Bool) :
    (b.tick bounce).Homing d v ∧
      (b.axis.current_halfstep_left ≠ 0 → b.Nears (b.tick bounce)) ∧
      (b.axis.current_halfstep_left = 0 → (b.tick bounce).axis.current_halfstep_left = 0) := by
  rcases h with ⟨h, hclosed⟩ | h
  · obtain ⟨h', hdist, hprogress⟩ := h.drive hd fun hn => (hclosed hn).2
    have hphase := b.phase_eq
    have hway := h.way_eq
    have hy := h'.distance
    have hleft : b.axis.current_halfstep_left ≠ 0 := by
      have hsum := h.sum
      have htotal := h.total
      have hy := h.distance
      omega
    by_cases hc : b.axis.clear_flag = true ∧ b.drive.distance = 0
    · obtain ⟨flag, he⟩ := tick_of_closed h.clear_count hc.1 hc.2 bounce
      obtain ⟨hleaves, hway'⟩ := leaves_of_closed h'.toSteady hc.2 he
      refine ⟨.inr hleaves, fun _ => .inr ?_, fun hl => absurd hl hleft⟩
      omega
    · have hopen : b.axis.clear_flag = true → 0 < b.drive.distance := fun hf =>
        lt_of_le_of_ne hy fun hn => hc ⟨hf, hn.symm⟩
      have he := tick_of_open h.clear_count hopen bounce
      rw [he]
      refine ⟨.inl ⟨h'.mark _, fun hn => ?_⟩, fun _ => ?_, fun hl => absurd hl hleft⟩
      · -- the switch closes in this interrupt, and makes an edge
        change b.drive.distance = 0 at hn
        have hpos : 0 < b.distance ∧ b.drive.axis.state = false := by
          rcases hdist with hsame | hpos
          · rw [hsame] at hn
            exact absurd ⟨(hclosed hn).1, hsame.trans hn⟩ hc
          · exact hpos
        have hb : b.isOpen = true := decide_eq_true hpos.1
        have hb' : b.drive.isOpen = false := decide_eq_false (by omega)
        refine ⟨?_, hpos.2⟩
        change (bounce || (b.isOpen && !b.drive.isOpen)) = true
        rw [hb, hb']
        exact Bool.or_true bounce
      · change b.drive.way = b.way ∧ b.drive.axis.counter = b.axis.counter + 1 ∨
          b.drive.way + 1 ≤ b.way
        rw [h'.way_eq, hway]
        omega
  · obtain ⟨h', hnears, hstays⟩ := h.tick bounce
    exact ⟨.inr h', hnears, hstays⟩

theorem Homing.steady {b : Bench} (h : b.Homing d v) : b.Steady v := by
  rcases h with ⟨h, -⟩ | h
  · exact h.toSteady
  · exact h.toSteady

/-! ### Runs -/

theorem Nears.interrupts {b b' : Bench} (h : b.Nears b') (hb : b.Steady v) (hb' : b'.Steady v) :
    b'.way * v - b'.axis.counter + 1 ≤ b.way * v - b.axis.counter := by
  obtain ⟨hlow, hhigh⟩ := hb.counter
  have hlow' := hb'.counter.1
  rcases h with ⟨hway, hcounter⟩ | hway
  · rw [hway, hcounter]
    omega
  · have hmul : (b'.way + 1) * v ≤ b.way * v := Int.mul_le_mul_of_nonneg_right hway (by omega)
    rw [Int.add_mul, Int.one_mul] at hmul
    omega

theorem Homing.run {b : Bench} (h : b.Homing d v) (hd : d < 0xFFFF) (bounces : List Bool) :
    (b.run bounces).Homing d v ∧
      (b.axis.current_halfstep_left = 0 → (b.run bounces).axis.current_halfstep_left = 0) ∧
      ((b.run bounces).axis.current_halfstep_left ≠ 0 →
        (b.run bounces).way * v - (b.run bounces).axis.counter + bounces.length ≤
          b.way * v - b.axis.counter) := by
  induction bounces generalizing b with
  | nil => exact ⟨h, id, fun _ => Int.le_of_eq (Int.add_zero _)⟩
  | cons bounce bounces ih =>
    obtain ⟨h', hnears, hstays⟩ := h.tick hd bounce
    obtain ⟨hrun, hrest, htime⟩ := ih h'
    refine ⟨hrun, fun hl => hrest (hstays hl), fun hl => ?_⟩
    have hleft : b.axis.current_halfstep_left ≠ 0 := fun hn => hl (hrest (hstays hn))
    have hone := (hnears hleft).interrupts h.steady h'.steady
    have hlast := htime hl
    rw [List.length_cons, Int.natCast_succ, ← Int.add_assoc]
    exact (Int.add_le_add_right hlast 1).trans hone

theorem Starts.homing {b : Bench} (h : b.Starts v) (hpos : 0 < b.distance) :
    b.Homing b.distance v ∧ b.way = 2 * b.distance + 902 := by
  have hphase := phase_of_low h.state
  have happroach : b.Approaches b.distance v := by
    refine ⟨⟨h.current_speed, h.counter, h.clear_count, ?_, hpos.le⟩, ?_, ?_⟩
    · exact fun _ => h.STEP
    · rw [h.left, h.total]
      rfl
    · rw [h.total, hphase]
      omega
  refine ⟨.inl ⟨happroach, fun hn => absurd hn hpos.ne'⟩, ?_⟩
  rw [happroach.way_eq, hphase]
  omega

theorem Homing.way_pos {b : Bench} (h : b.Homing d v) (hl : b.axis.current_halfstep_left ≠ 0) :
    0 < b.way := by
  have hphase := b.phase_eq
  rcases h with ⟨h, -⟩ | h
  · have hy := h.distance
    rw [h.way_eq]
    omega
  · have hleft := h.left
    rw [h.way_eq]
    split <;> omega

/-- A stopped axis has left the switch, and stands where its count says. -/
theorem Homing.arrived {b : Bench} (h : b.Homing d v) (hd : d < 0xFFFF)
    (hl : b.axis.current_halfstep_left = 0) :
    b.distance = 450 ∧ b.axis.get_steps = 450 := by
  have hphase := b.phase_eq
  rcases h with ⟨h, -⟩ | h
  · have hsum := h.sum
    have htotal := h.total
    have hy := h.distance
    omega
  · have hsum := h.sum
    have htotal := h.total
    have hcount : b.axis.current_halfstep_total = -900 := by omega
    refine ⟨by omega, ?_⟩
    rw [Axis.get_steps, hcount]
    rfl

/-- After `set_stepper(-0xFFFF)` the axis never runs past its switch, however the contact bounces,
and comes to rest 450 steps from it, where it reads 450 steps. -/
theorem homes {b : Bench} (h : b.Starts v) (hpos : 0 < b.distance) (hd : b.distance < 0xFFFF)
    (bounces : List Bool) :
    0 ≤ (b.run bounces).distance ∧
      ((2 * b.distance + 902) * v ≤ bounces.length →
        (b.run bounces).axis.current_halfstep_left = 0 ∧
          (b.run bounces).distance = 450 ∧ (b.run bounces).axis.get_steps = 450) := by
  obtain ⟨hstart, hway⟩ := h.homing hpos
  obtain ⟨hrun, -, htime⟩ := hstart.run hd bounces
  refine ⟨hrun.steady.distance, fun hlong => ?_⟩
  have hleft : (b.run bounces).axis.current_halfstep_left = 0 := by
    by_contra hl
    have htime := htime hl
    rw [hway] at htime
    have hwaypos := hrun.way_pos hl
    obtain ⟨hlow, hhigh⟩ := hrun.steady.counter
    have hmul : 1 * v ≤ (b.run bounces).way * v :=
      Int.mul_le_mul_of_nonneg_right hwaypos (hlow.trans hhigh.le)
    rw [Int.one_mul] at hmul
    have hcounter := h.counter.1
    omega
  exact ⟨hleft, hrun.arrived hd hleft⟩

/-- From 1000 steps away at the speed after a reset, without bounces. -/
theorem homes_thousand :
    let b := (⟨(Axis.set_stepper (-0xFFFF)).exec {}, 1000⟩ : Bench).run (List.replicate 5804 false)
    0 ≤ b.distance ∧ b.axis.current_halfstep_left = 0 ∧ b.distance = 450 ∧
      b.axis.get_steps = 450 := by
  obtain ⟨hdist, harrived⟩ := homes (b := ⟨(Axis.set_stepper (-0xFFFF)).exec {}, 1000⟩) (v := 2)
    ⟨rfl, by decide, rfl, rfl, rfl, rfl, rfl⟩ (by decide) (by decide) (List.replicate 5804 false)
  refine ⟨hdist, harrived ?_⟩
  rw [List.length_replicate]
  decide

end Bench

end RobotCar

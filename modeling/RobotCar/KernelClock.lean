import RobotCar.KernelDelays

namespace RobotCar
open Transition
set_option autoImplicit true

/-- A point in time, as the kernel notes it. -/
structure TimeOut_t where
  xOverflowCount : Nat
  xTimeOnEntering : UInt32
  deriving DecidableEq

namespace Kernel

variable {τ : Type}

def vTaskInternalSetTimeOutState (s : Kernel τ) : TimeOut_t where
  xOverflowCount := s.xNumOfOverflows
  xTimeOnEntering := s.xTickCount

def vTaskSetTimeOutState (s : Kernel τ) : TimeOut_t := s.vTaskInternalSetTimeOutState

/-- What is returned, the new point in time, and the new time to wait. -/
def xTaskCheckForTimeOut (s : Kernel τ) (pxTimeOut : TimeOut_t) (pxTicksToWait : UInt32) :
    Bool × TimeOut_t × UInt32 :=
  let xElapsedTime := s.xTickCount - pxTimeOut.xTimeOnEntering
  if pxTicksToWait = portMAX_DELAY then
    (false, pxTimeOut, pxTicksToWait)
  else if s.xNumOfOverflows ≠ pxTimeOut.xOverflowCount ∧
      s.xTickCount ≥ pxTimeOut.xTimeOnEntering then
    (true, pxTimeOut, pxTicksToWait)
  else if xElapsedTime < pxTicksToWait then
    (false, s.vTaskInternalSetTimeOutState, pxTicksToWait - xElapsedTime)
  else
    (true, pxTimeOut, 0)

end Kernel

/-! ### The clock of the ROS client -/

structure timespec where
  tv_sec : Int
  tv_nsec : Int
  deriving DecidableEq

def NANOSECONDS_PER_SECOND : Int := 1000000000

def configTICK_RATE_HZ : Int := 1000

def NANOSECONDS_PER_TICK : Int := NANOSECONDS_PER_SECOND.tdiv configTICK_RATE_HZ

def UTILS_NanosecondsToTimespec (llSource : Int) : timespec :=
  let tv_sec := llSource.tdiv NANOSECONDS_PER_SECOND
  let tv_nsec := llSource.tmod NANOSECONDS_PER_SECOND
  if tv_nsec < 0 then
    let lCarrySec := tv_nsec.tdiv NANOSECONDS_PER_SECOND + 1
    { tv_sec := tv_sec - lCarrySec, tv_nsec := tv_nsec + lCarrySec * NANOSECONDS_PER_SECOND }
  else
    { tv_sec, tv_nsec }

/-- The nanoseconds are a signed integer of 64 bits. That it overflows, after 292 years, is
undefined in C. -/
def clock_gettime (s : Kernel τ) : timespec :=
  let xCurrentTime := s.vTaskSetTimeOutState
  let ullTickCount := UInt64.ofNat xCurrentTime.xOverflowCount <<< 32
  let ullTickCount := ullTickCount + xCurrentTime.xTimeOnEntering.toUInt64
  UTILS_NanosecondsToTimespec (ullTickCount.toInt64 * Int64.ofInt NANOSECONDS_PER_TICK).toInt

def timespec.nanoseconds (t : timespec) : Int := t.tv_sec * NANOSECONDS_PER_SECOND + t.tv_nsec

/-- Seconds and the nanoseconds that are left, also before the start of the clock. -/
theorem UTILS_NanosecondsToTimespec_exact (llSource : Int) :
    (UTILS_NanosecondsToTimespec llSource).nanoseconds = llSource ∧
      0 ≤ (UTILS_NanosecondsToTimespec llSource).tv_nsec ∧
      (UTILS_NanosecondsToTimespec llSource).tv_nsec < NANOSECONDS_PER_SECOND := by
  have hsum := Int.mul_tdiv_add_tmod llSource NANOSECONDS_PER_SECOND
  have hpos : 0 < NANOSECONDS_PER_SECOND := by decide
  have hlt := Int.tmod_lt_of_pos llSource hpos
  have hgt := Int.lt_tmod_of_pos llSource hpos
  rw [Int.mul_comm] at hsum
  rw [UTILS_NanosecondsToTimespec, timespec.nanoseconds]
  dsimp only
  by_cases hneg : llSource.tmod NANOSECONDS_PER_SECOND < 0
  · have hcarry : (llSource.tmod NANOSECONDS_PER_SECOND).tdiv NANOSECONDS_PER_SECOND = 0 := by
      rw [← Int.neg_neg (llSource.tmod NANOSECONDS_PER_SECOND), Int.neg_tdiv,
        Int.tdiv_eq_zero_of_lt (by omega) (by omega), Int.neg_zero]
    rw [if_pos hneg, hcarry]
    dsimp only
    rw [Int.zero_add, Int.one_mul, Int.sub_mul, Int.one_mul]
    omega
  · rw [if_neg hneg]
    exact ⟨hsum, Int.not_lt.1 hneg, hlt⟩

theorem halves_eq (n : Nat) :
    UInt64.ofNat (n / 2 ^ 32) <<< 32 + (UInt32.ofNat n).toUInt64 = UInt64.ofNat n := by
  rw [← UInt64.toNat_inj, UInt64.toNat_add, UInt64.toNat_shiftLeft, UInt32.toNat_toUInt64,
    UInt64.toNat_ofNat', UInt64.toNat_ofNat', UInt32.toNat_ofNat']
  change ((n / 2 ^ 32 % 2 ^ 64) <<< 32 % 2 ^ 64 + n % 2 ^ 32) % 2 ^ 64 = n % 2 ^ 64
  rw [Nat.shiftLeft_eq]
  omega

theorem toInt_ticks {n : Nat} (hn : n * 1000000 < 2 ^ 63) :
    ((UInt64.ofNat n).toInt64 * Int64.ofInt NANOSECONDS_PER_TICK).toInt = n * 1000000 := by
  have hrate : (Int64.ofInt NANOSECONDS_PER_TICK).toInt = 1000000 := by decide
  rw [Int64.toInt_mul, UInt64.toInt64_ofNat', Int64.toInt_ofNat_of_lt (by omega), hrate,
    Int.bmod_eq_of_le (by omega) (by omega)]

namespace System

variable [DecidableEq τ] {p p' : System τ} {a a' : Timeline τ}

omit [DecidableEq τ] in
theorem Agrees.overflows (h : p.Agrees a) : p.kernel.xNumOfOverflows = a.now / 2 ^ 32 := by
  obtain ⟨-, contents, href⟩ := h
  exact href.overflows

omit [DecidableEq τ] in
theorem Agrees.clock_gettime (h : p.Agrees a) (hlt : a.now * 1000000 < 2 ^ 63) :
    RobotCar.clock_gettime p.kernel = UTILS_NanosecondsToTimespec (a.now * 1000000) := by
  rw [RobotCar.clock_gettime, Kernel.vTaskSetTimeOutState, Kernel.vTaskInternalSetTimeOutState]
  dsimp only
  rw [h.overflows, h.tickCount, halves_eq, toInt_ticks hlt]

/-- Whatever the tasks and the interrupts did, the clock has a millisecond for each tick that came,
less those that are pended. -/
theorem clock_exact (T : Tasks τ) (hm : AllMeet call Legal (reset T) cs)
    (hr : cs.foldlM call (reset T) = some p) (hlt : KernelCall.ticks cs * 1000000 < 2 ^ 63) :
    (clock_gettime p.kernel).nanoseconds =
        (KernelCall.ticks cs - p.kernel.xPendedTicks.toNat) * 1000000 ∧
      0 ≤ (clock_gettime p.kernel).tv_nsec ∧
      (clock_gettime p.kernel).tv_nsec < NANOSECONDS_PER_SECOND := by
  obtain ⟨a, hf, ha⟩ := (agrees_reset T).run hm hr
  have hclock : a.now + a.pended = 0 + 0 + KernelCall.ticks cs := hf.clock
  have hle : a.now ≤ KernelCall.ticks cs := by omega
  have hexact := UTILS_NanosecondsToTimespec_exact (a.now * 1000000)
  rw [ha.clock_gettime (Nat.lt_of_le_of_lt (Nat.mul_le_mul_right _ hle) hlt), ha.pended]
  refine ⟨hexact.1.trans ?_, hexact.2⟩
  omega

/-- Two ticks came. -/
theorem clock_exact_sleepingRun :
    let p := (sleepingRun.foldlM call (reset carTasks)).get sleepingRun_runs
    (clock_gettime p.kernel).nanoseconds =
        (KernelCall.ticks sleepingRun - p.kernel.xPendedTicks.toNat) * 1000000 ∧
      0 ≤ (clock_gettime p.kernel).tv_nsec ∧
      (clock_gettime p.kernel).tv_nsec < NANOSECONDS_PER_SECOND := by
  have hr : sleepingRun.foldlM call (reset carTasks) = some _ :=
    (Option.some_get sleepingRun_runs).symm
  exact clock_exact carTasks (by decide) hr (by decide)

/-! ### Time limits -/

/-- A time limit of `n` ticks is set at `p`. It has been checked from time to time, at `q` for the
last time, and is not over. -/
inductive StillWaits (p : System τ) (n : UInt32) :
    List (KernelCall τ) → System τ → TimeOut_t → UInt32 → Prop where
  | set : StillWaits p n [] p p.kernel.vTaskSetTimeOutState n
  | check : StillWaits p n cs q pxTimeOut pxTicksToWait →
    AllMeet call Legal q cs' → cs'.foldlM call q = some q' → q.processed cs' q' < 2 ^ 32 →
    q'.kernel.xTaskCheckForTimeOut pxTimeOut pxTicksToWait =
      (false, pxTimeOut', pxTicksToWait') →
    StillWaits p n (cs ++ cs') q' pxTimeOut' pxTicksToWait'

/-- The point in time at which a time limit is over. -/
structure Until (pxTimeOut : TimeOut_t) (pxTicksToWait : UInt32) (now limit : Nat) : Prop where
  overflows : pxTimeOut.xOverflowCount = now / 2 ^ 32
  entering : pxTimeOut.xTimeOnEntering = UInt32.ofNat now
  rest : now + pxTicksToWait.toNat = limit
  limited : pxTicksToWait ≠ portMAX_DELAY

omit [DecidableEq τ] in
theorem Agrees.until (h : p.Agrees a) (hn : n ≠ portMAX_DELAY) :
    Until p.kernel.vTaskSetTimeOutState n a.now (a.now + n.toNat) :=
  ⟨h.overflows, h.tickCount, rfl, hn⟩

omit [DecidableEq τ] in
theorem Until.check (h : Until pxTimeOut pxTicksToWait now limit) (hp : p.Agrees a)
    (hle : now ≤ a.now) (hlt : a.now < now + 2 ^ 32) :
    ((p.kernel.xTaskCheckForTimeOut pxTimeOut pxTicksToWait).1 = true ↔ limit ≤ a.now) ∧
      ∀ pxTimeOut' pxTicksToWait', p.kernel.xTaskCheckForTimeOut pxTimeOut pxTicksToWait =
          (false, pxTimeOut', pxTicksToWait') →
        Until pxTimeOut' pxTicksToWait' a.now limit := by
  have hrest := h.rest
  have helapsed : (p.kernel.xTickCount - pxTimeOut.xTimeOnEntering).toNat = a.now - now := by
    rw [hp.tickCount, h.entering, UInt32.toNat_sub, UInt32.toNat_ofNat', UInt32.toNat_ofNat']
    omega
  have hepoch : ¬(p.kernel.xNumOfOverflows ≠ pxTimeOut.xOverflowCount ∧
      p.kernel.xTickCount ≥ pxTimeOut.xTimeOnEntering) := by
    rw [hp.overflows, h.overflows, hp.tickCount, h.entering, ge_iff_le, UInt32.le_iff_toNat_le,
      UInt32.toNat_ofNat', UInt32.toNat_ofNat']
    omega
  rw [Kernel.xTaskCheckForTimeOut, if_neg h.limited, if_neg hepoch]
  by_cases hover : p.kernel.xTickCount - pxTimeOut.xTimeOnEntering < pxTicksToWait
  · rw [if_pos hover]
    have hless := hover
    rw [UInt32.lt_iff_toNat_lt, helapsed] at hless
    have hsub : (pxTicksToWait - (p.kernel.xTickCount - pxTimeOut.xTimeOnEntering)).toNat =
        pxTicksToWait.toNat - (a.now - now) := by
      rw [UInt32.toNat_sub_of_le _ _ (UInt32.le_of_lt hover), helapsed]
    refine ⟨iff_of_false nofun (by omega), ?_⟩
    rintro _ _ he
    cases he
    refine ⟨hp.overflows, hp.tickCount, by omega, fun hmax => ?_⟩
    -- The rest is not more than the time to wait was, which was not the largest one.
    have hlargest := pxTicksToWait.toNat_lt
    have hmax' : (pxTicksToWait - (p.kernel.xTickCount - pxTimeOut.xTimeOnEntering)).toNat =
        2 ^ 32 - 1 := congrArg UInt32.toNat hmax
    have hwait : pxTicksToWait.toNat = 2 ^ 32 - 1 := by omega
    exact h.limited (UInt32.toNat_inj.1 hwait)
  · rw [if_neg hover]
    rw [UInt32.lt_iff_toNat_lt, helapsed] at hover
    exact ⟨iff_of_true rfl (by omega), nofun⟩

theorem StillWaits.until (hw : StillWaits p n cs q pxTimeOut pxTicksToWait) (h : p.Agrees a)
    (hn : n ≠ portMAX_DELAY) :
    ∃ b, Follows p a cs q b ∧ q.Agrees b ∧
      Until pxTimeOut pxTicksToWait b.now (a.now + n.toNat) := by
  induction hw with
  | set => exact ⟨a, .nil, h, h.until hn⟩
  | @check _ _ _ _ _ _ _ _ _ hm hr hlt hcheck ih =>
    obtain ⟨b, hf, hq, hu⟩ := ih
    obtain ⟨b', hf', hq'⟩ := hq.run hm hr
    have hnow := hf'.now hq hq'
    exact ⟨b', hf.append hf', hq', (hu.check hq' hf'.now_le (by omega)).2 _ _ hcheck⟩

/-- However often a time limit is checked, and whatever happens between two checks, a check finds it
over if and only if that many ticks have been processed since it was set. -/
theorem times_out_iff (h : p.Reachable) (hn : n ≠ portMAX_DELAY)
    (hw : StillWaits p n cs q pxTimeOut pxTicksToWait) (hm : AllMeet call Legal q cs')
    (hr : cs'.foldlM call q = some q') (hlt : q.processed cs' q' < 2 ^ 32) :
    (q'.kernel.xTaskCheckForTimeOut pxTimeOut pxTicksToWait).1 = true ↔
      n.toNat ≤ p.processed (cs ++ cs') q' := by
  obtain ⟨a, ha⟩ := h.agrees
  obtain ⟨b, hf, hq, hu⟩ := hw.until ha hn
  obtain ⟨b', hf', hq'⟩ := hq.run hm hr
  have hnow := hf'.now hq hq'
  have hall := (hf.append hf').now ha hq'
  rw [(hu.check hq' hf'.now_le (by omega)).1]
  omega

def checkedRun : List (KernelCall CarTask) := [.xTaskResumeAll, .xPortSysTickHandler]

theorem checkedRun_runs : (checkedRun.foldlM call beforeDelay).isSome = true := by decide

def afterCheck : System CarTask := (checkedRun.foldlM call beforeDelay).get checkedRun_runs

theorem checkedRun_stillWaits : StillWaits beforeDelay 2 ([] ++ checkedRun) afterCheck
    afterCheck.kernel.vTaskSetTimeOutState 1 :=
  .check .set (by decide) (Option.some_get checkedRun_runs).symm (by decide) rfl

theorem afterCheck_runs : (afterCheck.call .xPortSysTickHandler).isSome = true := by decide

def afterLimit : System CarTask := (afterCheck.call .xPortSysTickHandler).get afterCheck_runs

theorem times_out_iff_two :
    (afterLimit.kernel.xTaskCheckForTimeOut afterCheck.kernel.vTaskSetTimeOutState 1).1 = true ↔
      2 ≤ beforeDelay.processed (checkedRun ++ [.xPortSysTickHandler]) afterLimit := by
  have hr : [KernelCall.xPortSysTickHandler].foldlM call afterCheck = some afterLimit := by
    rw [List.foldlM_cons, ← Option.some_get afterCheck_runs]
    rfl
  exact times_out_iff beforeDelay_reachable (by decide) checkedRun_stillWaits (by decide) hr
    (by decide)

end System

end RobotCar

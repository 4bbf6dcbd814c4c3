import Mathlib.Algebra.BigOperators.Ring.Finset
import Mathlib.Algebra.Order.BigOperators.Group.List
import RobotCar.Lib.CArith
import RobotCar.Lib.Transition
import RobotCar.MicroRealloc

namespace RobotCar
open CArith Memory FreeList Transition
set_option autoImplicit true

/-- The heap, and the counters of the allocator that micro-ROS is given. -/
structure RosMemory where
  heap : MicroHeap
  absoluteUsedMemory : Int := 0
  usedMemory : Int := 0

namespace RosMemory

/-- `absoluteUsedMemory += size; usedMemory += size` -/
def add (s : RosMemory) (size : UInt32) : RosMemory :=
  { s with
    absoluteUsedMemory := wrap32 (s.absoluteUsedMemory + size.toNat)
    usedMemory := wrap32 (s.usedMemory + size.toNat) }

/-- `usedMemory -= getBlockSize(pointer)` -/
def subtractBlock (s : RosMemory) (pointer : UInt32) : RosMemory :=
  { s with usedMemory := wrap32 (s.usedMemory - (getBlockSize s.heap pointer).toNat) }

end RosMemory

def microros_allocate (L : HeapLayout) (size : UInt32) (s : RosMemory) :
    Option (UInt32 × RosMemory) := do
  let s := s.add size
  let (pv, h) ← pvPortMallocMicroROS L size s.heap
  some (pv, { s with heap := h })

def microros_deallocate (L : HeapLayout) (pointer : UInt32) (s : RosMemory) : Option RosMemory :=
  if pointer ≠ 0 then do
    let s := s.subtractBlock pointer
    let h ← vPortFreeMicroROS L pointer s.heap
    some { s with heap := h }
  else some s

def microros_reallocate (L : HeapLayout) (pointer size : UInt32) (s : RosMemory) :
    Option (UInt32 × RosMemory) :=
  let s := s.add size
  if pointer = 0 then do
    let (pv, h) ← pvPortMallocMicroROS L size s.heap
    some (pv, { s with heap := h })
  else do
    let s := s.subtractBlock pointer
    let (pv, h) ← pvPortReallocMicroROS L pointer size s.heap
    some (pv, { s with heap := h })

def microros_zero_allocate (L : HeapLayout) (number_of_elements size_of_element : UInt32)
    (s : RosMemory) : Option (UInt32 × RosMemory) := do
  let s := s.add (number_of_elements * size_of_element)
  let (pv, h) ← pvPortCallocMicroROS L number_of_elements size_of_element s.heap
  some (pv, { s with heap := h })

inductive AllocatorCall where
  | allocate (size : UInt32)
  | deallocate (pointer : UInt32)
  | reallocate (pointer size : UInt32)
  | zero_allocate (number_of_elements size_of_element : UInt32)
  /-- a byte of a live payload is written -/
  | write (a : Nat) (v : UInt8)
  deriving DecidableEq

/-- A live payload is released, or moved. -/
def AllocatorCall.Releases : AllocatorCall → Prop
  | .deallocate pointer => pointer ≠ 0
  | .reallocate pointer _ => pointer ≠ 0
  | _ => False

/-- The live payloads, with the sizes that were asked for. -/
structure RosRun where
  memory : RosMemory
  live : List (UInt32 × UInt32) := []

namespace RosRun

def start (m : Mem) : RosRun := { memory := { heap := { mem := m } } }

/-- Only live payloads are written; only they and `NULL` are passed. -/
def step (L : HeapLayout) (r : RosRun) : AllocatorCall → Option RosRun
  | .allocate size => do
    let (pv, s) ← microros_allocate L size r.memory
    some ⟨s, (pv, size) :: r.live⟩
  | .deallocate pointer =>
    if pointer = 0 ∨ ∃ q ∈ r.live, q.1 = pointer then do
      let s ← microros_deallocate L pointer r.memory
      some ⟨s, r.live.eraseP fun q => q.1 = pointer⟩
    else none
  | .reallocate pointer size =>
    if pointer = 0 ∨ ∃ q ∈ r.live, q.1 = pointer then do
      let (pv, s) ← microros_reallocate L pointer size r.memory
      some ⟨s, (pv, size) :: r.live.eraseP fun q => q.1 = pointer⟩
    else none
  | .zero_allocate number_of_elements size_of_element => do
    let (pv, s) ← microros_zero_allocate L number_of_elements size_of_element r.memory
    some ⟨s, (pv, size_of_element * number_of_elements) :: r.live⟩
  | .write a v =>
    if ∃ q ∈ r.live, q.1.toNat ≤ a ∧ a < q.1.toNat + q.2.toNat then
      some { r with memory.heap.mem := Function.update r.memory.heap.mem a v }
    else none

def run (L : HeapLayout) (m : Mem) (calls : List AllocatorCall) : Option RosRun :=
  calls.foldlM (step L) (start m)

/-- The copy of a reallocation writes nothing new on a header or on another live block. -/
def Harmless (L : HeapLayout) (r : RosRun) : AllocatorCall → Prop
  | .reallocate pointer size =>
    pointer = 0 ∨ CopyHarmless L r.memory.heap r.live pointer size
  | _ => True

end RosRun

/-! ### What one call does -/

section Steps
variable {L : HeapLayout} {s s' : RosMemory} {r r' : RosRun} {pv size pointer : UInt32}

theorem microros_allocate_cases (h : microros_allocate L size s = some (pv, s')) :
    ∃ h', pvPortMallocMicroROS L size s.heap = some (pv, h') ∧
      s' = { s.add size with heap := h' } := by
  rw [microros_allocate] at h
  obtain ⟨⟨p, h'⟩, hret, h⟩ := Option.bind_eq_some_iff.1 h
  obtain ⟨rfl, rfl⟩ := Prod.mk.inj (Option.some.inj h)
  exact ⟨h', hret, rfl⟩

theorem microros_deallocate_cases (hne : pointer ≠ 0)
    (h : microros_deallocate L pointer s = some s') :
    ∃ h', vPortFreeMicroROS L pointer s.heap = some h' ∧
      s' = { s.subtractBlock pointer with heap := h' } := by
  rw [microros_deallocate, if_pos hne] at h
  obtain ⟨h', hret, h⟩ := Option.bind_eq_some_iff.1 h
  exact ⟨h', hret, (Option.some.inj h).symm⟩

theorem microros_reallocate_null (L : HeapLayout) (size : UInt32) (s : RosMemory) :
    microros_reallocate L 0 size s = microros_allocate L size s := by
  rw [microros_reallocate]
  dsimp only
  rw [if_pos rfl, microros_allocate]

theorem microros_reallocate_cases (hne : pointer ≠ 0)
    (h : microros_reallocate L pointer size s = some (pv, s')) :
    ∃ h', pvPortReallocMicroROS L pointer size s.heap = some (pv, h') ∧
      s' = { (s.add size).subtractBlock pointer with heap := h' } := by
  rw [microros_reallocate, if_neg hne] at h
  obtain ⟨⟨p, h'⟩, hret, h⟩ := Option.bind_eq_some_iff.1 h
  obtain ⟨rfl, rfl⟩ := Prod.mk.inj (Option.some.inj h)
  exact ⟨h', hret, rfl⟩

theorem microros_zero_allocate_cases
    (h : microros_zero_allocate L num size s = some (pv, s')) :
    ∃ h', pvPortCallocMicroROS L num size s.heap = some (pv, h') ∧
      s' = { s.add (num * size) with heap := h' } := by
  rw [microros_zero_allocate] at h
  obtain ⟨⟨p, h'⟩, hret, h⟩ := Option.bind_eq_some_iff.1 h
  obtain ⟨rfl, rfl⟩ := Prod.mk.inj (Option.some.inj h)
  exact ⟨h', hret, rfl⟩

/-- What a call that returns has done. -/
inductive RosRun.Did (L : HeapLayout) (r r' : RosRun) (c : AllocatorCall) : Prop
  | added (n pv : UInt32) (hc : ¬c.Releases)
      (hused : r'.memory.usedMemory = wrap32 (r.memory.usedMemory + n.toNat))
      (hlive : r'.live = (pv, n) :: r.live) (hs : HeapSound L r'.memory.heap r'.live)
  | kept (hc : ¬c.Releases) (hused : r'.memory.usedMemory = r.memory.usedMemory)
      (hlive : r'.live = r.live) (hs : HeapSound L r'.memory.heap r'.live)
  | released (pointer : UInt32) (hc : c = .deallocate pointer) (hne : pointer ≠ 0)
      (hq : ∃ q ∈ r.live, q.1 = pointer)
      (hused : r'.memory.usedMemory =
        wrap32 (r.memory.usedMemory - (getBlockSize r.memory.heap pointer).toNat))
      (hlive : r'.live = r.live.eraseP fun q => q.1 = pointer)
      (hs : HeapSound L r'.memory.heap r'.live)
  | moved (pointer n pv : UInt32) (hc : c = .reallocate pointer n) (hne : pointer ≠ 0)
      (hq : ∃ q ∈ r.live, q.1 = pointer)
      (hused : r'.memory.usedMemory =
        wrap32 (wrap32 (r.memory.usedMemory + n.toNat) -
          (getBlockSize r.memory.heap pointer).toNat))
      (hlive : r'.live = (pv, n) :: r.live.eraseP fun q => q.1 = pointer)
      (hret : pvPortReallocMicroROS L pointer n r.memory.heap = some (pv, r'.memory.heap))

theorem RosRun.step_did (hs : HeapSound L r.memory.heap r.live) (h : r.step L c = some r') :
    r.Did L r' c := by
  cases c with
  | allocate size =>
    rw [step] at h
    obtain ⟨⟨pv, s'⟩, hret, h⟩ := Option.bind_eq_some_iff.1 h
    obtain rfl := Option.some.inj h
    obtain ⟨h', hmalloc, rfl⟩ := microros_allocate_cases hret
    obtain ⟨free, ha⟩ := hs.malloc hmalloc
    exact .added size pv id rfl rfl ha.sound
  | deallocate pointer =>
    rw [step] at h
    split at h
    · rename_i hallowed
      obtain ⟨s', hret, h⟩ := Option.bind_eq_some_iff.1 h
      obtain rfl := Option.some.inj h
      by_cases hz : pointer = 0
      · obtain rfl := hz
        obtain rfl : r.memory = s' := Option.some.inj hret
        have herase := hs.eraseP_zero
        exact .kept (fun hne => hne rfl) rfl herase (herase.symm ▸ hs)
      · obtain ⟨h', hfree, rfl⟩ := microros_deallocate_cases hz hret
        exact .released pointer rfl hz (hallowed.resolve_left hz) rfl rfl
          (hs.release hallowed hfree)
    · cases h
  | reallocate pointer size =>
    rw [step] at h
    split at h
    · rename_i hallowed
      obtain ⟨⟨pv, s'⟩, hret, h⟩ := Option.bind_eq_some_iff.1 h
      obtain rfl := Option.some.inj h
      by_cases hz : pointer = 0
      · obtain rfl := hz
        rw [microros_reallocate_null] at hret
        obtain ⟨h', hmalloc, rfl⟩ := microros_allocate_cases hret
        obtain ⟨free, ha⟩ := hs.malloc hmalloc
        rw [hs.eraseP_zero]
        exact .added size pv (fun hne => hne rfl) rfl rfl ha.sound
      · obtain ⟨h', hrealloc, rfl⟩ := microros_reallocate_cases hz hret
        exact .moved pointer size pv rfl hz (hallowed.resolve_left hz) rfl rfl hrealloc
    · cases h
  | zero_allocate num size =>
    rw [step] at h
    obtain ⟨⟨pv, s'⟩, hret, h⟩ := Option.bind_eq_some_iff.1 h
    obtain rfl := Option.some.inj h
    obtain ⟨h', hcalloc, rfl⟩ := microros_zero_allocate_cases hret
    refine .added (size * num) pv id ?_ rfl (hs.calloc hcalloc)
    rw [UInt32.mul_comm]
    rfl
  | write a v =>
    rw [step] at h
    split at h
    · rename_i hallowed
      obtain rfl := Option.some.inj h
      exact .kept id rfl rfl (hs.write hallowed v)
    · cases h

theorem RosRun.step_sound (hs : HeapSound L r.memory.heap r.live) (hh : r.Harmless L c)
    (h : r.step L c = some r') : HeapSound L r'.memory.heap r'.live := by
  cases step_did hs h with
  | added n pv hc hused hlive hs' => exact hs'
  | kept hc hused hlive hs' => exact hs'
  | released pointer hc hne hq hused hlive hs' => exact hs'
  | moved pointer n pv hc hne hq hused hlive hret =>
    obtain rfl := hc
    rw [hlive]
    exact (hs.realloc hq hret (hh.resolve_left hne)).2

theorem RosRun.run_sound {m : Mem} {calls : List AllocatorCall} (h : run L m calls = some r)
    (hm : AllMeet (step L) (Harmless L) (start m) calls) :
    HeapSound L r.memory.heap r.live :=
  foldlM_invariant_of_meet (I := fun r => HeapSound L r.memory.heap r.live)
    (fun _ _ _ hs hh h => step_sound hs hh h) (.inl ⟨rfl, rfl⟩) hm h

end Steps

/-! ### Reallocation -/

/-- In a run whose reallocations are harmless, a reallocation that returns touches nothing but its
own block exactly if it is harmless, too. -/
theorem reallocated_iff {L : HeapLayout} {m : Mem} {calls : List AllocatorCall} {r : RosRun}
    {pv n newmem : UInt32} {h' : MicroHeap} (hrun : RosRun.run L m calls = some r)
    (hm : AllMeet (RosRun.step L) (RosRun.Harmless L) (RosRun.start m) calls)
    (hq : ∃ q ∈ r.live, q.1 = pv)
    (hret : pvPortReallocMicroROS L pv n r.memory.heap = some (newmem, h')) :
    Reallocated L r.memory.heap r.live pv n newmem h' ↔
      CopyHarmless L r.memory.heap r.live pv n :=
  (RosRun.run_sound hrun hm).realloc_iff hq hret

/-- A larger block is asked for. -/
theorem reallocated_larger :
    ∃ r newmem h', RosRun.run exampleLayout (fun _ => 0) [.allocate 10] = some r ∧
      pvPortReallocMicroROS exampleLayout 0x20000010 100 r.memory.heap = some (newmem, h') ∧
      Reallocated exampleLayout r.memory.heap r.live 0x20000010 100 newmem h' := by
  have hcheck : (do
      let r ← RosRun.run exampleLayout (fun _ => 0) [.allocate 10]
      let x ← pvPortReallocMicroROS exampleLayout 0x20000010 100 r.memory.heap
      some (decide ((∃ q ∈ r.live, q.1 = 0x20000010) ∧ x.1 ≠ 0 ∧
        (blockOf r.memory.heap 0x20000010).size + 8 ≤ blockBytes 100))) = some true := by
    decide +kernel
  obtain ⟨r, hrun, hcheck⟩ := Option.bind_eq_some_iff.1 hcheck
  obtain ⟨⟨newmem, h'⟩, hret, hcheck⟩ := Option.bind_eq_some_iff.1 hcheck
  obtain ⟨hq, -, hfits⟩ := of_decide_eq_true (Option.some.inj hcheck)
  have hm : AllMeet (RosRun.step exampleLayout) (RosRun.Harmless exampleLayout)
      (RosRun.start fun _ => 0) [.allocate 10] := ⟨trivial, fun _ _ => trivial⟩
  exact ⟨r, newmem, h', hrun, hret, (reallocated_iff hrun hm hq hret).2
    ((RosRun.run_sound hrun hm).copyHarmless hq hfits)⟩

/-- For the size that the block has already, the copy runs over the header behind the new block. -/
theorem realloc_overruns :
    ¬∀ (L : HeapLayout) (m : Mem) (calls : List AllocatorCall) (r : RosRun) (pv n newmem : UInt32)
      (h' : MicroHeap), RosRun.run L m calls = some r → (∃ q ∈ r.live, q.1 = pv) →
        pvPortReallocMicroROS L pv n r.memory.heap = some (newmem, h') →
          Reallocated L r.memory.heap r.live pv n newmem h' := by
  intro hall
  have hcheck : (do
      let r ← RosRun.run exampleLayout (fun _ => 0) [.allocate 10, .allocate 10]
      let x ← pvPortReallocMicroROS exampleLayout 0x20000010 10 r.memory.heap
      let y ← pvPortMallocMicroROS exampleLayout 10 (vTaskSuspendAll r.memory.heap)
      let h₂ ← vPortFreeMicroROS exampleLayout 0x20000010 y.2
      some (decide ((∃ q ∈ r.live, q.1 = 0x20000010) ∧ y.1 = x.1 ∧
        0x20000050 ∈ headerAddrs exampleLayout h₂
          (blocksOf h₂ ((x.1, 10) :: r.live.eraseP fun q => q.1 = 0x20000010)) ∧
        sizeAt x.2.mem 0x20000050 ≠ sizeAt h₂.mem 0x20000050))) = some true := by
    decide +kernel
  obtain ⟨r, hrun, hcheck⟩ := Option.bind_eq_some_iff.1 hcheck
  obtain ⟨⟨newmem, h'⟩, hret, hcheck⟩ := Option.bind_eq_some_iff.1 hcheck
  obtain ⟨⟨p, h₁⟩, hmalloc, hcheck⟩ := Option.bind_eq_some_iff.1 hcheck
  obtain ⟨h₂, hfree, hcheck⟩ := Option.bind_eq_some_iff.1 hcheck
  obtain ⟨hq, hp, hmem, hne⟩ := of_decide_eq_true (Option.some.inj hcheck)
  obtain rfl : p = newmem := hp
  have hr := hall exampleLayout (fun _ => 0) _ r 0x20000010 10 p h' hrun hq hret
  exact hne ((hr.headers h₁ h₂ hmalloc hfree).2 _ hmem).2

/-! ### The counters -/

/-- A measure of a block, by the size that was asked for and the size of the block, lies between
the two. -/
structure SizeMeasure (μ : Nat → Nat → Int) : Prop where
  ge : ∀ n b, n ≤ μ n b
  le : ∀ n b, n ≤ b → μ n b ≤ b

namespace RosRun

def measured (μ : Nat → Nat → Int) (r : RosRun) : Int :=
  (r.live.map fun q => μ q.2.toNat (blockOf r.memory.heap q.1).size).sum

def requested (r : RosRun) : Nat := (r.live.map fun q => q.2.toNat).sum

/-- After each of the calls, `usedMemory` is the sum of the measures of the live blocks. -/
def Balanced (μ : Nat → Nat → Int) (L : HeapLayout) (m : Mem) (calls : List AllocatorCall) :
    Prop :=
  ∀ n r, run L m (calls.take n) = some r → r.memory.usedMemory = r.measured μ

end RosRun

section Counters
variable {L : HeapLayout} {h : MicroHeap} {r r' : RosRun} {qs : List (UInt32 × UInt32)}

theorem HeapSound.requested_le (hs : HeapSound L h qs) :
    (qs.map fun q => q.2.toNat).sum ≤ 102392 := by
  rcases hs with ⟨-, rfl⟩ | ⟨free, hh, hp⟩
  · exact Nat.zero_le _
  · have hsub : cover (blocksOf h qs) ⊆ Set.Ico L.start L.finish := by
      rw [← hh.tiled]
      exact Set.subset_union_right
    have hbytes := bytes_le_of_disjoint hh.apart hsub
    have hfin := L.finish_le
    have hle : (qs.map fun q => q.2.toNat).sum ≤ bytes (blocksOf h qs) := by
      rw [bytes, blocksOf, List.map_map]
      exact List.sum_le_sum fun q hq => (Nat.le_add_right _ 8).trans (hp q hq).2
    omega

theorem requested_eraseP (hq : ∃ q ∈ qs, q.1 = pv) :
    ∃ n, (pv, n) ∈ qs ∧ (qs.map fun q => q.2.toNat).sum =
      n.toNat + ((qs.eraseP fun q => q.1 = pv).map fun q => q.2.toNat).sum := by
  obtain ⟨q, hq, hqp⟩ := hq
  obtain ⟨⟨pv', n⟩, l₁, l₂, -, hpv, rfl, herase⟩ :=
    List.exists_of_eraseP (p := fun q => decide (q.1 = pv)) hq (decide_eq_true hqp)
  obtain rfl : pv' = pv := of_decide_eq_true hpv
  refine ⟨n, List.mem_append_right _ List.mem_cons_self, ?_⟩
  rw [herase, List.map_append, List.map_cons, List.sum_append, List.sum_cons, List.map_append,
    List.sum_append]
  exact Nat.add_left_comm _ _ _

theorem requested_le_measured {μ : Nat → Nat → Int} (hμ : SizeMeasure μ) (r : RosRun) :
    (r.requested : Int) ≤ r.measured μ := by
  rw [RosRun.requested, RosRun.measured, Nat.cast_list_sum, List.map_map]
  exact List.sum_le_sum fun q _ => hμ.ge _ _

theorem measured_requested (r : RosRun) : r.measured (fun n _ => n) = r.requested := by
  rw [RosRun.requested, RosRun.measured, Nat.cast_list_sum, List.map_map]
  rfl

theorem HeapSound.blockSize (hs : HeapSound L h qs) (hq : (pv, n) ∈ qs) :
    n.toNat < (getBlockSize h pv).toNat ∧ (getBlockSize h pv).toNat ≤ 102392 := by
  obtain ⟨free, hh, hp⟩ := hs.of_mem ⟨(pv, n), hq, rfl⟩
  have hroom := (hp _ hq).2
  have hplaced := hh.placed _ (List.mem_append_right _ (blockOf_mem hq))
  have hlo := hplaced.lo
  have hhi := hplaced.hi
  have hfin := L.finish_le
  dsimp only [blockOf] at hroom hlo hhi
  omega

theorem HeapSound.realloc_size (hs : HeapSound L h qs)
    (hret : pvPortReallocMicroROS L pv n h = some (newmem, h')) : n.toNat ≤ 102392 := by
  obtain ⟨h₁, -, hmalloc, -⟩ := realloc_cases hret
  obtain ⟨free, ha⟩ := (hs.resched (h.uxSchedulerSuspended + 1)).malloc hmalloc
  obtain ⟨-, hle⟩ := ha.sound.blockSize List.mem_cons_self
  have hlt := (ha.sound.blockSize List.mem_cons_self).1
  omega

/-- The counter is exact until the first live payload is released. -/
theorem RosRun.step_exact (hs : HeapSound L r.memory.heap r.live)
    (hu : r.memory.usedMemory = r.requested) (hc : ¬c.Releases) (h : r.step L c = some r') :
    HeapSound L r'.memory.heap r'.live ∧ r'.memory.usedMemory = r'.requested := by
  cases step_did hs h with
  | added n pv _ hused hlive hs' =>
    refine ⟨hs', ?_⟩
    have hle := hs'.requested_le
    have hsum : r'.requested = n.toNat + r.requested := by
      rw [requested, hlive, List.map_cons, List.sum_cons]
      rfl
    rw [← requested, hsum] at hle
    rw [hused, hu, hsum, wrap32_eq_self_iff.2] <;> omega
  | kept _ hused hlive hs' =>
    refine ⟨hs', ?_⟩
    rw [hused, hu, requested, requested, hlive]
  | released pointer hc' hne => exact absurd (hc' ▸ hne) hc
  | moved pointer n pv hc' hne => exact absurd (hc' ▸ hne) hc

/-- With the first release, more is subtracted than was added for the block. -/
theorem RosRun.step_short (hs : HeapSound L r.memory.heap r.live)
    (hu : r.memory.usedMemory = r.requested) (hc : c.Releases) (h : r.step L c = some r') :
    r'.memory.usedMemory < r'.requested := by
  have hle := hs.requested_le
  rw [← requested] at hle
  cases step_did hs h with
  | added n pv hc' => exact absurd hc hc'
  | kept hc' => exact absurd hc hc'
  | released pointer _ hne hq hused hlive =>
    obtain ⟨n, hmem, hsum⟩ := requested_eraseP hq
    obtain ⟨hlt, hle'⟩ := hs.blockSize hmem
    rw [← hlive, ← requested, ← requested] at hsum
    rw [hused, hu, wrap32_eq_self_iff.2] <;> omega
  | moved pointer size pv _ hne hq hused hlive hret =>
    obtain ⟨n, hmem, hsum⟩ := requested_eraseP hq
    obtain ⟨hlt, hle'⟩ := hs.blockSize hmem
    have hsize := hs.realloc_size hret
    have hsum' : r'.requested = size.toNat +
        ((r.live.eraseP fun q => q.1 = pointer).map fun q => q.2.toNat).sum := by
      rw [requested, hlive, List.map_cons, List.sum_cons]
    rw [← requested] at hsum
    have hinner : wrap32 (r.requested + size.toNat) = r.requested + size.toNat :=
      wrap32_eq_self_iff.2 (by omega)
    rw [hused, hu, hinner, wrap32_eq_self_iff.2] <;> omega

end Counters

def RosRun.SumsRequests (L : HeapLayout) (r : RosRun) : Prop :=
  HeapSound L r.memory.heap r.live ∧ r.memory.usedMemory = r.requested

/-- The counter balances exactly in the runs that release and move no live payload. -/
theorem usedMemory_balanced_iff {L : HeapLayout} {m : Mem} {calls : List AllocatorCall}
    {r : RosRun} (h : RosRun.run L m calls = some r) :
    (∃ μ, SizeMeasure μ ∧ RosRun.Balanced μ L m calls) ↔ ∀ c ∈ calls, ¬c.Releases := by
  have hstart : RosRun.SumsRequests L (RosRun.start m) := ⟨.inl ⟨rfl, rfl⟩, rfl⟩
  constructor
  · rintro ⟨μ, hμ, hall⟩
    apply forall_of_always (I := RosRun.SumsRequests L)
      (P := fun r => r.memory.usedMemory = r.measured μ)
      (fun r c r' hI hc hs => RosRun.step_exact hI.1 hI.2 hc hs) ?_ hstart h hall
    intro r c r' hI hc hs he
    have hlt := RosRun.step_short hI.1 hI.2 (not_not.1 hc) hs
    have hge := requested_le_measured hμ r'
    omega
  · intro hall
    refine ⟨fun n _ => n, ⟨fun _ _ => le_rfl, fun _ _ hle => Nat.cast_le.2 hle⟩, fun n r hr => ?_⟩
    have hm : AllMeet (RosRun.step L) (fun _ c => ¬c.Releases) (RosRun.start m) calls :=
      allMeet_of_forall (fun c hc _ => hall c hc) _
    have hI : RosRun.SumsRequests L r := foldlM_invariant_of_meet
      (fun r c r' hI hc hs => RosRun.step_exact hI.1 hI.2 hc hs) hstart (hm.take n) hr
    rw [hI.2, measured_requested]

theorem usedMemory_balanced :
    ∃ r, RosRun.run exampleLayout (fun _ => 0) [.allocate 10, .zero_allocate 3 4] = some r ∧
      ∃ μ, SizeMeasure μ ∧ RosRun.Balanced μ exampleLayout (fun _ => 0)
        [.allocate 10, .zero_allocate 3 4] := by
  have hsome : (RosRun.run exampleLayout (fun _ => 0)
      [.allocate 10, .zero_allocate 3 4]).isSome = true := by decide +kernel
  obtain ⟨r, hr⟩ := Option.isSome_iff_exists.1 hsome
  exact ⟨r, hr, (usedMemory_balanced_iff hr).2 (by simp [AllocatorCall.Releases])⟩

/-- After a block has been handed out and released, the counter is negative. -/
theorem usedMemory_drifts :
    ¬∃ μ : Nat → Nat → Int, ∀ (L : HeapLayout) (m : Mem) (calls : List AllocatorCall)
      (r : RosRun), RosRun.run L m calls = some r → r.memory.usedMemory = r.measured μ := by
  rintro ⟨μ, hall⟩
  have hcheck : (RosRun.run exampleLayout (fun _ => 0)
      [.allocate 10, .deallocate 0x20000010]).map (fun r => (r.memory.usedMemory, r.live)) =
        some (-14, []) := by decide +kernel
  obtain ⟨r, hr, he⟩ := Option.map_eq_some_iff.1 hcheck
  obtain ⟨hused, hlive⟩ := Prod.mk.inj he
  have hzero := hall _ _ _ r hr
  rw [hused, RosRun.measured, hlive, List.map_nil, List.sum_nil] at hzero
  exact absurd hzero (by decide)

end RobotCar

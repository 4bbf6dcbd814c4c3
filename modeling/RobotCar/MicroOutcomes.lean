import RobotCar.MicroFirstFit

namespace RobotCar
open Memory Linked FreeList Words Transition
set_option autoImplicit true

/-! ### Requests that cannot be met -/

/-- The heap with which a failed allocation comes to the `while(1)`, behind `xTaskResumeAll`. -/
def mallocSpins (L : HeapLayout) (xWantedSize : UInt32) (h : MicroHeap) : Option MicroHeap := do
  let (pvReturn, h) ← allocate L xWantedSize (vTaskSuspendAll h)
  if pvReturn = 0 then some (xTaskResumeAll h) else none

namespace AllocatorCall

/-- The size that a call passes to `pvPortMallocMicroROS`. -/
def request : AllocatorCall → Option UInt32
  | .allocate size => some size
  | .reallocate _ size => some size
  | .zero_allocate number_of_elements size_of_element =>
    some (size_of_element * number_of_elements)
  | _ => none

def result (L : HeapLayout) (s : RosMemory) : AllocatorCall → Option (UInt32 × RosMemory)
  | .allocate size => microros_allocate L size s
  | .reallocate pointer size => microros_reallocate L pointer size s
  | .zero_allocate number_of_elements size_of_element =>
    microros_zero_allocate L number_of_elements size_of_element s
  | _ => none

/-- How often the scheduler is suspended around the allocation. -/
def nesting : AllocatorCall → UInt32
  | .reallocate pointer _ => if pointer = 0 then 0 else 1
  | .zero_allocate _ _ => 1
  | _ => 0

/-- The heap with which the call comes to the `while(1)`. -/
def spins (L : HeapLayout) (s : RosMemory) : AllocatorCall → Option MicroHeap
  | .allocate size => mallocSpins L size s.heap
  | .reallocate pointer size =>
    mallocSpins L size (if pointer = 0 then s.heap else vTaskSuspendAll s.heap)
  | .zero_allocate number_of_elements size_of_element =>
    mallocSpins L (size_of_element * number_of_elements) (vTaskSuspendAll s.heap)
  | _ => none

end AllocatorCall

/-- A request that cannot be met: for nothing, with the top bit set, or larger than each free
block. -/
def Unsatisfiable (L : HeapLayout) (h : MicroHeap) (n : UInt32) : Prop :=
  n = 0 ∨ 2 ^ 31 ≤ n.toNat ∨
    ∀ free, freeBlocks L (ready L h) = some free → ∀ b ∈ free, b.size < blockBytes n.toNat

/-- The free list and the live blocks are as they were. -/
structure Untouched (L : HeapLayout) (h : MicroHeap) (live : List (UInt32 × UInt32))
    (h' : MicroHeap) : Prop where
  list : freeBlocks L h' = freeBlocks L (ready L h)
  live : ∀ q ∈ live, blockOf h' q.1 = blockOf h q.1 ∧
    ∀ x ∈ (blockOf h q.1).cells, h'.mem x = h.mem x

section Failures
variable {L : HeapLayout} {h h' : MicroHeap} {s : RosMemory} {c : AllocatorCall}
  {free live : List Block} {qs : List (UInt32 × UInt32)} {n : UInt32}

/-- Behind the `while(1)` there is no result. -/
theorem mallocSpins_ne (hs : mallocSpins L n h = some h') : pvPortMallocMicroROS L n h = none := by
  obtain ⟨⟨pvReturn, h₁⟩, hrun, hs⟩ := Option.bind_eq_some_iff.1 hs
  dsimp only at hs
  split at hs
  · rename_i hz
    exact malloc_eq_none (hz ▸ hrun)
  · cases hs

theorem spins_ne (hs : c.spins L s = some h') : c.result L s = none := by
  cases c with
  | allocate size =>
    have hnone : pvPortMallocMicroROS L size s.heap = none := mallocSpins_ne hs
    rw [AllocatorCall.result, microros_allocate]
    dsimp only [RosMemory.add]
    rw [hnone]
    rfl
  | deallocate pointer => cases hs
  | reallocate pointer size =>
    rw [AllocatorCall.result, microros_reallocate]
    rw [AllocatorCall.spins] at hs
    dsimp only [RosMemory.add]
    split
    · rename_i hz
      rw [if_pos hz] at hs
      rw [mallocSpins_ne hs]
      rfl
    · rename_i hz
      rw [if_neg hz] at hs
      rw [pvPortReallocMicroROS]
      dsimp only [RosMemory.subtractBlock]
      rw [mallocSpins_ne hs]
      rfl
  | zero_allocate number_of_elements size_of_element =>
    have hnone : pvPortMallocMicroROS L (size_of_element * number_of_elements)
        (vTaskSuspendAll s.heap) = none := mallocSpins_ne hs
    rw [AllocatorCall.result, microros_zero_allocate, pvPortCallocMicroROS]
    dsimp only [RosMemory.add]
    rw [hnone]
    rfl
  | write a v => cases hs

theorem ready_resched (L : HeapLayout) (h : MicroHeap) (k : UInt32) :
    ready L { h with uxSchedulerSuspended := k } =
      { ready L h with uxSchedulerSuspended := k } := by
  rw [ready, ready]
  split <;> rfl

theorem HeapHolds.mallocSpins_eq (hh : HeapHolds L (ready L h) free live)
    (hn : Unsatisfiable L h n) : mallocSpins L n h = some (ready L h) := by
  have hrun := allocate_ready L n h
  rcases allocate_holds (hh.resched ((ready L h).uxSchedulerSuspended + 1)) n with
    ⟨hnone, -⟩ | ⟨l₁, c, l₂, p, h₁, rfl, hpos, hlt, -, hle, -⟩
  · rw [mallocSpins, hrun.trans hnone]
    dsimp only [Option.bind_eq_bind, Option.bind_some]
    rw [if_pos rfl, xTaskResumeAll]
    dsimp only
    rw [UInt32.add_sub_cancel]
  · rcases hn with rfl | hbig | hall
    · exact absurd hpos (lt_irrefl 0)
    · exact absurd hlt (Nat.not_lt_of_le hbig)
    · have hlt := hall _ hh.freeBlocks_eq c (List.mem_append_right _ List.mem_cons_self)
      exact absurd hle (Nat.not_le_of_lt hlt)

theorem HeapSound.mallocSpins_eq (hs : HeapSound L h qs) (hn : Unsatisfiable L h n) :
    mallocSpins L n h = some (ready L h) := by
  rcases hs with ⟨he, -⟩ | ⟨free, hh, -⟩
  · have hready : ready L h = prvHeapInit L h := if_pos he
    exact HeapHolds.mallocSpins_eq (hready ▸ (prvHeapInit_holds L h).1) hn
  · have hready : ready L h = h := if_neg hh.pxEnd_ne
    exact HeapHolds.mallocSpins_eq (hready.symm ▸ hh) hn

theorem unsatisfiable_resched (hn : Unsatisfiable L h n) (k : UInt32) :
    Unsatisfiable L { h with uxSchedulerSuspended := k } n := by
  rw [Unsatisfiable, ready_resched]
  exact hn

theorem HeapSound.untouched (hs : HeapSound L h qs) (k : UInt32) :
    Untouched L h qs { ready L h with uxSchedulerSuspended := k } := by
  refine ⟨rfl, ?_⟩
  rcases hs with ⟨-, rfl⟩ | ⟨free, hh, -⟩
  · exact List.forall_mem_nil _
  · have hready : ready L h = h := if_neg hh.pxEnd_ne
    rw [hready]
    exact fun q _ => ⟨rfl, fun x _ => rfl⟩

/-- Every call passes its request on to one allocation. -/
theorem spins_eq (hc : c.request = some n) : c.spins L s =
    mallocSpins L n { s.heap with
      uxSchedulerSuspended := s.heap.uxSchedulerSuspended + c.nesting } := by
  cases c with
  | allocate size =>
    obtain rfl := Option.some.inj hc
    have hzero : (AllocatorCall.allocate size).nesting = 0 := rfl
    rw [hzero, UInt32.add_zero]
    rfl
  | deallocate pointer => cases hc
  | reallocate pointer size =>
    obtain rfl := Option.some.inj hc
    rw [AllocatorCall.nesting, AllocatorCall.spins]
    split
    · rw [UInt32.add_zero]
    · rfl
  | zero_allocate number_of_elements size_of_element =>
    obtain rfl := Option.some.inj hc
    rfl
  | write a v => cases hc

/-- A request that cannot be met never returns: it ends in the `while(1)`, with the free list and
the live blocks as they were. -/
theorem failure_spins (hs : HeapSound L s.heap qs) (hc : c.request = some n)
    (hn : Unsatisfiable L s.heap n) :
    c.result L s = none ∧ ∃ h', c.spins L s = some h' ∧ Untouched L s.heap qs h' ∧
      h'.uxSchedulerSuspended = s.heap.uxSchedulerSuspended + c.nesting := by
  have hspins : c.spins L s = some { ready L s.heap with
      uxSchedulerSuspended := s.heap.uxSchedulerSuspended + c.nesting } := by
    rw [spins_eq hc, (hs.resched _).mallocSpins_eq (unsatisfiable_resched hn _), ready_resched]
  exact ⟨spins_ne hspins, _, hspins, hs.untouched _, rfl⟩

end Failures

/-- The call returns `NULL`, and nothing has changed. -/
def Reported (L : HeapLayout) (s : RosMemory) (live : List (UInt32 × UInt32))
    (c : AllocatorCall) : Prop :=
  ∃ s', c.result L s = some (0, s') ∧ Untouched L s.heap live s'.heap ∧
    s'.heap.uxSchedulerSuspended = s.heap.uxSchedulerSuspended

theorem unsatisfiable_at_start :
    Unsatisfiable exampleLayout (RosRun.start fun _ => 0).memory.heap 200000 := by
  have hlist : freeBlocks exampleLayout
      (ready exampleLayout (RosRun.start fun _ => 0).memory.heap) =
        some [⟨0x20000008, 102384⟩] := by decide +kernel
  unfold Unsatisfiable
  apply Or.inr
  apply Or.inr
  intro free hfree b hb
  obtain rfl := Option.some.inj (hlist.symm.trans hfree)
  obtain rfl := List.mem_singleton.1 hb
  decide

theorem failure_spins_at_start :
    AllocatorCall.result exampleLayout (RosRun.start fun _ => 0).memory (.allocate 200000) = none ∧
      ∃ h', AllocatorCall.spins exampleLayout (RosRun.start fun _ => 0).memory (.allocate 200000) =
          some h' ∧
        Untouched exampleLayout (RosRun.start fun _ => 0).memory.heap [] h' ∧
        h'.uxSchedulerSuspended = (RosRun.start fun _ => 0).memory.heap.uxSchedulerSuspended +
          (AllocatorCall.allocate 200000).nesting :=
  failure_spins (.inl ⟨rfl, rfl⟩) rfl unsatisfiable_at_start

/-- More bytes are asked for than there are. -/
theorem failure_not_reported :
    ¬∀ (L : HeapLayout) (s : RosMemory) (live : List (UInt32 × UInt32)) (c : AllocatorCall)
      (n : UInt32), HeapSound L s.heap live → c.request = some n → Unsatisfiable L s.heap n →
        Reported L s live c := by
  intro hall
  have hnone : (microros_allocate exampleLayout 200000 (RosRun.start fun _ => 0).memory).isNone =
      true := by decide +kernel
  obtain ⟨s', hret, -⟩ := hall exampleLayout _ [] (.allocate 200000) 200000 (.inl ⟨rfl, rfl⟩) rfl
    unsatisfiable_at_start
  rw [AllocatorCall.result] at hret
  rw [hret] at hnone
  cases hnone

/-! ### Zeroed memory -/

def payload (h : MicroHeap) (pv : UInt32) : Set Nat :=
  Set.Ico pv.toNat (pv.toNat + ((getBlockSize h pv).toNat - 8))

/-- Zeroed memory for `num` elements of `size` bytes has been handed out. -/
structure ZeroAllocated (L : HeapLayout) (h : MicroHeap) (live : List (UInt32 × UInt32))
    (num size pv : UInt32) (h' : MicroHeap) : Prop where
  room : num.toNat * size.toNat ≤ (getBlockSize h' pv).toNat - 8
  zeroed : ∀ i < num.toNat * size.toNat, h'.mem (pv.toNat + i) = 0
  /-- outside of the payload, nothing but headers changes -/
  kept : ∀ x ∉ payload h' pv,
    (∀ p ∈ headerAddrs L h' (blocksOf h' ((pv, size * num) :: live)), x < p ∨ p + 8 ≤ x) →
      h'.mem x = h.mem x
  /-- and these as by the allocation alone -/
  headers : ∀ h₁, pvPortMallocMicroROS L (size * num) (vTaskSuspendAll h) = some (pv, h₁) →
    ∀ x ∉ payload h' pv, h'.mem x = h₁.mem x
  live : ∀ q ∈ live, ∀ x ∈ (blockOf h q.1).cells, h'.mem x = h.mem x

theorem zero_loop_apply {m : Mem} (count : Nat) {dest : UInt32}
    (hfit : dest.toNat + count < 2 ^ 32) : zero_loop m count dest x =
      if dest.toNat ≤ x ∧ x < dest.toNat + count then 0 else m x := by
  induction count generalizing m dest with
  | zero => exact (if_neg (by omega)).symm
  | succ count ih =>
    have hdest : (dest + 1).toNat = dest.toNat + 1 := by
      rw [UInt32.toNat_add, UInt32.toNat_one]
      omega
    rw [zero_loop, ih (by omega), hdest]
    by_cases hx : x = dest.toNat
    · rw [hx, Function.update_self, if_neg (by omega), if_pos (by omega)]
    · rw [Function.update_of_ne hx]
      congr 1
      rw [eq_iff_iff]
      omega

section Zeroing
variable {L : HeapLayout} {h h' : MicroHeap} {free : List Block} {qs : List (UInt32 × UInt32)}
  {n num size pv : UInt32}

theorem prvHeapInit_same (L : HeapLayout) (h : MicroHeap) :
    SameOutside [L.xStart.toNat, L.finish, L.start] h.mem (prvHeapInit L h).mem := by
  have hstart := alignedHeap_fst L
  have hfin := toNat_endMarker L
  unfold prvHeapInit
  generalize alignedHeap L = a at hstart hfin ⊢
  obtain ⟨first, total⟩ := a
  dsimp only at hstart hfin ⊢
  generalize (first + total - xHeapStructSize) &&& ~~~portBYTE_ALIGNMENT_MASK = last at hfin ⊢
  rw [← hstart, ← hfin]
  have hx : L.xStart.toNat ∈ [L.xStart.toNat, last.toNat, first.toNat] := by simp
  have hl : last.toNat ∈ [L.xStart.toNat, last.toNat, first.toNat] := by simp
  have hf : first.toNat ∈ [L.xStart.toNat, last.toNat, first.toNat] := by simp
  have h₁ := (same_set_link h.mem first hx).trans (same_set_size _ 0 hx)
  have h₂ := (h₁.trans (same_set_size _ 0 hl)).trans (same_set_link _ 0 hl)
  exact (h₂.trans (same_set_size _ (last - first) hf)).trans (same_set_link _ last hf)

theorem HeapSound.admissible (hs : HeapSound L h qs)
    (hret : pvPortMallocMicroROS L n h = some (pv, h')) : 0 < n.toNat ∧ n.toNat < 2 ^ 31 := by
  by_contra hn
  have hu : Unsatisfiable L h n := by
    by_cases hz : n = 0
    · exact .inl hz
    · have hpos : n.toNat ≠ 0 := fun he => hz (UInt32.toNat_inj.1 he)
      exact .inr (.inl (by omega))
  rw [mallocSpins_ne (hs.mallocSpins_eq hu)] at hret
  cases hret

theorem HeapSound.malloc_headers (hs : HeapSound L h qs)
    (hret : pvPortMallocMicroROS L n h = some (pv, h')) :
    SameOutside (headerAddrs L h' (blocksOf h' ((pv, n) :: qs))) h.mem h'.mem := by
  obtain ⟨hpos, hlt⟩ := hs.admissible hret
  obtain ⟨free', ha⟩ := hs.malloc hret
  obtain ⟨free, hf⟩ := hs.first_fit hpos hlt
  obtain ⟨l₁, c, l₂, rfl, -, -, ht⟩ := hf.first pv h' hret
  have hfree' : l₁ ++ (leftover c (blockBytes n.toNat) ++ l₂) = free' :=
    Option.some.inj (ht.list.symm.trans ha.holds.freeBlocks_eq)
  have htaken : taken c (blockBytes n.toNat) ∈ blocksOf h' ((pv, n) :: qs) := by
    rw [← ht.block]
    exact blockOf_mem (q := (pv, n)) List.mem_cons_self
  have hheaders := ht.headers
  rw [hfree'] at hheaders
  rw [ha.holds.headerAddrs_eq]
  generalize blocksOf h' ((pv, n) :: qs) = live at htaken ⊢
  have hc : c.addr ∈ L.xStart.toNat :: L.finish :: (free' ++ live).map Block.addr :=
    List.mem_cons_of_mem _ (List.mem_cons_of_mem _
      (List.mem_map.2 ⟨_, List.mem_append_right _ htaken, rfl⟩))
  have hafter : SameOutside (L.xStart.toNat :: L.finish :: (free' ++ live).map Block.addr)
      (ready L h).mem h'.mem := by
    apply hheaders.mono
    refine List.cons_subset.2 ⟨List.mem_cons_self, List.cons_subset.2 ⟨hc, ?_⟩⟩
    rw [List.map_append]
    exact List.subset_cons_of_subset _ (List.subset_cons_of_subset _ (List.subset_append_left _ _))
  rcases hs with ⟨he, rfl⟩ | ⟨free, hh, -⟩
  · have hready : ready L h = prvHeapInit L h := if_pos he
    have hlist := hf.list
    rw [hready, (prvHeapInit_holds L h).1.freeBlocks_eq] at hlist
    -- the whole region is the one free block
    have hregion : c ∈ [wholeRegion L] :=
      Option.some.inj hlist ▸ List.mem_append_right _ List.mem_cons_self
    obtain rfl := List.mem_singleton.1 hregion
    rw [hready] at hafter
    refine SameOutside.trans ((prvHeapInit_same L h).mono ?_) hafter
    exact List.cons_subset.2 ⟨List.mem_cons_self, List.cons_subset.2
      ⟨List.mem_cons_of_mem _ List.mem_cons_self, List.cons_subset.2 ⟨hc, List.nil_subset _⟩⟩⟩
  · have hready : ready L h = h := if_neg hh.pxEnd_ne
    exact hready ▸ hafter

/-- What zero-allocation does: an allocation, whose result is zeroed. -/
structure Zeroed (L : HeapLayout) (h : MicroHeap) (qs : List (UInt32 × UInt32)) (n pv : UInt32)
    (h₁ h' : MicroHeap) (free : List Block) : Prop where
  malloc : pvPortMallocMicroROS L n (vTaskSuspendAll h) = some (pv, h₁)
  allocated : Allocated L (vTaskSuspendAll h) qs n pv h₁ free
  mem : h'.mem = zero_loop h₁.mem n.toNat pv
  fits : pv.toNat + n.toNat < 2 ^ 32
  holds : HeapHolds L h' free (blocksOf h₁ ((pv, n) :: qs))

theorem HeapSound.zeroed (hs : HeapSound L h qs)
    (hret : pvPortCallocMicroROS L num size h = some (pv, h')) :
    ∃ h₁ free, Zeroed L h qs (size * num) pv h₁ h' free := by
  obtain ⟨h₁, hmalloc, rfl⟩ := pvPortCallocMicroROS_cases hret
  obtain ⟨free, ha⟩ := (hs.resched (h.uxSchedulerSuspended + 1)).malloc hmalloc
  obtain ⟨hpay, hroom⟩ := ha.payloads _ List.mem_cons_self
  dsimp only at hpay hroom
  have hh : HeapHolds L { h₁ with mem := zero_loop h₁.mem (size * num).toNat pv } free
      (blocksOf h₁ ((pv, size * num) :: qs)) := by
    apply ha.holds.same_headers
    intro a hp x h₁ h₂
    rw [zero_loop_apply _ ha.fits, if_neg]
    intro hx
    have hap := ha.holds.payload_apart (blockOf_mem List.mem_cons_self) (a := x)
      (by dsimp only; omega) (by dsimp only; omega) a hp
    omega
  exact ⟨h₁, free, hmalloc, ha, rfl, ha.fits, hh.resched _⟩

section Zeroed
variable {h₁ : MicroHeap} (hz : Zeroed L h qs n pv h₁ h' free)
include hz

theorem Zeroed.blocks : ∀ q ∈ (pv, n) :: qs, blockOf h' q.1 = blockOf h₁ q.1 := by
  obtain ⟨hblocks, -⟩ := hz.holds.payloads hz.allocated.payloads (List.Subset.refl _)
  exact List.map_inj_left.1 hblocks

theorem Zeroed.headerAddrs_eq : headerAddrs L h' (blocksOf h' ((pv, n) :: qs)) =
    headerAddrs L h₁ (blocksOf h₁ ((pv, n) :: qs)) := by
  have hblocks : blocksOf h' ((pv, n) :: qs) = blocksOf h₁ ((pv, n) :: qs) :=
    List.map_congr_left hz.blocks
  rw [hblocks, hz.holds.headerAddrs_eq, hz.allocated.holds.headerAddrs_eq]

theorem Zeroed.room : n.toNat ≤ (getBlockSize h' pv).toNat - 8 ∧
    (getBlockSize h' pv).toNat < 2 ^ 32 ∧
      payload h' pv ⊆ (blockOf h₁ pv).cells := by
  have hsize := congrArg Block.size (hz.blocks _ List.mem_cons_self)
  obtain ⟨hpay, hroom⟩ := hz.allocated.payloads _ List.mem_cons_self
  change (getBlockSize h' pv).toNat = (blockOf h₁ pv).size at hsize
  dsimp only at hpay hroom
  refine ⟨by omega, UInt32.toNat_lt _, fun x hx => ?_⟩
  obtain ⟨hlo, hhi⟩ := hx
  exact Block.mem_cells.2 (by omega)

theorem Zeroed.outside (hx : x ∉ payload h' pv) : h'.mem x = h₁.mem x := by
  have hsize := hz.room.1
  rw [hz.mem, zero_loop_apply _ hz.fits, if_neg]
  exact fun h => hx ⟨h.1, by omega⟩

theorem Zeroed.inside (hi : i < n.toNat) : h'.mem (pv.toNat + i) = 0 := by
  rw [hz.mem, zero_loop_apply _ hz.fits, if_pos]
  omega

end Zeroed

theorem HeapSound.calloc_iff (hs : HeapSound L h qs)
    (hret : pvPortCallocMicroROS L num size h = some (pv, h')) :
    ZeroAllocated L h qs num size pv h' ↔ num.toNat * size.toNat < 2 ^ 32 := by
  obtain ⟨h₁, free, hz⟩ := hs.zeroed hret
  obtain ⟨hroom, hsize, hcells⟩ := hz.room
  constructor
  · intro ha
    have hroom' := ha.room
    omega
  · intro hlt
    have hprod : (size * num).toNat = num.toNat * size.toNat := by
      rw [UInt32.toNat_mul, Nat.mul_comm, Nat.mod_eq_of_lt hlt]
    refine ⟨hprod ▸ hroom, fun i hi => hz.inside (hprod ▸ hi), ?_, ?_, ?_⟩
    · intro x hx hheaders
      rw [hz.headerAddrs_eq] at hheaders
      have hs' := hs.resched (h.uxSchedulerSuspended + 1)
      exact (hz.outside hx).trans (hs'.malloc_headers hz.malloc x hheaders)
    · intro h₂ hmalloc x hx
      obtain rfl := (Prod.mk.inj (Option.some.inj (hz.malloc.symm.trans hmalloc))).2
      exact hz.outside hx
    · intro q hq x hx
      have hout : x ∉ payload h' pv := fun hp =>
        Set.disjoint_left.1 (hz.allocated.apart hq) (hcells hp) (hz.allocated.block q hq ▸ hx)
      exact (hz.outside hout).trans (hz.allocated.same q hq x hx)

end Zeroing

/-- In a run whose reallocations are harmless, zero-allocation is right exactly if the product does
not wrap. -/
theorem zero_allocated_iff {L : HeapLayout} {m : Mem} {calls : List AllocatorCall} {r : RosRun}
    {num size pv : UInt32} {s : RosMemory} (h : RosRun.run L m calls = some r)
    (hm : AllMeet (RosRun.step L) (RosRun.Harmless L) (RosRun.start m) calls)
    (hret : microros_zero_allocate L num size r.memory = some (pv, s)) :
    ZeroAllocated L r.memory.heap r.live num size pv s.heap ↔
      num.toNat * size.toNat < 2 ^ 32 := by
  obtain ⟨h', hcalloc, rfl⟩ := microros_zero_allocate_cases hret
  exact (RosRun.run_sound h hm).calloc_iff hcalloc

/-- Three elements of four bytes. -/
theorem zero_allocated_twelve :
    ∃ pv s, microros_zero_allocate exampleLayout 3 4 (RosRun.start fun _ => 0).memory =
        some (pv, s) ∧
      (ZeroAllocated exampleLayout (RosRun.start fun _ => 0).memory.heap [] 3 4 pv s.heap ↔
        (3 : UInt32).toNat * (4 : UInt32).toNat < 2 ^ 32) := by
  have hsome : (microros_zero_allocate exampleLayout 3 4
      (RosRun.start fun _ => 0).memory).isSome = true := by decide +kernel
  obtain ⟨⟨pv, s⟩, hret⟩ := Option.isSome_iff_exists.1 hsome
  have hstart : RosRun.run exampleLayout (fun _ => 0) [] = some (RosRun.start fun _ => 0) := rfl
  exact ⟨pv, s, hret, zero_allocated_iff hstart trivial hret⟩

/-- A product of `2 ^ 32 + 2` bytes, of which two are handed out. -/
theorem zero_allocate_wraps :
    ¬∀ (L : HeapLayout) (m : Mem) (calls : List AllocatorCall) (r : RosRun)
      (num size pv : UInt32) (s : RosMemory), RosRun.run L m calls = some r →
        microros_zero_allocate L num size r.memory = some (pv, s) →
          ZeroAllocated L r.memory.heap r.live num size pv s.heap := by
  intro hall
  have hcheck : (microros_zero_allocate exampleLayout 0x80000001 2
      (RosRun.start fun _ => 0).memory).map (fun x => (getBlockSize x.2.heap x.1).toNat) =
        some 16 := by decide +kernel
  obtain ⟨⟨pv, s⟩, hret, hsize⟩ := Option.map_eq_some_iff.1 hcheck
  have hz := hall exampleLayout (fun _ => 0) [] _ 0x80000001 2 pv s rfl hret
  have hroom := hz.room
  rw [hsize] at hroom
  exact absurd hroom (by decide)

end RobotCar

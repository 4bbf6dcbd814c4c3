import RobotCar.MicroHeapRun

namespace RobotCar
open Memory Linked FreeList Words
set_option autoImplicit true

/-- `while(count--) *in_dest++ = *in_src++`. -/
def copy_loop (m : Mem) : Nat → UInt32 → UInt32 → Mem
  | 0, _, _ => m
  | count + 1, in_dest, in_src =>
    copy_loop (Function.update m in_dest.toNat (m in_src.toNat)) count (in_dest + 1) (in_src + 1)

/-- `while(count--) *in_dest++ = 0`. -/
def zero_loop (m : Mem) : Nat → UInt32 → Mem
  | 0, _ => m
  | count + 1, in_dest => zero_loop (Function.update m in_dest.toNat 0) count (in_dest + 1)

/-- The memory after the copy, of which the length is read when the new block is there. -/
def copyBlock (h : MicroHeap) (pv newmem : UInt32) : Mem :=
  copy_loop h.mem (getBlockSize h pv).toNat newmem pv

def pvPortReallocMicroROS (L : HeapLayout) (pv xWantedSize : UInt32) (h : MicroHeap) :
    Option (UInt32 × MicroHeap) := do
  let (newmem, h) ← pvPortMallocMicroROS L xWantedSize (vTaskSuspendAll h)
  let h ← vPortFreeMicroROS L pv { h with mem := copyBlock h pv newmem }
  some (newmem, xTaskResumeAll h)

def pvPortCallocMicroROS (L : HeapLayout) (num xWantedSize : UInt32) (h : MicroHeap) :
    Option (UInt32 × MicroHeap) := do
  let count := xWantedSize * num
  let (mem, h) ← pvPortMallocMicroROS L count (vTaskSuspendAll h)
  some (mem, xTaskResumeAll { h with mem := zero_loop h.mem count.toNat mem })

/-! ### What a reallocation promises -/

/-- Where the headers are: `xStart`, the end marker and the blocks. -/
def headerAddrs (L : HeapLayout) (h : MicroHeap) (live : List Block) : List Nat :=
  L.xStart.toNat :: h.pxEnd.toNat :: ((freeBlocks L h).getD [] ++ live).map Block.addr

/-- A byte that a copy from `pv` to `newmem` must leave alone: one of a header, or of a live block
other than these two. -/
def Kept (L : HeapLayout) (h : MicroHeap) (live : List (UInt32 × UInt32)) (pv newmem : UInt32)
    (x : Nat) : Prop :=
  (∃ p ∈ headerAddrs L h (blocksOf h live), p ≤ x ∧ x < p + 8) ∨
    ∃ q ∈ live, q.1 ≠ pv ∧ q.1 ≠ newmem ∧ x ∈ (blockOf h q.1).cells

/-- The payload `pv` of the live blocks has been moved to `newmem`. -/
structure Reallocated (L : HeapLayout) (h : MicroHeap) (live : List (UInt32 × UInt32))
    (pv n newmem : UInt32) (h' : MicroHeap) : Prop where
  copied : ∀ i < min ((blockOf h pv).size - 8) n.toNat,
    h'.mem (newmem.toNat + i) = h.mem (pv.toNat + i)
  /-- `pv` is not live any more -/
  released : ∃ free, freeBlocks L h' = some free ∧ (blockOf h pv).cells ⊆ cover free
  others : ∀ q ∈ live, q.1 ≠ pv → ∀ x ∈ (blockOf h q.1).cells, h'.mem x = h.mem x
  /-- between the allocation and the release, no header changes, and no other live block -/
  kept : ∀ h₁, pvPortMallocMicroROS L n (vTaskSuspendAll h) = some (newmem, h₁) →
    ∀ x, Kept L h₁ ((newmem, n) :: live) pv newmem x → copyBlock h₁ pv newmem x = h₁.mem x
  /-- the headers are those of an allocation and a release without the copy -/
  headers : ∀ h₁ h₂, pvPortMallocMicroROS L n (vTaskSuspendAll h) = some (newmem, h₁) →
    vPortFreeMicroROS L pv h₁ = some h₂ → freeBlocks L h' = freeBlocks L h₂ ∧
      ∀ p ∈ headerAddrs L h₂ (blocksOf h₂ ((newmem, n) :: live.eraseP fun q => q.1 = pv)),
        linkAt h'.mem p = linkAt h₂.mem p ∧ sizeAt h'.mem p = sizeAt h₂.mem p

/-- What the copy lays on a header or on another live block is what is there already. -/
def CopyHarmless (L : HeapLayout) (h : MicroHeap) (live : List (UInt32 × UInt32))
    (pv n : UInt32) : Prop :=
  ∀ newmem h₁, pvPortMallocMicroROS L n (vTaskSuspendAll h) = some (newmem, h₁) →
    ∀ k < getBlockSize h₁ pv, Kept L h₁ ((newmem, n) :: live) pv newmem (newmem + k).toNat →
      h₁.mem (newmem + k).toNat = h₁.mem (pv + k).toNat

/-! ### The loops -/

theorem copy_loop_outside {m : Mem} (count : Nat) {dest src : UInt32}
    (hx : ∀ k < count, (dest.toNat + k) % 2 ^ 32 ≠ x) : copy_loop m count dest src x = m x := by
  induction count generalizing m dest src with
  | zero => rfl
  | succ count ih =>
    have hlt := dest.toNat_lt
    have hne : x ≠ dest.toNat := by
      have h₀ := hx 0 (Nat.succ_pos count)
      omega
    rw [copy_loop, ih, Function.update_of_ne hne]
    intro k hk
    have hk' := hx (k + 1) (Nat.succ_lt_succ hk)
    rw [UInt32.toNat_add, UInt32.toNat_one]
    omega

theorem copy_loop_inside {m : Mem} (count : Nat) {dest src : UInt32} (hc : count ≤ 2 ^ 32)
    (happ : ∀ j k, j < k → k < count →
      (dest.toNat + j) % 2 ^ 32 ≠ (src.toNat + k) % 2 ^ 32) (hk : k < count) :
    copy_loop m count dest src ((dest.toNat + k) % 2 ^ 32) = m ((src.toNat + k) % 2 ^ 32) := by
  induction count generalizing m dest src k with
  | zero => exact absurd hk (Nat.not_lt_zero k)
  | succ count ih =>
    have hd := dest.toNat_lt
    have hs := src.toNat_lt
    have hd₁ : (dest + 1).toNat = (dest.toNat + 1) % 2 ^ 32 := by
      rw [UInt32.toNat_add, UInt32.toNat_one]
    have hs₁ : (src + 1).toNat = (src.toNat + 1) % 2 ^ 32 := by
      rw [UInt32.toNat_add, UInt32.toNat_one]
    rw [copy_loop]
    cases k with
    | zero =>
      have hd₀ : (dest.toNat + 0) % 2 ^ 32 = dest.toNat := Nat.mod_eq_of_lt hd
      have hs₀ : (src.toNat + 0) % 2 ^ 32 = src.toNat := Nat.mod_eq_of_lt hs
      rw [hd₀, hs₀, copy_loop_outside, Function.update_self]
      intro k hk
      omega
    | succ k =>
      have hdk : (dest.toNat + (k + 1)) % 2 ^ 32 = ((dest + 1).toNat + k) % 2 ^ 32 := by omega
      have hsk : (src.toNat + (k + 1)) % 2 ^ 32 = ((src + 1).toNat + k) % 2 ^ 32 := by omega
      have hne : ((src + 1).toNat + k) % 2 ^ 32 ≠ dest.toNat := by
        have h₀ := happ 0 (k + 1) (Nat.succ_pos k) hk
        omega
      have happ' : ∀ i j, i < j → j < count →
          ((dest + 1).toNat + i) % 2 ^ 32 ≠ ((src + 1).toNat + j) % 2 ^ 32 := by
        intro i j hij hj
        have h₁ := happ (i + 1) (j + 1) (Nat.succ_lt_succ hij) (Nat.succ_lt_succ hj)
        omega
      rw [hdk, hsk, ih (Nat.le_of_succ_le hc) happ' (Nat.lt_of_succ_lt_succ hk),
        Function.update_of_ne hne]

section Calls
variable {L : HeapLayout} {h h' h₁ : MicroHeap} {free live : List Block}
  {qs : List (UInt32 × UInt32)} {pv n newmem : UInt32}

/-! ### Allocation -/

/-- The heap before the first allocation, or with these live payloads. -/
def HeapSound (L : HeapLayout) (h : MicroHeap) (qs : List (UInt32 × UInt32)) : Prop :=
  (h.pxEnd = 0 ∧ qs = []) ∨ ∃ free, HeapHolds L h free (blocksOf h qs) ∧ Payloads h qs

theorem HeapSound.resched (hs : HeapSound L h qs) (k : UInt32) :
    HeapSound L { h with uxSchedulerSuspended := k } qs := by
  rcases hs with hs | ⟨free, hh, hp⟩
  · exact .inl hs
  · exact .inr ⟨free, hh.resched k, hp⟩

theorem HeapSound.of_mem (hs : HeapSound L h qs) (hq : ∃ q ∈ qs, q.1 = pv) :
    ∃ free, HeapHolds L h free (blocksOf h qs) ∧ Payloads h qs := by
  rcases hs with ⟨-, rfl⟩ | hs
  · obtain ⟨q, hq, -⟩ := hq
    exact absurd hq List.not_mem_nil
  · exact hs

/-- A payload has been handed out, and the others are as they were. -/
structure Allocated (L : HeapLayout) (h : MicroHeap) (qs : List (UInt32 × UInt32))
    (n pv : UInt32) (h' : MicroHeap) (free : List Block) : Prop where
  holds : HeapHolds L h' free (blocksOf h' ((pv, n) :: qs))
  payloads : Payloads h' ((pv, n) :: qs)
  block : ∀ q ∈ qs, blockOf h' q.1 = blockOf h q.1
  same : ∀ q ∈ qs, ∀ x ∈ (blockOf h q.1).cells, h'.mem x = h.mem x

theorem HeapSound.malloc (hs : HeapSound L h qs)
    (hret : pvPortMallocMicroROS L n h = some (pv, h')) :
    ∃ free, Allocated L h qs n pv h' free := by
  rcases hs with ⟨he, rfl⟩ | ⟨free, hh, hp⟩
  · have hnone : Payloads h [] := List.forall_mem_nil _
    have hinit := (prvHeapInit_holds L (vTaskSuspendAll h)).1
    obtain ⟨free', hh', hp', -⟩ := malloc_payloads hinit hnone (allocate_first n he) hret
    exact ⟨free', hh', hp', List.forall_mem_nil _, List.forall_mem_nil _⟩
  · obtain ⟨free', hh', hp', -, hblocks, hsame⟩ :=
      malloc_payloads (hh.resched (h.uxSchedulerSuspended + 1)) hp rfl hret
    exact ⟨free', hh', hp', List.map_inj_left.1 hblocks, fun q hq => hsame _ (blockOf_mem hq)⟩

theorem Allocated.sound (ha : Allocated L h qs n pv h' free) : HeapSound L h' ((pv, n) :: qs) :=
  .inr ⟨free, ha.holds, ha.payloads⟩

theorem Allocated.apart (ha : Allocated L h qs n newmem h' free) (hq : q ∈ qs) :
    Disjoint (blockOf h' newmem).cells (blockOf h' q.1).cells := by
  have hapart := ha.holds.apart
  rw [blocksOf, List.map_cons, List.pairwise_cons] at hapart
  exact hapart.1 _ (blockOf_mem hq)

theorem Allocated.placed (ha : Allocated L h qs n newmem h' free)
    (hq : q ∈ (newmem, n) :: qs) : Placed L (blockOf h' q.1) :=
  ha.holds.placed _ (List.mem_append_right _ (blockOf_mem hq))

theorem Allocated.fits (ha : Allocated L h qs n newmem h' free) :
    newmem.toNat + n.toNat < 2 ^ 32 := by
  obtain ⟨hpay, hroom⟩ := ha.payloads _ List.mem_cons_self
  have hhi := (ha.placed List.mem_cons_self).hi
  have hfin := L.finish_lt
  dsimp only at hpay hroom hhi
  omega

theorem Allocated.ne (ha : Allocated L h qs n newmem h' free) (hq : q ∈ qs) : q.1 ≠ newmem := by
  intro he
  have hd := ha.apart hq
  have hpos := (ha.placed List.mem_cons_self).pos
  rw [he] at hd
  exact Set.disjoint_left.1 hd (Block.addr_mem_cells hpos) (Block.addr_mem_cells hpos)

/-! ### The copy -/

/-- The copy reads no byte that it has written: it goes upwards, and either lies below the old
block or begins behind it. -/
theorem Allocated.copy_apart (ha : Allocated L h qs n newmem h' free) (hq : q ∈ qs) {j k : Nat}
    (hjk : j < k) (hk : k < (blockOf h' q.1).size) :
    (newmem.toNat + j) % 2 ^ 32 ≠ (q.1.toNat + k) % 2 ^ 32 := by
  have hfin := L.finish_lt
  have hnew := ha.placed List.mem_cons_self
  have hold := ha.placed (List.mem_cons_of_mem _ hq)
  have hd := (Block.disjoint_iff hnew.pos hold.pos).1 (ha.apart hq)
  obtain ⟨hn, -⟩ := ha.payloads _ List.mem_cons_self
  obtain ⟨ho, -⟩ := ha.payloads _ (List.mem_cons_of_mem _ hq)
  have h₁ := hnew.hi
  have h₂ := hold.hi
  dsimp only at hn h₁ hd
  omega

theorem Allocated.copy_inside (ha : Allocated L h qs n newmem h' free) (hq : q ∈ qs) {k : Nat}
    (hk : k < (blockOf h' q.1).size) :
    copyBlock h' q.1 newmem ((newmem.toNat + k) % 2 ^ 32) =
      h'.mem ((q.1.toNat + k) % 2 ^ 32) := by
  have hold := ha.placed (List.mem_cons_of_mem _ hq)
  have hfin := L.finish_lt
  have hhi := hold.hi
  exact copy_loop_inside _ (by change (blockOf h' q.1).size ≤ _; omega)
    (fun j k => ha.copy_apart hq) hk

theorem Allocated.payload_mem (ha : Allocated L h qs n newmem h' free)
    (hq : q ∈ (newmem, n) :: qs) (hi : i < q.2.toNat) :
    q.1.toNat + i ∈ (blockOf h' q.1).cells := by
  obtain ⟨hp, hroom⟩ := ha.payloads q hq
  exact Block.mem_cells.2 (by omega)

theorem Allocated.copy_payload (ha : Allocated L h qs n newmem h' free) (hq : q ∈ qs)
    (hi : i + 8 < (blockOf h q.1).size) (hn : i < n.toNat) :
    copyBlock h' q.1 newmem (newmem.toNat + i) = h.mem (q.1.toNat + i) := by
  have hq' := List.mem_cons_of_mem (newmem, n) hq
  have hfin := L.finish_lt
  obtain ⟨hnew, hroom⟩ := ha.payloads _ List.mem_cons_self
  obtain ⟨hpay, -⟩ := ha.payloads _ hq'
  have hhi := (ha.placed List.mem_cons_self).hi
  have hhi' := (ha.placed hq').hi
  dsimp only at hnew hroom hhi
  rw [← ha.block q hq] at hi
  have hin : q.1.toNat + i ∈ (blockOf h' q.1).cells := Block.mem_cells.2 (by omega)
  have hcopy := ha.copy_inside hq (Nat.lt_of_le_of_lt (Nat.le_add_right i 8) hi)
  rw [Nat.mod_eq_of_lt (by omega), Nat.mod_eq_of_lt (by omega)] at hcopy
  rw [hcopy, ha.same q hq _ (ha.block q hq ▸ hin)]

theorem HeapHolds.headerAddrs_eq (hh : HeapHolds L h free live) :
    headerAddrs L h live = L.xStart.toNat :: L.finish :: (free ++ live).map Block.addr := by
  rw [headerAddrs, hh.freeBlocks_eq, hh.pxEnd]
  rfl

theorem Allocated.not_kept (ha : Allocated L h qs n newmem h' free) (hlo : newmem.toNat ≤ x)
    (hhi : x < (blockOf h' newmem).addr + (blockOf h' newmem).size) :
    ¬Kept L h' ((newmem, n) :: qs) pv newmem x := by
  have hb := blockOf_mem (h := h') (List.mem_cons_self (a := (newmem, n)) (l := qs))
  obtain ⟨hpay, -⟩ := ha.payloads _ List.mem_cons_self
  dsimp only at hb hpay
  have hlo' : (blockOf h' newmem).addr + 8 ≤ x := by omega
  rintro (⟨p, hp, h₁, h₂⟩ | ⟨q, hq, -, hne, hx⟩)
  · rw [ha.holds.headerAddrs_eq] at hp
    have hne := ha.holds.payload_apart hb hlo' hhi p hp
    omega
  · rcases List.mem_cons.1 hq with rfl | hq
    · exact hne rfl
    · exact Set.disjoint_left.1 (ha.apart hq) (Block.mem_cells.2 ⟨by omega, hhi⟩) hx

/-- The copy leaves these bytes alone exactly if it writes there what is there. -/
theorem Allocated.copy_keeps_iff (ha : Allocated L h qs n newmem h' free) (hq : q ∈ qs)
    (P : Nat → Prop) :
    (∀ x, P x → copyBlock h' q.1 newmem x = h'.mem x) ↔
      ∀ k < getBlockSize h' q.1, P (newmem + k).toNat →
        h'.mem (newmem + k).toNat = h'.mem (q.1 + k).toNat := by
  constructor
  · intro hall k hk hP
    have hin := ha.copy_inside hq (UInt32.lt_iff_toNat_lt.1 hk)
    rw [← UInt32.toNat_add, ← UInt32.toNat_add] at hin
    exact (hall _ hP).symm.trans hin
  · intro hall x hP
    by_cases hx : ∃ k < (getBlockSize h' q.1).toNat, (newmem.toNat + k) % 2 ^ 32 = x
    · obtain ⟨k, hk, rfl⟩ := hx
      have hk32 : k < 2 ^ 32 := hk.trans (UInt32.toNat_lt _)
      have hof : (UInt32.ofNat k).toNat = k := UInt32.toNat_ofNat_of_lt' hk32
      have heq := hall (UInt32.ofNat k) (UInt32.lt_iff_toNat_lt.2 (hof.symm ▸ hk))
      rw [UInt32.toNat_add, UInt32.toNat_add, hof] at heq
      exact (ha.copy_inside hq hk).trans (heq hP).symm
    · exact copy_loop_outside _ fun k hk he => hx ⟨k, hk, he⟩

/-! ### Reallocation -/

theorem Allocated.copied (ha : Allocated L h qs n newmem h₁ free)
    (hkept : ∀ x, Kept L h₁ ((newmem, n) :: qs) pv newmem x →
      copyBlock h₁ pv newmem x = h₁.mem x) :
    HeapHolds L { h₁ with mem := copyBlock h₁ pv newmem } free
        (blocksOf h₁ ((newmem, n) :: qs)) := by
  apply ha.holds.same_headers
  intro p hp x h₁ h₂
  apply hkept
  rw [← ha.holds.headerAddrs_eq] at hp
  exact .inl ⟨p, hp, h₁, h₂⟩

/-- After the release of `pv`, with or without a copy before it. -/
structure Released (L : HeapLayout) (h : MicroHeap) (qs : List (UInt32 × UInt32))
    (pv : UInt32) (h' : MicroHeap) (free : List Block) : Prop where
  holds : HeapHolds L h' (insertBlock (blockOf h pv) free)
    (blocksOf h' (qs.eraseP fun q => q.1 = pv))
  payloads : Payloads h' (qs.eraseP fun q => q.1 = pv)
  block : ∀ q ∈ qs.eraseP fun q => q.1 = pv, blockOf h' q.1 = blockOf h q.1
  same : ∀ q ∈ qs, q.1 ≠ pv → ∀ x ∈ (blockOf h q.1).cells, h'.mem x = h.mem x

theorem free_released {h' : MicroHeap} (hh : HeapHolds L h free (blocksOf h qs))
    (hp : Payloads h qs) (hq : ∃ q ∈ qs, q.1 = pv) (hret : vPortFreeMicroROS L pv h = some h') :
    Released L h qs pv h' free := by
  obtain ⟨hh', hp', -, hblocks, hsame⟩ := free_payloads hh hp hq hret
  refine ⟨hh', hp', List.map_inj_left.1 hblocks, fun q hq hne => hsame _ (blockOf_mem ?_)⟩
  rw [List.mem_eraseP_of_neg]
  · exact hq
  · simpa using hne

theorem realloc_cases (hret : pvPortReallocMicroROS L pv n h = some (newmem, h')) :
    ∃ h₁ h₂, pvPortMallocMicroROS L n (vTaskSuspendAll h) = some (newmem, h₁) ∧
      vPortFreeMicroROS L pv { h₁ with mem := copyBlock h₁ pv newmem } = some h₂ ∧
      h' = xTaskResumeAll h₂ := by
  rw [pvPortReallocMicroROS] at hret
  obtain ⟨⟨p, h₁⟩, hmalloc, hret⟩ := Option.bind_eq_some_iff.1 hret
  obtain ⟨h₂, hfree, hret⟩ := Option.bind_eq_some_iff.1 hret
  obtain ⟨rfl, rfl⟩ := Prod.mk.inj (Option.some.inj hret)
  exact ⟨h₁, h₂, hmalloc, hfree, rfl⟩

theorem Allocated.release (ha : Allocated L h qs n newmem h₁ free) (hq : ∃ q ∈ qs, q.1 = pv)
    (hkept : ∀ x, Kept L h₁ ((newmem, n) :: qs) pv newmem x →
      copyBlock h₁ pv newmem x = h₁.mem x)
    (hfree : vPortFreeMicroROS L pv { h₁ with mem := copyBlock h₁ pv newmem } = some h') :
    ∃ g, g.mem = copyBlock h₁ pv newmem ∧ Released L g ((newmem, n) :: qs) pv h' free ∧
      ∀ q ∈ (newmem, n) :: qs, blockOf g q.1 = blockOf h₁ q.1 := by
  have hh := ha.copied hkept
  obtain ⟨hblocks, hp⟩ := hh.payloads ha.payloads (List.Subset.refl _)
  obtain ⟨q, hq, hqp⟩ := hq
  exact ⟨_, rfl, free_released (hblocks ▸ hh) hp ⟨q, List.mem_cons_of_mem _ hq, hqp⟩ hfree,
    List.map_inj_left.1 hblocks⟩

theorem Allocated.eraseP (ha : Allocated L h qs n newmem h₁ free) (hq : q ∈ qs) :
    ((newmem, n) :: qs).eraseP (fun p => p.1 = q.1) =
      (newmem, n) :: qs.eraseP fun p => p.1 = q.1 := by
  rw [List.eraseP_cons_of_neg]
  simpa using Ne.symm (ha.ne hq)

theorem HeapSound.realloc (hs : HeapSound L h qs) (hq : ∃ q ∈ qs, q.1 = pv)
    (hret : pvPortReallocMicroROS L pv n h = some (newmem, h'))
    (hharm : CopyHarmless L h qs pv n) :
    Reallocated L h qs pv n newmem h' ∧
      HeapSound L h' ((newmem, n) :: qs.eraseP fun q => q.1 = pv) := by
  obtain ⟨h₁, h₂, hmalloc, hfree, rfl⟩ := realloc_cases hret
  obtain ⟨free, ha⟩ := (hs.resched (h.uxSchedulerSuspended + 1)).malloc hmalloc
  have hex := hq
  obtain ⟨⟨p, k⟩, hq, rfl⟩ := hq
  have hkept := (ha.copy_keeps_iff hq (Kept L h₁ ((newmem, n) :: qs) p newmem)).2
    (hharm newmem h₁ hmalloc)
  obtain ⟨g, hmem, hr, hblock⟩ := ha.release hex hkept hfree
  have hq' := List.mem_cons_of_mem (newmem, n) hq
  have hold : blockOf g p = blockOf h p := (hblock _ hq').trans (ha.block _ hq)
  have herase := ha.eraseP hq
  have hholds := (hr.holds.resched (h₂.uxSchedulerSuspended - 1))
  refine ⟨⟨?_, ?_, ?_, ?_, ?_⟩, ?_⟩
  · intro i hi
    obtain ⟨hold', hnew'⟩ := Nat.lt_min.1 hi
    have hkeep := hr.same (newmem, n) List.mem_cons_self (Ne.symm (ha.ne hq)) (newmem.toNat + i)
      (hblock _ List.mem_cons_self ▸ ha.payload_mem List.mem_cons_self hnew')
    have hcopy := ha.copy_payload hq (Nat.add_lt_of_lt_sub hold') hnew'
    exact hkeep.trans ((congrFun hmem _).trans hcopy)
  · refine ⟨_, hholds.freeBlocks_eq, ?_⟩
    rw [cover_insert, hold]
    exact Set.subset_union_left
  · intro q hmem' hne x hx
    have hq := List.mem_cons_of_mem (newmem, n) hmem'
    have hx' : x ∈ (blockOf h₁ q.1).cells := ha.block q hmem' ▸ hx
    have h₂ := hr.same q hq hne x (hblock q hq ▸ hx')
    have h₁ := hkept x (.inr ⟨q, hq, hne, ha.ne hmem', hx'⟩)
    exact h₂.trans ((congrFun hmem x).trans (h₁.trans (ha.same q hmem' x hx)))
  · intro h₁' hmalloc'
    obtain rfl := (Prod.mk.inj (Option.some.inj (hmalloc.symm.trans hmalloc'))).2
    exact hkept
  · intro h₁' h₃ hmalloc' hfree'
    obtain rfl := (Prod.mk.inj (Option.some.inj (hmalloc.symm.trans hmalloc'))).2
    obtain ⟨q, hq'', hqp⟩ := hex
    have hr' := free_released ha.holds ha.payloads ⟨q, List.mem_cons_of_mem _ hq'', hqp⟩ hfree'
    have hblocks : blocksOf h₃ (((newmem, n) :: qs).eraseP fun q => q.1 = p) =
        blocksOf h₂ (((newmem, n) :: qs).eraseP fun q => q.1 = p) := by
      apply List.map_congr_left
      intro q hq
      rw [hr.block q hq, hr'.block q hq, hblock q (List.mem_of_mem_eraseP hq)]
    have hholds' := hr'.holds
    rw [hblocks, ← hblock _ hq'] at hholds'
    rw [← herase, hblocks, hholds'.headerAddrs_eq]
    exact ⟨hholds.freeBlocks_eq.trans hholds'.freeBlocks_eq.symm, hholds'.headers_eq hholds⟩
  · rw [← herase]
    exact .inr ⟨_, hholds, hr.payloads⟩

/-- The copy is the only thing that can go wrong. -/
theorem HeapSound.realloc_iff (hs : HeapSound L h qs) (hq : ∃ q ∈ qs, q.1 = pv)
    (hret : pvPortReallocMicroROS L pv n h = some (newmem, h')) :
    Reallocated L h qs pv n newmem h' ↔ CopyHarmless L h qs pv n := by
  constructor
  · intro hr p h₁ hmalloc
    obtain ⟨h₁', h₂, hmalloc', -⟩ := realloc_cases hret
    obtain ⟨rfl, rfl⟩ := Prod.mk.inj (Option.some.inj (hmalloc'.symm.trans hmalloc))
    obtain ⟨free, ha⟩ := (hs.resched (h.uxSchedulerSuspended + 1)).malloc hmalloc
    obtain ⟨q, hq, rfl⟩ := hq
    exact (ha.copy_keeps_iff hq _).1 (hr.kept h₁' hmalloc)
  · exact fun hharm => (hs.realloc hq hret hharm).1

theorem HeapSound.copyHarmless (hs : HeapSound L h qs) (hq : ∃ q ∈ qs, q.1 = pv)
    (hsize : (blockOf h pv).size + 8 ≤ blockBytes n.toNat) : CopyHarmless L h qs pv n := by
  intro newmem h₁ hmalloc k hk hkept
  obtain ⟨free, ha⟩ := (hs.resched (h.uxSchedulerSuspended + 1)).malloc hmalloc
  obtain ⟨q, hq, rfl⟩ := hq
  have hnew := ha.placed List.mem_cons_self
  obtain ⟨hpay, hroom⟩ := ha.payloads _ List.mem_cons_self
  have hk' : k.toNat < (blockOf h q.1).size := by
    rw [← show blockOf h₁ q.1 = blockOf h q.1 from ha.block q hq]
    exact UInt32.lt_iff_toNat_lt.1 hk
  have hmod := hnew.size_mod
  have hhi := hnew.hi
  have hfin := L.finish_lt
  rw [blockBytes] at hsize
  dsimp only at hpay hroom hmod hhi
  have hin : (newmem + k).toNat = newmem.toNat + k.toNat := toNat_add_of_lt (by omega)
  exact absurd hkept (ha.not_kept (by omega) (by omega))

/-! ### The other functions -/

theorem zero_loop_payloads (count : Nat) (dest : UInt32)
    (hh : HeapHolds L h free (blocksOf h qs)) (hp : Payloads h qs) (hq : q ∈ qs)
    (hlo : q.1.toNat ≤ dest.toNat) (hhi : dest.toNat + count ≤ q.1.toNat + q.2.toNat)
    (hfit : q.1.toNat + q.2.toNat < 2 ^ 32) :
    HeapSound L { h with mem := zero_loop h.mem count dest } qs := by
  induction count generalizing h dest with
  | zero => exact .inr ⟨free, hh, hp⟩
  | succ count ih =>
    have hdest : (dest + 1).toNat = dest.toNat + 1 := by
      rw [UInt32.toNat_add, UInt32.toNat_one]
      omega
    obtain ⟨hh', hp'⟩ := write_payloads hh hp ⟨q, hq, hlo, by omega⟩ 0
    exact ih (dest + 1) hh' hp' (by omega) (by omega)

theorem pvPortCallocMicroROS_cases (hret : pvPortCallocMicroROS L num n h = some (pv, h')) :
    ∃ h₁, pvPortMallocMicroROS L (n * num) (vTaskSuspendAll h) = some (pv, h₁) ∧
      h' = xTaskResumeAll { h₁ with mem := zero_loop h₁.mem (n * num).toNat pv } := by
  rw [pvPortCallocMicroROS] at hret
  obtain ⟨⟨p, h₁⟩, hmalloc, hret⟩ := Option.bind_eq_some_iff.1 hret
  obtain ⟨rfl, rfl⟩ := Prod.mk.inj (Option.some.inj hret)
  exact ⟨h₁, hmalloc, rfl⟩

theorem HeapSound.calloc (hs : HeapSound L h qs)
    (hret : pvPortCallocMicroROS L num n h = some (pv, h')) :
    HeapSound L h' ((pv, n * num) :: qs) := by
  obtain ⟨h₁, hmalloc, rfl⟩ := pvPortCallocMicroROS_cases hret
  obtain ⟨free, ha⟩ := (hs.resched (h.uxSchedulerSuspended + 1)).malloc hmalloc
  have hzero := zero_loop_payloads (n * num).toNat pv ha.holds ha.payloads List.mem_cons_self
    le_rfl le_rfl ha.fits
  exact hzero.resched _

theorem HeapSound.eraseP_zero (hs : HeapSound L h qs) : qs.eraseP (fun q => q.1 = 0) = qs := by
  apply List.eraseP_of_forall_not
  intro q hq hz
  obtain ⟨free, -, hp⟩ := hs.of_mem ⟨q, hq, rfl⟩
  have hpay := (hp q hq).1
  rw [of_decide_eq_true hz, UInt32.toNat_zero] at hpay
  omega

theorem HeapSound.release (hs : HeapSound L h qs) (hq : pv = 0 ∨ ∃ q ∈ qs, q.1 = pv)
    (hret : vPortFreeMicroROS L pv h = some h') :
    HeapSound L h' (qs.eraseP fun q => q.1 = pv) := by
  rcases hq with rfl | hq
  · obtain rfl : h' = h := Option.some.inj (hret.symm.trans rfl)
    rw [hs.eraseP_zero]
    exact hs
  · obtain ⟨free, hh, hp⟩ := hs.of_mem hq
    have hr := free_released hh hp hq hret
    exact .inr ⟨_, hr.holds, hr.payloads⟩

theorem HeapSound.write (hs : HeapSound L h qs)
    (hq : ∃ q ∈ qs, q.1.toNat ≤ a ∧ a < q.1.toNat + q.2.toNat) (v : UInt8) :
    HeapSound L { h with mem := Function.update h.mem a v } qs := by
  obtain ⟨q, hmem, hin⟩ := hq
  obtain ⟨free, hh, hp⟩ := hs.of_mem ⟨q, hmem, rfl⟩
  exact .inr ⟨free, write_payloads hh hp ⟨q, hmem, hin⟩ v⟩

end Calls

end RobotCar

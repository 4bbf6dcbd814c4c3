import RobotCar.Lib.Transition
import RobotCar.MicroHeapCalls

namespace RobotCar
open Memory Linked FreeList Words
set_option autoImplicit true

/-- What a program does with the heap. -/
inductive HeapCall where
  | malloc (xWantedSize : UInt32)
  | free (pv : UInt32)
  /-- a byte of a live payload is written -/
  | write (a : Nat) (v : UInt8)
  deriving DecidableEq

def freeBlocks_loop (m : Mem) (pxEnd : UInt32) : Nat → UInt32 → Option (List Block)
  | 0, _ => none
  | fuel + 1, p =>
    if p = pxEnd then some []
    else do
      let l ← freeBlocks_loop m pxEnd fuel (pxNextFreeBlock m p)
      some (⟨p.toNat, (xBlockSize m p).toNat⟩ :: l)

/-- The blocks that are found by following the free list to `pxEnd`. -/
def freeBlocks (L : HeapLayout) (h : MicroHeap) : Option (List Block) :=
  freeBlocks_loop h.mem h.pxEnd configTOTAL_HEAP_SIZE.toNat (pxNextFreeBlock h.mem L.xStart)

/-- The block around a payload. -/
def blockOf (h : MicroHeap) (pv : UInt32) : Block := ⟨pv.toNat - 8, (getBlockSize h pv).toNat⟩

/-- The blocks around payloads, given with the sizes that were asked for. -/
def blocksOf (h : MicroHeap) (qs : List (UInt32 × UInt32)) : List Block :=
  qs.map fun q => blockOf h q.1

/-- The heap, with what the calls have done so far. -/
structure HeapRun where
  heap : MicroHeap
  /-- the live payloads and the sizes that were asked for -/
  live : List (UInt32 × UInt32) := []
  /-- the bytes of the free list after each call, the last call first -/
  sums : List Nat := []

namespace HeapRun

def liveBlocks (r : HeapRun) : List Block := blocksOf r.heap r.live

def record (L : HeapLayout) (r : HeapRun) : HeapRun :=
  if r.heap.pxEnd = 0 then r
  else
    match freeBlocks L r.heap with
    | some free => { r with sums := bytes free :: r.sums }
    | none => r

/-- Only live payloads are written and released. -/
def step (L : HeapLayout) (r : HeapRun) : HeapCall → Option HeapRun
  | .malloc xWantedSize => do
    let (pv, h) ← pvPortMallocMicroROS L xWantedSize r.heap
    some (record L { r with heap := h, live := (pv, xWantedSize) :: r.live })
  | .free pv =>
    if pv = 0 ∨ ∃ q ∈ r.live, q.1 = pv then do
      let h ← vPortFreeMicroROS L pv r.heap
      some (record L { r with heap := h, live := r.live.eraseP fun q => q.1 = pv })
    else none
  | .write a v =>
    if ∃ q ∈ r.live, q.1.toNat ≤ a ∧ a < q.1.toNat + q.2.toNat then
      some { r with heap.mem := Function.update r.heap.mem a v }
    else none

def run (L : HeapLayout) (m : Mem) (calls : List HeapCall) : Option HeapRun :=
  calls.foldlM (step L) { heap := { mem := m } }

end HeapRun

/-- The blocks of the free list and the live blocks tile the heap. -/
structure HeapTiled (L : HeapLayout) (r : HeapRun) (free : List Block) : Prop where
  list : freeBlocks L r.heap = some free
  increasing : free.Pairwise fun b c => b.addr < c.addr
  gaps : ∀ b ∈ free, ∀ c ∈ free, b.addr + b.size ≠ c.addr
  disjoint : (free ++ r.liveBlocks).Pairwise fun b c => Disjoint b.cells c.cells
  tiled : cover (free ++ r.liveBlocks) = Set.Ico L.start r.heap.pxEnd.toNat
  remaining : r.heap.xFreeBytesRemaining.toNat = bytes free
  minimum : IsLeast {n | n ∈ r.sums} r.heap.xMinimumEverFreeBytesRemaining.toNat
  payload : ∀ q ∈ r.live, q.1.toNat % 8 = 0 ∧ q.2.toNat + 8 ≤ (getBlockSize r.heap q.1).toNat
  whole : r.live = [] → free = [⟨L.start, r.heap.pxEnd.toNat - L.start⟩]

section Run
variable {L : HeapLayout} {h : MicroHeap} {r r' : HeapRun} {free live : List Block}

/-! ### The payloads are apart from the headers -/

theorem HeapHolds.payload_apart (hh : HeapHolds L h free live) (hb : b ∈ live)
    (hlo : b.addr + 8 ≤ a) (hhi : a < b.addr + b.size) :
    ∀ p ∈ L.xStart.toNat :: L.finish :: (free ++ live).map Block.addr, a < p ∨ p + 8 ≤ a := by
  have hpb := hh.placed b (List.mem_append_right _ hb)
  have hab : a ∈ b.cells := Block.mem_cells.2 ⟨by omega, hhi⟩
  have hout (c : Block) (hc : Placed L c) (hac : a ∉ c.cells) : a < c.addr ∨ c.addr + 8 ≤ a := by
    have hge := hc.size_ge
    rw [Block.mem_cells] at hac
    omega
  intro p hp
  rcases List.mem_cons.1 hp with rfl | hp
  · have hx := L.xStart_apart (p := a) (by have h := hpb.lo; omega) (by have h := hpb.hi; omega)
    omega
  rcases List.mem_cons.1 hp with rfl | hp
  · have h := hpb.hi
    omega
  obtain ⟨c, hc, rfl⟩ := List.mem_map.1 hp
  have hpc := hh.placed c hc
  rcases List.mem_append.1 hc with hc | hc
  · exact hout c hpc (Set.disjoint_left.1 ((hh.apart_free b hb).mono_right
      (cells_subset_cover hc)) hab)
  obtain ⟨l₁, l₂, rfl⟩ := List.append_of_mem hb
  rcases List.mem_append.1 hc with hc | hc
  · exact hout c hpc (Set.disjoint_left.1 (hh.others c (List.mem_append_left _ hc)) hab)
  rcases List.mem_cons.1 hc with rfl | hc
  · exact .inr hlo
  · exact hout c hpc (Set.disjoint_left.1 (hh.others c (List.mem_append_right _ hc)) hab)

theorem HeapHolds.write (hh : HeapHolds L h free live) (hb : b ∈ live) (hlo : b.addr + 8 ≤ a)
    (hhi : a < b.addr + b.size) (v : UInt8) :
    HeapHolds L { h with mem := Function.update h.mem a v } free live := by
  apply hh.same_headers
  intro p hp x h₁ h₂
  have hne := hh.payload_apart hb hlo hhi p hp
  have hxa : x ≠ a := by omega
  exact Function.update_of_ne hxa v h.mem

/-! ### What the program sees -/

theorem freeBlocks_loop_eq {m : Mem} {pxEnd : UInt32} (fuel : Nat) (p : UInt32)
    (hchain : Chain (linkAt m) p.toNat (free.map Block.addr) L.finish)
    (hsizes : ∀ c ∈ free, sizeAt m c.addr = c.size) (hplaced : ∀ c ∈ free, Placed L c)
    (hend : pxEnd.toNat = L.finish) (hfuel : free.length < fuel) :
    freeBlocks_loop m pxEnd fuel p = some free := by
  induction free generalizing p fuel with
  | nil =>
    obtain ⟨fuel, rfl⟩ := Nat.exists_eq_add_of_lt hfuel
    have hp : p.toNat = L.finish := hchain
    exact if_pos (UInt32.toNat_inj.1 (hp.trans hend.symm))
  | cons c l ih =>
    obtain ⟨fuel, rfl⟩ := Nat.exists_eq_add_of_lt hfuel
    obtain ⟨hp, hrest⟩ := hchain
    obtain ⟨hc, hl⟩ := List.forall_mem_cons.1 hsizes
    obtain ⟨hpc, hpl⟩ := List.forall_mem_cons.1 hplaced
    have hne : p ≠ pxEnd := by
      intro he
      have hlt := hpc.lt_finish
      rw [← hp, he, hend] at hlt
      exact lt_irrefl _ hlt
    have hnext : (pxNextFreeBlock m p).toNat = linkAt m c.addr := by
      rw [toNat_pxNextFreeBlock, hp]
    have hrec := ih (l.length + 1 + fuel) (pxNextFreeBlock m p) (hnext ▸ hrest) hl hpl (by omega)
    have hblock : Block.mk p.toNat (xBlockSize m p).toNat = c := by
      rw [toNat_xBlockSize, hp, hc]
    rw [List.length_cons, Nat.add_zero, freeBlocks_loop, if_neg hne, hrec, hblock]
    rfl

theorem HeapHolds.freeBlocks_eq (hh : HeapHolds L h free live) : freeBlocks L h = some free := by
  have hplaced : ∀ c ∈ free, Placed L c := fun c hc => hh.placed c (List.mem_append_left _ hc)
  exact freeBlocks_loop_eq _ _ hh.list.chain.2 hh.list.sizes hplaced hh.pxEnd
    (free_length_lt hh.canonical (sited_of_placed hplaced))

theorem HeapHolds.blockOf_eq (hh : HeapHolds L h free live) (hb : b ∈ live) {pv : UInt32}
    (hp : pv.toNat = b.addr + 8) : blockOf h pv = b := by
  obtain ⟨-, -, -, hsize⟩ := Marked.header hh hb hp
  rw [blockOf, hsize, hp]
  rfl

/-! ### Runs -/

/-- The payloads of the live blocks, with the sizes that were asked for. -/
def Payloads (h : MicroHeap) (qs : List (UInt32 × UInt32)) : Prop :=
  ∀ q ∈ qs, q.1.toNat = (blockOf h q.1).addr + 8 ∧ q.2.toNat + 8 ≤ (blockOf h q.1).size

/-- The invariant of the runs in which there has been an allocation. -/
structure HeapRun.Holds (L : HeapLayout) (r : HeapRun) (free : List Block) : Prop where
  heap : HeapHolds L r.heap free r.liveBlocks
  payloads : Payloads r.heap r.live
  minimum : IsLeast {n | n ∈ r.sums} r.heap.xMinimumEverFreeBytesRemaining.toNat
  recorded : bytes free ∈ r.sums

theorem HeapRun.record_holds {qs : List (UInt32 × UInt32)} {sums : List Nat}
    (hh : HeapHolds L h free (blocksOf h qs)) (hp : Payloads h qs)
    (hmin : IsLeast (insert (bytes free) {n | n ∈ sums})
      h.xMinimumEverFreeBytesRemaining.toNat) :
    (HeapRun.record L ⟨h, qs, sums⟩).Holds L free := by
  have hr : HeapRun.record L ⟨h, qs, sums⟩ = ⟨h, qs, bytes free :: sums⟩ := by
    rw [record, if_neg hh.pxEnd_ne]
    dsimp only
    rw [hh.freeBlocks_eq]
  have hset : {n | n ∈ bytes free :: sums} = insert (bytes free) {n | n ∈ sums} := by
    ext n
    exact List.mem_cons
  rw [hr]
  exact ⟨hh, hp, hset ▸ hmin, List.mem_cons_self⟩

theorem blockOf_mem {qs : List (UInt32 × UInt32)} (hq : q ∈ qs) :
    blockOf h q.1 ∈ blocksOf h qs := List.mem_map.2 ⟨q, hq, rfl⟩

theorem HeapHolds.payloads {h₀ : MicroHeap} {qs : List (UInt32 × UInt32)}
    (hh : HeapHolds L h free live) (hp : Payloads h₀ qs)
    (hsub : blocksOf h₀ qs ⊆ live) : blocksOf h qs = blocksOf h₀ qs ∧ Payloads h qs := by
  have he : ∀ q ∈ qs, blockOf h q.1 = blockOf h₀ q.1 :=
    fun q hq => hh.blockOf_eq (hsub (blockOf_mem hq)) (hp q hq).1
  refine ⟨List.map_congr_left he, fun q hq => ?_⟩
  rw [he q hq]
  exact hp q hq

theorem malloc_payloads {h₀ h₁ h' : MicroHeap} {qs : List (UInt32 × UInt32)} {n pv : UInt32}
    (hh : HeapHolds L h free (blocksOf h₀ qs)) (hp : Payloads h₀ qs)
    (hrun : allocate L n (vTaskSuspendAll h₁) = allocate L n h)
    (hret : pvPortMallocMicroROS L n h₁ = some (pv, h')) :
    ∃ free', HeapHolds L h' free' (blocksOf h' ((pv, n) :: qs)) ∧
      Payloads h' ((pv, n) :: qs) ∧
      h'.xMinimumEverFreeBytesRemaining.toNat =
        min (bytes free') h.xMinimumEverFreeBytesRemaining.toNat ∧
      blocksOf h' qs = blocksOf h₀ qs ∧
      ∀ d ∈ blocksOf h₀ qs, ∀ x ∈ d.cells, h'.mem x = h.mem x := by
  obtain ⟨b, free', hb, hn, hh', hmin, hsame⟩ := malloc_holds hh hrun hret
  have hpv : blockOf h' pv = b := hh'.blockOf_eq List.mem_cons_self hb
  obtain ⟨hblocks, hp'⟩ := hh'.payloads hp (List.subset_cons_self b _)
  refine ⟨free', ?_, List.forall_mem_cons.2 ⟨?_, hp'⟩, hmin.trans (min_comm _ _), hblocks, hsame⟩
  · rw [blocksOf, List.map_cons, ← blocksOf, hblocks, hpv]
    exact hh'
  · dsimp only
    rw [hpv]
    exact ⟨hb, hn⟩

theorem free_payloads {h' : MicroHeap} {qs : List (UInt32 × UInt32)} {pv : UInt32}
    (hh : HeapHolds L h free (blocksOf h qs)) (hp : Payloads h qs) (hq : ∃ q ∈ qs, q.1 = pv)
    (hret : vPortFreeMicroROS L pv h = some h') :
    HeapHolds L h' (insertBlock (blockOf h pv) free)
        (blocksOf h' (qs.eraseP fun q => q.1 = pv)) ∧
      Payloads h' (qs.eraseP fun q => q.1 = pv) ∧
      h'.xMinimumEverFreeBytesRemaining = h.xMinimumEverFreeBytesRemaining ∧
      blocksOf h' (qs.eraseP fun q => q.1 = pv) = blocksOf h (qs.eraseP fun q => q.1 = pv) ∧
      ∀ d ∈ blocksOf h (qs.eraseP fun q => q.1 = pv), ∀ x ∈ d.cells, h'.mem x = h.mem x := by
  obtain ⟨q, hq, hqp⟩ := hq
  obtain ⟨⟨pv', n⟩, l₁, l₂, -, hpv, rfl, herase⟩ :=
    List.exists_of_eraseP (p := fun q => decide (q.1 = pv)) hq (decide_eq_true hqp)
  obtain rfl : pv' = pv := of_decide_eq_true hpv
  rw [blocksOf, List.map_append, List.map_cons] at hh
  have hmem : (pv', n) ∈ l₁ ++ (pv', n) :: l₂ := List.mem_append_right _ List.mem_cons_self
  obtain ⟨h'', hret', hh', hmin, hsame⟩ := free_holds hh (hp _ hmem).1
  obtain rfl : h' = h'' := Option.some.inj (hret.symm.trans hret')
  have hsub : List.Sublist (l₁ ++ l₂) (l₁ ++ (pv', n) :: l₂) :=
    (List.Sublist.refl l₁).append (List.sublist_cons_self _ l₂)
  rw [← List.map_append, ← blocksOf] at hh' hsame
  obtain ⟨hblocks, hp'⟩ := hh'.payloads (fun q hq => hp q (hsub.subset hq)) (List.Subset.refl _)
  rw [herase]
  exact ⟨hblocks ▸ hh', hp', hmin, hblocks, hsame⟩

theorem write_payloads {qs : List (UInt32 × UInt32)} (hh : HeapHolds L h free (blocksOf h qs))
    (hp : Payloads h qs) (hq : ∃ q ∈ qs, q.1.toNat ≤ a ∧ a < q.1.toNat + q.2.toNat) (v : UInt8) :
    HeapHolds L { h with mem := Function.update h.mem a v } free
        (blocksOf { h with mem := Function.update h.mem a v } qs) ∧
      Payloads { h with mem := Function.update h.mem a v } qs := by
  obtain ⟨q, hq, hlo, hhi⟩ := hq
  obtain ⟨hq₁, hq₂⟩ := hp q hq
  have hin : (blockOf h q.1).addr + 8 ≤ a ∧ a < (blockOf h q.1).addr + (blockOf h q.1).size := by
    omega
  have hh' := hh.write (blockOf_mem hq) hin.1 hin.2 v
  obtain ⟨hblocks, hp'⟩ := hh'.payloads hp (List.Subset.refl _)
  exact ⟨hblocks ▸ hh', hp'⟩

theorem HeapRun.malloc_step (n : UInt32) (hr : r.Holds L free)
    (hs : r.step L (.malloc n) = some r') : ∃ free', r'.Holds L free' := by
  rw [step] at hs
  obtain ⟨⟨pv, h'⟩, hret, hs⟩ := Option.bind_eq_some_iff.1 hs
  obtain rfl := Option.some.inj hs
  have hrun : allocate L n (vTaskSuspendAll r.heap) = allocate L n (vTaskSuspendAll r.heap) := rfl
  obtain ⟨free', hh, hp, hmin, -⟩ :=
    malloc_payloads (hr.heap.resched (r.heap.uxSchedulerSuspended + 1)) hr.payloads hrun hret
  refine ⟨free', record_holds hh hp ?_⟩
  rw [hmin]
  exact hr.minimum.insert (bytes free')

theorem HeapRun.first_malloc (n : UInt32) (he : h.pxEnd = 0)
    (hs : HeapRun.step L { heap := h } (.malloc n) = some r') : ∃ free', r'.Holds L free' := by
  rw [step] at hs
  obtain ⟨⟨pv, h'⟩, hret, hs⟩ := Option.bind_eq_some_iff.1 hs
  obtain rfl := Option.some.inj hs
  obtain ⟨hinit, hwhole⟩ := prvHeapInit_holds L (vTaskSuspendAll h)
  have hrun : allocate L n (vTaskSuspendAll h) = allocate L n (prvHeapInit L (vTaskSuspendAll h)) :=
    allocate_first n he
  have hnone : Payloads h [] := List.forall_mem_nil _
  obtain ⟨free', hh, hp, hmin, -⟩ := malloc_payloads hinit hnone hrun hret
  refine ⟨free', record_holds hh hp ?_⟩
  have hle : bytes free' ≤ bytes [wholeRegion L] := by
    have hb := hh.bytes_le
    rw [bytes_cons, bytes_nil, wholeRegion]
    dsimp only
    omega
  have hempty : {n : Nat | n ∈ ([] : List Nat)} = ∅ := by
    ext n
    simp
  rw [hmin, hwhole, min_eq_left hle, hempty, insert_empty_eq]
  exact isLeast_singleton

theorem HeapRun.free_step (pv : UInt32) (hr : r.Holds L free)
    (hs : r.step L (.free pv) = some r') : ∃ free', r'.Holds L free' := by
  rw [step] at hs
  split at hs
  · rename_i hallowed
    obtain ⟨h', hret, hs⟩ := Option.bind_eq_some_iff.1 hs
    obtain rfl := Option.some.inj hs
    by_cases hex : ∃ q ∈ r.live, q.1 = pv
    · obtain ⟨hh, hp, hmin, -⟩ := free_payloads hr.heap hr.payloads hex hret
      refine ⟨_, record_holds hh hp ?_⟩
      rw [hmin]
      refine ⟨.inr hr.minimum.1, fun n hn => ?_⟩
      rcases hn with rfl | hn
      · rw [bytes_insert]
        exact (hr.minimum.2 hr.recorded).trans (Nat.le_add_left _ _)
      · exact hr.minimum.2 hn
    · obtain rfl : pv = 0 := hallowed.resolve_right hex
      obtain rfl : h' = r.heap := Option.some.inj (hret.symm.trans rfl)
      have herase : r.live.eraseP (fun q => decide (q.1 = 0)) = r.live := by
        apply List.eraseP_of_forall_not
        intro q hq hz
        exact hex ⟨q, hq, of_decide_eq_true hz⟩
      rw [herase]
      refine ⟨_, record_holds hr.heap hr.payloads ?_⟩
      have hmem : bytes free ∈ {n | n ∈ r.sums} := hr.recorded
      rw [Set.insert_eq_of_mem hmem]
      exact hr.minimum
  · cases hs

theorem HeapRun.write_step (a : Nat) (v : UInt8) (hr : r.Holds L free)
    (hs : r.step L (.write a v) = some r') : ∃ free', r'.Holds L free' := by
  rw [step] at hs
  split at hs
  · rename_i hex
    obtain rfl := Option.some.inj hs
    obtain ⟨hh, hp⟩ := write_payloads hr.heap hr.payloads hex v
    exact ⟨free, hh, hp, hr.minimum, hr.recorded⟩
  · cases hs

theorem HeapRun.step_holds (c : HeapCall) (hr : r.Holds L free) (hs : r.step L c = some r') :
    ∃ free', r'.Holds L free' := by
  cases c with
  | malloc n => exact malloc_step n hr hs
  | free pv => exact free_step pv hr hs
  | write a v => exact write_step a v hr hs

/-- Before the first allocation, nothing can be released. -/
theorem HeapRun.run_holds {calls : List HeapCall} (he : h.pxEnd = 0)
    (hs : calls.foldlM (HeapRun.step L) { heap := h } = some r) :
    (∀ c ∈ calls, c = .free 0) ∨ ∃ free, r.Holds L free := by
  induction calls with
  | nil => exact .inl (List.forall_mem_nil _)
  | cons c calls ih =>
    rw [List.foldlM_cons] at hs
    obtain ⟨r₁, hs₁, hrest⟩ := Option.bind_eq_some_iff.1 hs
    cases c with
    | malloc n =>
      right
      exact Transition.foldlM_invariant (I := fun r => ∃ free, HeapRun.Holds L r free)
        (fun r c r' ⟨_, hr⟩ hs => step_holds c hr hs) (first_malloc n he hs₁) hrest
    | free pv =>
      rw [step] at hs₁
      split at hs₁
      · rename_i hallowed
        obtain rfl : pv = 0 := hallowed.resolve_right fun ⟨q, hq, _⟩ => List.not_mem_nil hq
        obtain ⟨h', hret, hs₁⟩ := Option.bind_eq_some_iff.1 hs₁
        obtain rfl : h' = h := Option.some.inj (hret.symm.trans rfl)
        have hrec : record L { heap := h' } = { heap := h' } := if_pos he
        obtain rfl : r₁ = { heap := h' } := (Option.some.inj hs₁).symm.trans hrec
        rcases ih hrest with hall | hex
        · exact .inl (List.forall_mem_cons.2 ⟨rfl, hall⟩)
        · exact .inr hex
      · cases hs₁
    | write a v =>
      rw [step] at hs₁
      split at hs₁
      · rename_i hex
        obtain ⟨q, hq, _⟩ := hex
        exact absurd hq List.not_mem_nil
      · cases hs₁

theorem HeapRun.Holds.tiled (hr : r.Holds L free) : HeapTiled L r free := by
  have hh := hr.heap
  obtain ⟨-, hord, hdis, hadj⟩ := canonical_iff.1 hh.canonical
  refine ⟨hh.freeBlocks_eq, hord, hadj, ?_, ?_, hh.remaining, hr.minimum, ?_, ?_⟩
  · apply List.pairwise_append.2
    refine ⟨hdis, hh.apart, fun b hb c hc => ?_⟩
    exact ((hh.apart_free c hc).mono_right (cells_subset_cover hb)).symm
  · rw [cover_append, hh.tiled, hh.pxEnd]
  · intro q hq
    obtain ⟨hp, hn⟩ := hr.payloads q hq
    have hmod := (hh.placed _ (List.mem_append_right _ (blockOf_mem hq))).addr_mod
    refine ⟨?_, hn⟩
    omega
  · intro hnone
    have hcover := hh.tiled
    rw [HeapRun.liveBlocks, hnone, blocksOf, List.map_nil, cover_nil, Set.union_empty] at hcover
    have hlt : L.start < L.finish := Nat.lt_of_lt_of_le (by omega) L.start_lt_finish
    rw [hh.pxEnd]
    exact hh.canonical.eq_singleton hcover hlt

end Run

/-- As long as the calls return, the free list and the live blocks tile the heap. -/
theorem heap_tiled {L : HeapLayout} {m : Mem} {calls : List HeapCall} {r : HeapRun}
    (h : HeapRun.run L m calls = some r) :
    (∀ c ∈ calls, c = .free 0) ∨ ∃ free, HeapTiled L r free := by
  rcases HeapRun.run_holds rfl h with hall | ⟨free, hr⟩
  · exact .inl hall
  · exact .inr ⟨free, hr.tiled⟩

def exampleLayout : HeapLayout where
  ucHeap := 0x20000004
  xStart := 0x1000
  nonnull := by decide
  fits := by decide
  apart := .inl (by decide)

def reuse : List HeapCall := [.malloc 10, .malloc 20, .free 0x20000010, .malloc 5]

theorem heap_tiled_reuse :
    ∃ r free, HeapRun.run exampleLayout (fun _ => 0) reuse = some r ∧
      HeapTiled exampleLayout r free := by
  have hsome : (HeapRun.run exampleLayout (fun _ => 0) reuse).isSome = true := by decide +kernel
  obtain ⟨r, hr⟩ := Option.isSome_iff_exists.1 hsome
  rcases heap_tiled hr with hall | ⟨free, ht⟩
  · exact absurd (hall (.malloc 10) List.mem_cons_self) (by decide)
  · exact ⟨r, free, hr, ht⟩

end RobotCar

import RobotCar.MicroHeapInvariant

namespace RobotCar
open Memory Linked FreeList Words
set_option autoImplicit true

/-! ### The first call -/

theorem toNat_align (x : UInt32) : (x &&& ~~~portBYTE_ALIGNMENT_MASK).toNat = x.toNat / 8 * 8 := by
  rw [toNat_and_not, toNat_and_mask x 3 rfl]
  omega

theorem alignedHeap_fst (L : HeapLayout) : (alignedHeap L).1.toNat = L.start := by
  have hfits := L.fits
  have hmask : (L.ucHeap &&& portBYTE_ALIGNMENT_MASK).toNat = L.ucHeap.toNat % 8 :=
    toNat_and_mask _ 3 rfl
  rw [alignedHeap, HeapLayout.start]
  split
  · have h₇ : (portBYTE_ALIGNMENT - 1).toNat = 7 := rfl
    dsimp only
    rw [toNat_align, toNat_add_of_lt] <;> rw [h₇]
    omega
  · rename_i h
    rw [not_not.1 h] at hmask
    change 0 = _ at hmask
    dsimp only
    omega

theorem alignedHeap_snd (L : HeapLayout) :
    (alignedHeap L).1.toNat + (alignedHeap L).2.toNat = L.ucHeap.toNat + 102400 := by
  have hfst := alignedHeap_fst L
  have hfits := L.fits
  have htotal : configTOTAL_HEAP_SIZE.toNat = 102400 := rfl
  rw [alignedHeap] at hfst ⊢
  split
  · rename_i h
    rw [if_pos h] at hfst
    dsimp only at hfst ⊢
    rw [HeapLayout.start] at hfst
    generalize (L.ucHeap + (portBYTE_ALIGNMENT - 1)) &&& ~~~portBYTE_ALIGNMENT_MASK = a at hfst ⊢
    have hsub : (a - L.ucHeap).toNat = a.toNat - L.ucHeap.toNat := toNat_sub_of_le (by omega)
    rw [toNat_sub_of_le] <;> rw [hsub, htotal] <;> omega
  · dsimp only
    omega

theorem toNat_endMarker (L : HeapLayout) :
    (((alignedHeap L).1 + (alignedHeap L).2 - xHeapStructSize) &&&
      ~~~portBYTE_ALIGNMENT_MASK).toNat = L.finish := by
  have hsum := alignedHeap_snd L
  have hfits := L.fits
  have h₈ : xHeapStructSize.toNat = 8 := rfl
  have hadd : ((alignedHeap L).1 + (alignedHeap L).2).toNat = L.ucHeap.toNat + 102400 := by
    rw [toNat_add_of_lt] <;> rw [hsum]
    exact hfits
  rw [toNat_align, toNat_sub_of_le, hadd, h₈, HeapLayout.finish] <;> omega

def wholeRegion (L : HeapLayout) : Block := ⟨L.start, L.finish - L.start⟩

theorem wholeRegion_placed (L : HeapLayout) : Placed L (wholeRegion L) := by
  have h := L.start_lt_finish
  have hs : L.start % 8 = 0 := by
    unfold HeapLayout.start
    omega
  have hf : L.finish % 8 = 0 := by
    unfold HeapLayout.finish
    omega
  unfold wholeRegion
  constructor <;> dsimp only <;> omega

theorem wholeRegion_cover (L : HeapLayout) : cover [wholeRegion L] = Set.Ico L.start L.finish := by
  rw [cover_cons, cover_nil, Set.union_empty]
  change Set.Ico L.start (L.start + (L.finish - L.start)) = _
  rw [Nat.add_sub_cancel' L.start_le_finish]

theorem init_headers (L : HeapLayout) (m : Mem) {first last : UInt32}
    (hstart : first.toNat = L.start) (hfin : last.toNat = L.finish) :
    ∃ m', set_pxNextFreeBlock (set_xBlockSize (set_pxNextFreeBlock (set_xBlockSize
        (set_xBlockSize (set_pxNextFreeBlock m L.xStart first) L.xStart 0) last 0) last 0) first
          (last - first)) first last = m' ∧
      (linkAt m' L.xStart.toNat = L.start ∧ sizeAt m' L.xStart.toNat = 0) ∧
      (linkAt m' L.start = L.finish ∧ sizeAt m' L.start = L.finish - L.start) ∧
      linkAt m' L.finish = 0 ∧ sizeAt m' L.finish = 0 := by
  have hle := L.start_lt_finish
  have hx := L.xStart_apart L.start_le_finish le_rfl
  have hxs := L.xStart_apart le_rfl L.start_le_finish
  have hnx := L.node_xStart
  have hnf : L.Node last.toNat := hfin ▸ L.node_finish
  have hns : L.Node first.toNat := hstart ▸ (wholeRegion_placed L).node
  have hsize : (last - first).toNat = L.finish - L.start := by
    rw [toNat_sub_of_le] <;> rw [hstart, hfin]
    omega
  have hxl : L.xStart.toNat ≠ last.toNat := by omega
  have hxf : L.xStart.toNat ≠ first.toNat := by omega
  have hlf : last.toNat ≠ first.toNat := by omega
  refine ⟨_, rfl, ⟨?_, ?_⟩, ?_, ?_⟩
  · rw [linkAt_set_link_of_ne L.sites hns hnx hxf, linkAt_set_size_of L.sites hns hnx,
      linkAt_set_link_of_ne L.sites hnf hnx hxl, linkAt_set_size_of L.sites hnf hnx,
      linkAt_set_size, linkAt_set_link, hstart]
  · rw [sizeAt_set_link_of L.sites hns hnx, sizeAt_set_size_of_ne L.sites hns hnx hxf,
      sizeAt_set_link_of L.sites hnf hnx, sizeAt_set_size_of_ne L.sites hnf hnx hxl,
      sizeAt_set_size]
    rfl
  · rw [← hstart, linkAt_set_link, sizeAt_set_link, sizeAt_set_size, hstart]
    exact ⟨hfin, hsize⟩
  · rw [← hfin, linkAt_set_link_of_ne L.sites hns hnf hlf, linkAt_set_size_of L.sites hns hnf,
      linkAt_set_link, sizeAt_set_link_of L.sites hns hnf,
      sizeAt_set_size_of_ne L.sites hns hnf hlf, sizeAt_set_link, sizeAt_set_size]
    exact ⟨rfl, rfl⟩

/-- After the first call has set up the list, the whole region is free. -/
theorem prvHeapInit_holds (L : HeapLayout) (h : MicroHeap) :
    HeapHolds L (prvHeapInit L h) [wholeRegion L] [] ∧
      (prvHeapInit L h).xMinimumEverFreeBytesRemaining.toNat = bytes [wholeRegion L] := by
  have hstart := alignedHeap_fst L
  have hfin := toNat_endMarker L
  have hplaced := wholeRegion_placed L
  unfold prvHeapInit
  generalize alignedHeap L = a at hstart hfin ⊢
  obtain ⟨first, total⟩ := a
  dsimp only at hstart hfin ⊢
  generalize (first + total - xHeapStructSize) &&& ~~~portBYTE_ALIGNMENT_MASK = last at hfin ⊢
  obtain ⟨m, hm, hhead, hfirst, hlast⟩ := init_headers L h.mem hstart hfin
  rw [hm]
  have hremaining : (xBlockSize m first).toNat = bytes [wholeRegion L] := by
    rw [toNat_xBlockSize, hstart, hfirst.2, bytes_cons, bytes_nil]
    rfl
  have hlist : Listed L m L.start [wholeRegion L] := listed_cons.2
    ⟨rfl, hfirst.2, listed_nil.2 hfirst.1⟩
  refine ⟨⟨hfin, rfl, ⟨?_, hlist.sizes, hhead.2, hlast.2, hlast.1⟩, ?_, ?_, ?_, .nil, ?_, ?_,
    hremaining⟩, hremaining⟩
  · exact ⟨rfl, hhead.1 ▸ hlist.chain⟩
  · exact canonical_cons.2 ⟨hplaced.pos, List.forall_mem_nil _, canonical_nil⟩
  · exact List.forall_mem_singleton.2 hplaced
  · exact List.forall_mem_nil _
  · exact List.forall_mem_nil _
  · rw [cover_nil, Set.union_empty, wholeRegion_cover]

/-! ### Allocation -/

section Calls
variable {L : HeapLayout} {h : MicroHeap} {free live : List Block}

theorem HeapHolds.pxEnd_ne (hh : HeapHolds L h free live) : h.pxEnd ≠ 0 := by
  intro he
  have hle := L.start_lt_finish
  rw [← hh.pxEnd, he] at hle
  exact absurd hle (Nat.not_succ_le_zero _)

theorem HeapHolds.resched (hh : HeapHolds L h free live) (k : UInt32) :
    HeapHolds L { h with uxSchedulerSuspended := k } free live :=
  ⟨hh.pxEnd, hh.bit, hh.list, hh.canonical, hh.placed, hh.marks, hh.apart, hh.apart_free, hh.tiled,
    hh.remaining⟩

theorem HeapHolds.bit_clear (hh : HeapHolds L h free live) (n : UInt32) :
    n &&& h.xBlockAllocatedBit = 0 ↔ n.toNat < 2 ^ 31 := by
  have hand := toNat_and_bit n 31 hh.bit n.toNat_lt
  constructor
  · intro h
    by_contra hge
    rw [h, if_neg hge] at hand
    exact absurd hand (by decide)
  · intro hlt
    rw [if_pos hlt] at hand
    exact UInt32.toNat_inj.1 hand

def blockBytes (n : Nat) : Nat := (n + 15) / 8 * 8

theorem wantedSize_block {n : UInt32} (hpos : 0 < n.toNat) (hlt : n.toNat < 2 ^ 31) :
    (wantedSize n).toNat = blockBytes n.toNat ∧ blockBytes n.toNat % 8 = 0 ∧
      8 ≤ blockBytes n.toNat ∧ wantedSize n &&& portBYTE_ALIGNMENT_MASK = 0 := by
  have hw : (wantedSize n).toNat = blockBytes n.toNat := toNat_wantedSize hpos hlt
  have hw8 : blockBytes n.toNat % 8 = 0 := Nat.mul_mod_left _ _
  refine ⟨hw, hw8, ?_, ?_⟩
  · unfold blockBytes
    omega
  · apply UInt32.toNat_inj.1
    rw [toNat_and_mask _ 3 rfl, hw]
    exact hw8

theorem allocate_search (hh : HeapHolds L h free live) {w : UInt32} (hw8 : w.toNat % 8 = 0)
    (hpos : 8 ≤ w.toNat) :
    ∃ prev blk, pvPortMallocMicroROS_loop h.mem w configTOTAL_HEAP_SIZE.toNat L.xStart
        (pxNextFreeBlock h.mem L.xStart) = some (prev, blk) ∧
      ((blk = h.pxEnd ∧ ∀ d ∈ free, d.size < w.toNat) ∨
        blk ≠ h.pxEnd ∧ ∃ l₁ c l₂ p h', free = l₁ ++ c :: l₂ ∧ (∀ d ∈ l₁, d.size < w.toNat) ∧
          w.toNat ≤ c.size ∧ takeBlock L h prev blk w = some (p, h') ∧
          UInt32.toNat p = c.addr + 8 ∧
          HeapHolds L h' (remainder c w.toNat (l₁ ++ l₂)).2
            ((remainder c w.toNat (l₁ ++ l₂)).1 :: live) ∧
          h'.xMinimumEverFreeBytesRemaining.toNat = min h.xMinimumEverFreeBytesRemaining.toNat
            (bytes (remainder c w.toNat (l₁ ++ l₂)).2) ∧
          (∃ q, HeaderOf c w.toNat q ∧
            SameOutside (L.xStart.toNat :: c.addr :: q :: (l₁ ++ l₂).map Block.addr) h.mem h'.mem) ∧
          ∀ d ∈ live, ∀ x ∈ d.cells, h'.mem x = h.mem x) := by
  have hplaced : ∀ c ∈ free, Placed L c := fun c hc => hh.placed c (List.mem_append_left _ hc)
  rcases malloc_loop (w := w) configTOTAL_HEAP_SIZE.toNat L.xStart
    (pxNextFreeBlock h.mem L.xStart) ⟨hh.list.chain.2, hh.list.sizes⟩ hplaced hh.list.end_link
    (free_length_lt hh.canonical (sited_of_placed hplaced)) with
      ⟨l₁, c, l₂, ys, prev, blk, rfl, hlt, hle, hys, hblk, hloop⟩ |
      ⟨hall, prev, blk, hblk, hloop⟩
  · have hne : blk ≠ h.pxEnd := by
      intro he
      apply (hplaced c (List.mem_append_right _ List.mem_cons_self)).lt_finish.ne
      rw [← hblk, he, hh.pxEnd]
    obtain ⟨p, h', hrun, hp, hh', hmin, hsame⟩ := takeBlock_holds hh hys hblk hle hw8 hpos
    exact ⟨prev, blk, hloop, .inr ⟨hne, l₁, c, l₂, p, h', rfl, hlt, hle, hrun, hp, hh', hmin,
      hsame⟩⟩
  · exact ⟨prev, blk, hloop, .inl ⟨UInt32.toNat_inj.1 (hblk.trans hh.pxEnd.symm), hall⟩⟩

/-- The first block that is large enough is taken; when there is none, or when the request is
not admissible, nothing happens. -/
theorem allocate_holds (hh : HeapHolds L h free live) (n : UInt32) :
    (allocate L n h = some (0, h) ∧
        (n.toNat = 0 ∨ 2 ^ 31 ≤ n.toNat ∨ ∀ d ∈ free, d.size < blockBytes n.toNat)) ∨
      ∃ l₁ c l₂ p h', free = l₁ ++ c :: l₂ ∧ 0 < n.toNat ∧ n.toNat < 2 ^ 31 ∧
        (∀ d ∈ l₁, d.size < blockBytes n.toNat) ∧ blockBytes n.toNat ≤ c.size ∧
        allocate L n h = some (p, h') ∧ UInt32.toNat p = c.addr + 8 ∧
        HeapHolds L h' (remainder c (blockBytes n.toNat) (l₁ ++ l₂)).2
          ((remainder c (blockBytes n.toNat) (l₁ ++ l₂)).1 :: live) ∧
        h'.xMinimumEverFreeBytesRemaining.toNat = min h.xMinimumEverFreeBytesRemaining.toNat
          (bytes (remainder c (blockBytes n.toNat) (l₁ ++ l₂)).2) ∧
        (∃ q, HeaderOf c (blockBytes n.toNat) q ∧
          SameOutside (L.xStart.toNat :: c.addr :: q :: (l₁ ++ l₂).map Block.addr) h.mem h'.mem) ∧
        ∀ d ∈ live, ∀ x ∈ d.cells, h'.mem x = h.mem x := by
  rw [allocate, if_neg hh.pxEnd_ne]
  by_cases hbit : n.toNat < 2 ^ 31
  · rw [if_pos ((hh.bit_clear n).2 hbit)]
    dsimp only
    by_cases hpos : 0 < n.toNat
    · obtain ⟨hw, hw8, hge, hmask⟩ := wantedSize_block hpos hbit
      rw [if_neg (not_not.2 hmask)]
      by_cases hroom : blockBytes n.toNat ≤ bytes free
      · have hcond : wantedSize n > 0 ∧ wantedSize n ≤ h.xFreeBytesRemaining := by
          rw [gt_iff_lt, UInt32.lt_iff_toNat_lt, UInt32.le_iff_toNat_le, hw, hh.remaining]
          exact ⟨Nat.lt_of_lt_of_le (by decide) hge, hroom⟩
        rw [if_pos hcond]
        obtain ⟨prev, blk, hloop, hfound⟩ := allocate_search hh (hw ▸ hw8) (hw ▸ hge)
        rw [hloop]
        dsimp only [Option.bind_eq_bind, Option.bind_some]
        rw [hw] at hfound
        rcases hfound with ⟨he, hall⟩ | ⟨hne, l₁, c, l₂, p, h', hfree, hlt, hle, hrun, hp⟩
        · rw [if_neg (not_not.2 he)]
          exact .inl ⟨rfl, .inr (.inr hall)⟩
        · rw [if_pos hne]
          exact .inr ⟨l₁, c, l₂, p, h', hfree, hpos, hbit, hlt, hle, hrun, hp⟩
      · have hcond : ¬(wantedSize n > 0 ∧ wantedSize n ≤ h.xFreeBytesRemaining) := by
          rw [UInt32.le_iff_toNat_le, hw, hh.remaining]
          exact fun h => hroom h.2
        refine .inl ⟨if_neg hcond, .inr (.inr fun d hd => ?_)⟩
        have hle := size_le_bytes hd
        omega
    · have hz : n = 0 := UInt32.toNat_inj.1 (Nat.eq_zero_of_not_pos hpos)
      refine .inl ⟨?_, .inl (Nat.eq_zero_of_not_pos hpos)⟩
      rw [hz]
      rfl
  · rw [if_neg (fun h => hbit ((hh.bit_clear n).1 h))]
    exact .inl ⟨rfl, .inr (.inl (Nat.le_of_not_lt hbit))⟩

theorem allocate_first (n : UInt32) (he : h.pxEnd = 0) :
    allocate L n h = allocate L n (prvHeapInit L h) := by
  have hne := (prvHeapInit_holds L h).1.pxEnd_ne
  rw [allocate, if_pos he, allocate, if_neg hne]

theorem malloc_holds (hh : HeapHolds L h free live) {n p : UInt32} {h' : MicroHeap}
    (hrun : allocate L n (vTaskSuspendAll h₀) = allocate L n h)
    (hret : pvPortMallocMicroROS L n h₀ = some (p, h')) :
    ∃ b free', p.toNat = Block.addr b + 8 ∧ n.toNat + 8 ≤ b.size ∧
      HeapHolds L h' free' (b :: live) ∧
      h'.xMinimumEverFreeBytesRemaining.toNat =
        min h.xMinimumEverFreeBytesRemaining.toNat (bytes free') ∧
      ∀ d ∈ live, ∀ x ∈ d.cells, h'.mem x = h.mem x := by
  rw [pvPortMallocMicroROS, hrun] at hret
  rcases allocate_holds hh n with ⟨hnone, -⟩ |
    ⟨l₁, c, l₂, q, h₁, -, hpos, hlt, -, hle, hsome, hq, hh', hmin, -, hsame⟩
  · rw [hnone] at hret
    cases hret
  · have hsize := (remainder_size hle (l₁ ++ l₂)).1
    rw [hsome] at hret
    dsimp only [Option.bind_eq_bind, Option.bind_some] at hret
    split at hret
    · cases hret
    split at hret
    · cases hret
    obtain ⟨rfl, rfl⟩ := Prod.mk.inj (Option.some.inj hret)
    refine ⟨_, _, ?_, ?_, hh'.resched _, hmin, hsame⟩
    · rw [remainder_addr, hq]
    · unfold blockBytes at hsize
      unfold blockBytes
      omega

/-! ### Release -/

theorem Marked.header (hh : HeapHolds L h free live) (hb : b ∈ live) {pv : UInt32}
    (hp : pv.toNat = b.addr + 8) :
    (pv - xHeapStructSize).toNat = b.addr ∧
      pxNextFreeBlock h.mem (pv - xHeapStructSize) = 0 ∧
      (xBlockSize h.mem (pv - xHeapStructSize)).toNat = b.size + 2 ^ 31 ∧
      (getBlockSize h pv).toNat = b.size := by
  obtain ⟨hsize, hlink⟩ := hh.marks b hb
  have hpb := hh.placed b (List.mem_append_right _ hb)
  have hlt : b.size < 2 ^ 31 := by
    have h₁ := hpb.hi
    have h₂ := hpb.lo
    have h₃ := L.finish_le
    omega
  have hsub : (pv - xHeapStructSize).toNat = b.addr := by
    have h₈ : xHeapStructSize.toNat = 8 := rfl
    rw [toNat_sub_of_le] <;> rw [h₈, hp] <;> omega
  have hsz : (xBlockSize h.mem (pv - xHeapStructSize)).toNat = b.size + 2 ^ 31 := by
    rw [toNat_xBlockSize, hsub, hsize]
  refine ⟨hsub, ?_, hsz, ?_⟩
  · apply UInt32.toNat_inj.1
    rw [toNat_pxNextFreeBlock, hsub, hlink]
    rfl
  · rw [getBlockSize, toNat_and_not, toNat_and_bit _ 31 hh.bit (UInt32.toNat_lt _), hsz,
      if_neg (by omega)]
    omega

theorem HeapHolds.others {l₁ l₂ : List Block} (hh : HeapHolds L h free (l₁ ++ b :: l₂)) :
    ∀ c ∈ l₁ ++ l₂, Disjoint b.cells c.cells := by
  obtain ⟨-, hr, hlr⟩ := List.pairwise_append.1 hh.apart
  intro c hc
  rcases List.mem_append.1 hc with hc | hc
  · exact (hlr c hc b List.mem_cons_self).symm
  · exact (List.pairwise_cons.1 hr).1 c hc

/-- The headers that change when a live block goes back to the list. -/
theorem HeapHolds.released_apart {l₁ l₂ : List Block} (hh : HeapHolds L h free (l₁ ++ b :: l₂))
    (hd : d ∈ l₁ ++ l₂) :
    ∀ p ∈ L.xStart.toNat :: b.addr :: free.map Block.addr, L.Node p ∧ p ∉ d.cells := by
  have hd' : d ∈ l₁ ++ b :: l₂ := ((List.Sublist.refl _).middle b).subset hd
  obtain ⟨hplfree, hpllive⟩ := List.forall_mem_append.1 hh.placed
  have hpb := hpllive b (List.mem_append_right _ List.mem_cons_self)
  intro p hp
  rcases List.mem_cons.1 hp with rfl | hp
  · exact ⟨L.node_xStart, hh.node_apart hd' (.inl rfl)⟩
  rcases List.mem_cons.1 hp with rfl | hp
  · exact ⟨hpb.node, Set.disjoint_left.1 (hh.others d hd) (Block.addr_mem_cells hpb.pos)⟩
  · obtain ⟨c, hc, rfl⟩ := List.mem_map.1 hp
    have hpc := hplfree c hc
    exact ⟨hpc.node,
      hh.node_apart hd' (.inr (cells_subset_cover hc (Block.addr_mem_cells hpc.pos)))⟩

theorem release_refines {m : Mem} {b : Block} {blk size pxEnd : UInt32} (hin : InMemory L m free)
    (hcanon : Canonical free) (hplaced : ∀ d ∈ free, Placed L d) (hb : Placed L b)
    (hd : Disjoint b.cells (cover free)) (hblk : blk.toNat = b.addr) (hsize : size.toNat = b.size)
    (hend : pxEnd.toNat = L.finish) :
    (xBlockSize (set_xBlockSize m blk size) blk).toNat = b.size ∧
      ∃ m', prvInsertBlockIntoFreeList L pxEnd blk (set_xBlockSize m blk size) = some m' ∧
        InMemory L m' (insertBlock b free) ∧
        SameOutside (L.xStart.toNat :: b.addr :: free.map Block.addr) m m' := by
  have hsame := same_set_size m size (List.mem_singleton.2 hblk)
  have hsize' : sizeAt (set_xBlockSize m blk size) b.addr = b.size := by
    rw [← hblk, sizeAt_set_size, hsize]
  obtain ⟨m', hrun, hin', hsame'⟩ := insert_refines L.sites
    (hin.frame_block L.sites (sited_of_placed hplaced) hb.sited hd hsame) hcanon
    (sited_of_placed hplaced) hb.sited hd hblk hsize' hend
  refine ⟨?_, m', hrun, hin', (hsame.mono ?_).trans hsame'⟩
  · rw [toNat_xBlockSize, hblk, hsize']
  · simp

theorem free_holds {l₁ l₂ : List Block} {b : Block} {pv : UInt32}
    (hh : HeapHolds L h free (l₁ ++ b :: l₂)) (hp : pv.toNat = b.addr + 8) :
    ∃ h', vPortFreeMicroROS L pv h = some h' ∧
      HeapHolds L h' (insertBlock b free) (l₁ ++ l₂) ∧
      h'.xMinimumEverFreeBytesRemaining = h.xMinimumEverFreeBytesRemaining ∧
      ∀ d ∈ l₁ ++ l₂, ∀ x ∈ d.cells, h'.mem x = h.mem x := by
  have hb : b ∈ l₁ ++ b :: l₂ := List.mem_append_right _ List.mem_cons_self
  obtain ⟨hblk, hlink, hsize, hclear⟩ := Marked.header hh hb hp
  obtain ⟨hplfree, hpllive⟩ := List.forall_mem_append.1 hh.placed
  have hpb := hpllive b hb
  have hsub : List.Sublist (l₁ ++ l₂) (l₁ ++ b :: l₂) := (List.Sublist.refl _).middle b
  have hdis := hh.apart_free b hb
  have hnz : pv ≠ 0 := by
    intro he
    rw [he] at hp
    exact absurd hp (Nat.succ_ne_zero _).symm
  have hmarked : xBlockSize h.mem (pv - xHeapStructSize) &&& h.xBlockAllocatedBit ≠ 0 := by
    intro he
    have hlt := (hh.bit_clear _).1 he
    omega
  rw [vPortFreeMicroROS, if_pos hnz]
  dsimp only
  rw [if_neg hmarked, if_neg (not_not.2 hlink)]
  rw [getBlockSize] at hclear
  generalize pv - xHeapStructSize = blk at *
  obtain ⟨hsz, m', hrun, hin', hsame⟩ := release_refines hh.list hh.canonical hplfree hpb hdis hblk
    hclear hh.pxEnd
  generalize set_xBlockSize h.mem blk (xBlockSize h.mem blk &&& ~~~h.xBlockAllocatedBit) = m at *
  have hsum : (h.xFreeBytesRemaining + xBlockSize m blk).toNat = bytes (insertBlock b free) := by
    have hle := hh.bytes_le
    have h₁ := hpb.lo
    have h₂ := hpb.hi
    have h₃ := L.finish_le
    rw [bytes_insert, toNat_add_of_lt] <;> rw [hh.remaining, hsz] <;> omega
  have hcells : ∀ d ∈ l₁ ++ l₂, ∀ x ∈ d.cells, m' x = h.mem x := fun d hd x hx =>
    (hpllive d (hsub.subset hd)).cells_same hsame (hh.released_apart hd) hx
  let h' := xTaskResumeAll
    { vTaskSuspendAll { h with mem := m } with
      mem := m'
      xFreeBytesRemaining := h.xFreeBytesRemaining + xBlockSize m blk }
  refine ⟨h', ?_, ⟨hh.pxEnd, hh.bit, hin', ?_, ?_, ?_, ?_, ?_, ?_, hsum⟩, rfl, hcells⟩
  · dsimp only [vTaskSuspendAll]
    rw [hrun]
    rfl
  · exact hh.canonical.insertBlock hpb.pos hdis
  · exact List.forall_mem_append.2 ⟨forall_insert (fun _ _ => Placed.join) hpb hplfree,
      fun d hd => hpllive d (hsub.subset hd)⟩
  · exact fun d hd =>
      (hh.marks d (hsub.subset hd)).same (hpllive d (hsub.subset hd)) (hcells d hd)
  · exact hh.apart.sublist hsub
  · intro d hd
    rw [cover_insert, Set.disjoint_union_right]
    exact ⟨(hh.others d hd).symm, hh.apart_free d (hsub.subset hd)⟩
  · rw [cover_insert, ← hh.tiled, cover_middle, ← Set.union_assoc (cover free),
      Set.union_comm (cover free)]

end Calls

end RobotCar

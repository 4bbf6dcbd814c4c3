import RobotCar.MicroHeapList

namespace RobotCar
open Memory Linked FreeList Words
set_option autoImplicit true

/-! ### Arithmetic of requests -/

theorem toNat_wantedSize {n : UInt32} (hn : 0 < n.toNat) (h : n.toNat < 2 ^ 31) :
    (wantedSize n).toNat = (n.toNat + 15) / 8 * 8 := by
  have hpos : n > 0 := UInt32.lt_iff_toNat_lt.2 hn
  have hadd : (n + xHeapStructSize).toNat = n.toNat + 8 :=
    toNat_add_of_lt (by change n.toNat + 8 < 2 ^ 32; omega)
  have hmask : ((n + xHeapStructSize) &&& portBYTE_ALIGNMENT_MASK).toNat = (n.toNat + 8) % 8 := by
    rw [toNat_and_mask _ 3 rfl, hadd]
    rfl
  rw [wantedSize, if_pos hpos]
  dsimp only
  split
  · rename_i hne
    have hsub : (portBYTE_ALIGNMENT - ((n + xHeapStructSize) &&& portBYTE_ALIGNMENT_MASK)).toNat =
        8 - (n.toNat + 8) % 8 := by
      rw [toNat_sub_of_le, hmask]
      · rfl
      · rw [hmask]
        change _ ≤ 8
        omega
    have hnz : (n.toNat + 8) % 8 ≠ 0 := by
      intro hz
      rw [← hmask] at hz
      exact hne (UInt32.toNat_inj.1 hz)
    rw [toNat_add_of_lt] <;> rw [hadd, hsub]
    · omega
    · omega
  · rename_i hz
    have hz' : (n.toNat + 8) % 8 = 0 := by
      rw [← hmask, not_not.1 hz]
      rfl
    rw [hadd]
    omega

/-! ### Allocation -/

section Allocation
variable {L : HeapLayout} {m : Mem} {pxEnd it blk : UInt32}

theorem Listed.ne_zero {l : List Block} (h : Listed L m p l) (hplaced : ∀ c ∈ l, Placed L c) :
    p ≠ 0 := by
  have h₁ := L.start_pos
  have h₂ := L.start_le_finish
  cases l with
  | nil =>
    rw [listed_nil.1 h]
    omega
  | cons c l =>
    have h₃ := (hplaced c List.mem_cons_self).lo
    rw [(listed_cons.1 h).1]
    omega

/-- The search ends at the first block that is large enough, or at the end marker. -/
theorem malloc_loop {free : List Block} {w : UInt32} (fuel : Nat) (prev blk : UInt32)
    (hlist : Listed L m blk.toNat free) (hplaced : ∀ c ∈ free, Placed L c)
    (hlink : linkAt m L.finish = 0) (hfuel : free.length < fuel) :
    (∃ l₁ c l₂ ys prev' blk', free = l₁ ++ c :: l₂ ∧ (∀ d ∈ l₁, d.size < w.toNat) ∧
        w.toNat ≤ c.size ∧ prev.toNat :: l₁.map Block.addr = ys ++ [UInt32.toNat prev'] ∧
        UInt32.toNat blk' = c.addr ∧
        pvPortMallocMicroROS_loop m w fuel prev blk = some (prev', blk')) ∨
      ((∀ d ∈ free, d.size < w.toNat) ∧ ∃ prev' blk', UInt32.toNat blk' = L.finish ∧
        pvPortMallocMicroROS_loop m w fuel prev blk = some (prev', blk')) := by
  induction free generalizing prev blk fuel with
  | nil =>
    obtain ⟨fuel, rfl⟩ := Nat.exists_eq_add_of_lt hfuel
    have hblk := listed_nil.1 hlist
    have hn : ¬(xBlockSize m blk < w ∧ pxNextFreeBlock m blk ≠ 0) := by
      intro ⟨_, hnz⟩
      apply hnz
      apply UInt32.toNat_inj.1
      rw [toNat_pxNextFreeBlock, hblk, hlink]
      rfl
    exact .inr ⟨List.forall_mem_nil _, prev, blk, hblk, if_neg hn⟩
  | cons c l ih =>
    obtain ⟨fuel, rfl⟩ := Nat.exists_eq_add_of_lt hfuel
    obtain ⟨hblk, hc, hrest⟩ := listed_cons.1 hlist
    obtain ⟨hpc, hpl⟩ := List.forall_mem_cons.1 hplaced
    have hsz : (xBlockSize m blk).toNat = c.size := by rw [toNat_xBlockSize, hblk, hc]
    have hnext : (pxNextFreeBlock m blk).toNat = linkAt m c.addr := by
      rw [toNat_pxNextFreeBlock, hblk]
    have hnz : pxNextFreeBlock m blk ≠ 0 := by
      intro he
      apply hrest.ne_zero hpl
      rw [← hnext, he]
      rfl
    rw [List.length_cons, Nat.add_zero, pvPortMallocMicroROS_loop]
    by_cases hlt : c.size < w.toNat
    · have hcond : xBlockSize m blk < w ∧ pxNextFreeBlock m blk ≠ 0 := by
        rw [UInt32.lt_iff_toNat_lt, hsz]
        exact ⟨hlt, hnz⟩
      rw [if_pos hcond]
      rcases ih (l.length + 1 + fuel) blk (pxNextFreeBlock m blk) (hnext ▸ hrest) hpl (by omega)
        with ⟨l₁, d, l₂, ys, prev', blk', rfl, h₁, hd, hys, hb, hrun⟩ |
          ⟨hall, prev', blk', hb, hrun⟩
      · rw [hblk] at hys
        refine .inl ⟨c :: l₁, d, l₂, prev.toNat :: ys, prev', blk', rfl,
          List.forall_mem_cons.2 ⟨hlt, h₁⟩, hd, ?_, hb, hrun⟩
        rw [List.map_cons, hys]
        rfl
      · exact .inr ⟨List.forall_mem_cons.2 ⟨hlt, hall⟩, prev', blk', hb, hrun⟩
    · have hcond : ¬(xBlockSize m blk < w ∧ pxNextFreeBlock m blk ≠ 0) := by
        rw [UInt32.lt_iff_toNat_lt, hsz]
        exact fun h => hlt h.1
      exact .inl ⟨[], c, l, [], prev, blk, rfl, List.forall_mem_nil _, by omega, rfl, hblk,
        if_neg hcond⟩

theorem unlink_refines {l₁ l₂ : List Block} {c : Block} (hin : InMemory L m (l₁ ++ c :: l₂))
    (hcanon : Canonical (l₁ ++ c :: l₂)) (hplaced : ∀ d ∈ l₁ ++ c :: l₂, Placed L d)
    (hys : L.xStart.toNat :: l₁.map Block.addr = ys ++ [it.toNat]) (hblk : blk.toNat = c.addr) :
    InMemory L (set_pxNextFreeBlock m it (pxNextFreeBlock m blk)) (l₁ ++ l₂) ∧
      SameOutside (L.xStart.toNat :: (l₁ ++ l₂).map Block.addr) m
        (set_pxNextFreeBlock m it (pxNextFreeBlock m blk)) := by
  obtain ⟨hpl₁, hpl⟩ := List.forall_mem_append.1 hplaced
  obtain ⟨-, hpl₂⟩ := List.forall_mem_cons.1 hpl
  have ha := hin.around L.sites hcanon (sited_of_placed hplaced) hys
  have hit : it.toNat ∈ L.xStart.toNat :: l₁.map Block.addr := hys ▸ List.mem_concat_self
  have hbehind : ∀ d ∈ l₂, d.addr ∉ [it.toNat] := fun d hd hm =>
    ha.behind d (List.mem_cons_of_mem c hd) (List.mem_singleton.1 hm)
  obtain ⟨-, -, hrest⟩ := listed_cons.1 (ha.listed hin)
  constructor
  · apply hin.splice (p := linkAt m c.addr)
    · exact fun q hq => sizeAt_set_link_of L.sites ha.node
        (node_of_front L.sites (sited_of_placed hpl₁) hq)
    · exact linkAt_set_link_of_ne L.sites ha.node L.node_finish (Ne.symm ha.ne_finish)
    · rw [hys, chain_concat, linkAt_set_link, toNat_pxNextFreeBlock, hblk]
      refine ⟨ha.before.congr fun q hq => ?_, rfl⟩
      have hqm : q ∈ L.xStart.toNat :: l₁.map Block.addr := hys ▸ List.mem_append_left _ hq
      exact linkAt_set_link_of_ne L.sites ha.node
        (node_of_mem L.sites (sited_of_placed hpl₁) hqm).1 fun he => ha.notMem (he ▸ hq)
    · exact hrest.same L.sites (sited_of_placed hpl₂)
        (same_set_link m _ (List.mem_singleton_self _)) (nodes_singleton ha.node) hbehind
  · apply same_set_link
    rw [List.map_append, ← List.cons_append]
    exact List.mem_append_left _ hit

/-- What is left of a block goes back to the list, unless it is too small. -/
def remainder (c : Block) (w : Nat) (free : List Block) : Block × List Block :=
  if c.size - w > 16 then (⟨c.addr, w⟩, insertBlock ⟨c.addr + w, c.size - w⟩ free) else (c, free)

/-- Where headers of the block `c` are written: its own, and that of what is left of it. -/
def HeaderOf (c : Block) (w q : Nat) : Prop := q = c.addr ∨ c.size - w > 16 ∧ q = c.addr + w

theorem Placed.split {c : Block} {w : Nat} (hc : Placed L c) (hw8 : w % 8 = 0) (hpos : 0 < w)
    (hbig : c.size - w > 16) : Placed L ⟨c.addr, w⟩ ∧ Placed L ⟨c.addr + w, c.size - w⟩ := by
  obtain ⟨hmod, hsmod, -, hlo, hhi⟩ := hc
  constructor
  · constructor <;> dsimp only <;> omega
  · constructor <;> dsimp only <;> omega

theorem splitBlock_refines {free : List Block} {c : Block} {w : UInt32} (hin : InMemory L m free)
    (hcanon : Canonical free) (hplaced : ∀ d ∈ free, Placed L d) (hc : Placed L c)
    (hd : Disjoint c.cells (cover free)) (hblk : blk.toNat = c.addr)
    (hsize : sizeAt m c.addr = c.size) (hw : w.toNat ≤ c.size) (hw8 : w.toNat % 8 = 0)
    (hpos : 0 < w.toNat) (hend : pxEnd.toNat = L.finish) :
    ∃ m', splitBlock L pxEnd blk w m = some m' ∧
      InMemory L m' (remainder c w.toNat free).2 ∧
      sizeAt m' c.addr = (remainder c w.toNat free).1.size ∧
      ∃ q ∈ c.cells, L.Node q ∧ HeaderOf c w.toNat q ∧
        SameOutside (L.xStart.toNat :: c.addr :: q :: free.map Block.addr) m m' := by
  have hsz : (xBlockSize m blk).toNat = c.size := by rw [toNat_xBlockSize, hblk, hsize]
  have hsub : (xBlockSize m blk - w).toNat = c.size - w.toNat := by
    rw [toNat_sub_of_le] <;> rw [hsz]
    exact hw
  have hcond : xBlockSize m blk - w > heapMINIMUM_BLOCK_SIZE ↔ c.size - w.toNat > 16 := by
    rw [gt_iff_lt, UInt32.lt_iff_toNat_lt, hsub]
    rfl
  rw [splitBlock, remainder]
  by_cases hbig : c.size - w.toNat > 16
  · rw [if_pos (hcond.2 hbig), if_pos hbig]
    obtain ⟨-, hb⟩ := hc.split hw8 hpos hbig
    have hsubset : (Block.mk (c.addr + w.toNat) (c.size - w.toNat)).cells ⊆ c.cells := by
      rw [cells_split hw]
      exact Set.subset_union_right
    have hdb := hd.mono_left hsubset
    have hnew : (blk + w).toNat = c.addr + w.toNat := by
      have hchi := hc.hi
      have hfin := L.finish_lt
      rw [toNat_add_of_lt, hblk]
      omega
    have hassert : (blk + w) &&& portBYTE_ALIGNMENT_MASK = 0 := by
      apply UInt32.toNat_inj.1
      rw [toNat_and_mask _ 3 rfl, hnew]
      exact hb.addr_mod
    have hne : c.addr + w.toNat ≠ c.addr := by omega
    dsimp only
    rw [if_neg (not_not.2 hassert)]
    -- the two headers that are written are not in the list
    have hsame₁ := same_set_size m (xBlockSize m blk - w) (List.mem_singleton.2 hnew)
    have hin₁ := hin.frame_block L.sites (sited_of_placed hplaced) hb.sited hdb hsame₁
    have hsize₁ : sizeAt (set_xBlockSize m (blk + w) (xBlockSize m blk - w)) (c.addr + w.toNat) =
        c.size - w.toNat := by rw [← hnew, sizeAt_set_size, hsub]
    generalize set_xBlockSize m (blk + w) (xBlockSize m blk - w) = m₁ at hsame₁ hin₁ hsize₁ ⊢
    have hsame₂ := same_set_size m₁ w (List.mem_singleton.2 hblk)
    have hin₂ := hin₁.frame_block L.sites (sited_of_placed hplaced) hc.sited hd hsame₂
    have hsize₂ : sizeAt (set_xBlockSize m₁ blk w) (c.addr + w.toNat) = c.size - w.toNat := by
      rw [sizeAt_set_size_of_ne L.sites (hblk ▸ hc.node) hb.node (hblk ▸ hne), hsize₁]
    have hfirst : sizeAt (set_xBlockSize m₁ blk w) c.addr = w.toNat := by
      rw [← hblk, sizeAt_set_size]
    generalize set_xBlockSize m₁ blk w = m₂ at hsame₂ hin₂ hsize₂ hfirst ⊢
    obtain ⟨m', hrun, hin', hsame⟩ := insert_refines L.sites hin₂ hcanon
      (sited_of_placed hplaced) hb.sited hdb hnew hsize₂ hend
    have hnodes : ∀ q ∈ L.xStart.toNat :: (c.addr + w.toNat) :: free.map Block.addr,
        L.Node q ∧ q ≠ c.addr := by
      intro q hq
      have hfree := hc.sited.notMem_nodes (sited_of_placed hplaced) hd
      rcases List.mem_cons.1 hq with rfl | hq
      · exact ⟨L.node_xStart, hc.ne_xStart.symm⟩
      rcases List.mem_cons.1 hq with rfl | hq
      · exact ⟨hb.node, hne⟩
      · exact ⟨(node_of_mem L.sites (sited_of_placed hplaced) (List.mem_cons_of_mem _ hq)).1,
          fun he => hfree (he ▸ List.mem_cons_of_mem _ hq)⟩
    refine ⟨m', hrun, hin', ?_, c.addr + w.toNat, hsubset (Block.addr_mem_cells hb.pos), hb.node,
      .inr ⟨hbig, rfl⟩, ?_⟩
    · rw [sizeAt_same L.sites hsame (fun q hq => (hnodes q hq).1) hc.node
        fun hm => (hnodes _ hm).2 rfl, hfirst]
    · refine ((hsame₁.mono ?_).trans (hsame₂.mono ?_)).trans (hsame.mono ?_)
      · simp
      · simp
      · exact List.cons_subset_cons _ (List.subset_cons_self _ _)
  · rw [if_neg fun h => hbig (hcond.1 h), if_neg hbig]
    exact ⟨m, rfl, hin, hsize, c.addr, Block.addr_mem_cells hc.pos, hc.node, .inl rfl, .refl _ _⟩

end Allocation

/-! ### The state of the allocator -/

/-- The header of a block that is handed out. -/
def Marked (m : Mem) (b : Block) : Prop :=
  sizeAt m b.addr = b.size + 2 ^ 31 ∧ linkAt m b.addr = 0

/-- The free list and the blocks that are handed out. -/
structure HeapHolds (L : HeapLayout) (h : MicroHeap) (free live : List Block) : Prop where
  pxEnd : h.pxEnd.toNat = L.finish
  bit : h.xBlockAllocatedBit.toNat = 2 ^ 31
  list : InMemory L h.mem free
  canonical : Canonical free
  placed : ∀ b ∈ free ++ live, Placed L b
  marks : ∀ b ∈ live, Marked h.mem b
  apart : live.Pairwise fun b c => Disjoint b.cells c.cells
  apart_free : ∀ b ∈ live, Disjoint b.cells (cover free)
  tiled : cover free ∪ cover live = Set.Ico L.start L.finish
  remaining : h.xFreeBytesRemaining.toNat = bytes free

section Holds
variable {L : HeapLayout} {h : MicroHeap} {free live : List Block}

theorem HeapHolds.bytes_le (hh : HeapHolds L h free live) : bytes free + L.start ≤ L.finish :=
  hh.canonical.bytes_le (fun c hc => (hh.placed c (List.mem_append_left _ hc)).lo)
    (fun c hc => (hh.placed c (List.mem_append_left _ hc)).hi) L.start_le_finish

theorem HeapHolds.node_apart (hh : HeapHolds L h free live) (hd : d ∈ live)
    (hp : p = L.xStart.toNat ∨ p ∈ cover free) : p ∉ d.cells := by
  have hpd := hh.placed d (List.mem_append_right _ hd)
  rcases hp with rfl | hp
  · have hlo := hpd.lo
    have hhi := hpd.hi
    intro hx
    obtain ⟨hx₁, hx₂⟩ := Block.mem_cells.1 hx
    have ha := L.xStart_apart (p := L.xStart.toNat) (by omega) (by omega)
    omega
  · exact fun hx => Set.disjoint_left.1 (hh.apart_free d hd) hx hp

/-- The headers that change when a free block is taken out of the list. -/
theorem HeapHolds.taken_apart {l₁ l₂ : List Block} {c : Block}
    (hh : HeapHolds L h (l₁ ++ c :: l₂) live) (hq : q ∈ c.cells) (hqn : L.Node q) (hd : d ∈ live) :
    ∀ p ∈ L.xStart.toNat :: c.addr :: q :: (l₁ ++ l₂).map Block.addr, L.Node p ∧ p ∉ d.cells := by
  have hc : c ∈ l₁ ++ c :: l₂ := List.mem_append_right _ List.mem_cons_self
  have haddr (e : Block) (he : e ∈ l₁ ++ c :: l₂) : L.Node e.addr ∧ e.addr ∉ d.cells := by
    have hpe := hh.placed e (List.mem_append_left _ he)
    exact ⟨hpe.node,
      hh.node_apart hd (.inr (cells_subset_cover he (Block.addr_mem_cells hpe.pos)))⟩
  intro p hp
  rcases List.mem_cons.1 hp with rfl | hp
  · exact ⟨L.node_xStart, hh.node_apart hd (.inl rfl)⟩
  rcases List.mem_cons.1 hp with rfl | hp
  · exact haddr c hc
  rcases List.mem_cons.1 hp with rfl | hp
  · exact ⟨hqn, hh.node_apart hd (.inr (cells_subset_cover hc hq))⟩
  · obtain ⟨e, he, rfl⟩ := List.mem_map.1 hp
    exact haddr e (((List.Sublist.refl _).middle c).subset he)

theorem remainder_cells {c : Block} {w : Nat} (hw : w ≤ c.size) (free : List Block) :
    (remainder c w free).1.cells ∪ cover (remainder c w free).2 = c.cells ∪ cover free := by
  rw [remainder]
  split
  · rw [cover_insert, cells_split hw, Set.union_assoc]
  · rfl

theorem remainder_bytes {c : Block} {w : Nat} (hw : w ≤ c.size) (free : List Block) :
    (remainder c w free).1.size + bytes (remainder c w free).2 = c.size + bytes free := by
  rw [remainder]
  split
  · rw [bytes_insert]
    dsimp only
    omega
  · rfl

theorem remainder_addr (c : Block) (w : Nat) (free : List Block) :
    (remainder c w free).1.addr = c.addr := by
  rw [remainder]
  split <;> rfl

theorem remainder_size {c : Block} {w : Nat} (hw : w ≤ c.size) (free : List Block) :
    w ≤ (remainder c w free).1.size ∧ (remainder c w free).1.size ≤ c.size := by
  rw [remainder]
  split
  · exact ⟨le_rfl, hw⟩
  · exact ⟨hw, le_rfl⟩

theorem remainder_free {c : Block} {w : Nat} (hcanon : Canonical free)
    (hplaced : ∀ d ∈ free, Placed L d) (hc : Placed L c) (hd : Disjoint c.cells (cover free))
    (hw8 : w % 8 = 0) (hpos : 8 ≤ w) (hw : w ≤ c.size) :
    Canonical (remainder c w free).2 ∧
      (∀ d ∈ (remainder c w free).1 :: (remainder c w free).2, Placed L d) ∧
      Disjoint (remainder c w free).1.cells (cover (remainder c w free).2) := by
  rw [remainder]
  split
  · rename_i hbig
    obtain ⟨hfirst, hrest⟩ := hc.split hw8 ((by decide : 0 < 8).trans_le hpos) hbig
    rw [cells_split hw, Set.disjoint_union_left] at hd
    dsimp only
    refine ⟨hcanon.insertBlock hrest.pos hd.2, ?_, ?_⟩
    · exact List.forall_mem_cons.2
        ⟨hfirst, forall_insert (fun _ _ => Placed.join) hrest hplaced⟩
    · rw [cover_insert, Set.disjoint_union_right]
      exact ⟨(Block.disjoint_iff hfirst.pos hrest.pos).2 (.inl le_rfl), hd.1⟩
  · exact ⟨hcanon, List.forall_mem_cons.2 ⟨hc, hplaced⟩, hd⟩

theorem mark_refines {m : Mem} {b : Block} {blk bit : UInt32} (hin : InMemory L m free)
    (hplaced : ∀ d ∈ free, Placed L d) (hb : Placed L b) (hd : Disjoint b.cells (cover free))
    (hblk : blk.toNat = b.addr) (hsize : sizeAt m b.addr = b.size) (hbit : bit.toNat = 2 ^ 31)
    (v : UInt32) :
    InMemory L (set_pxNextFreeBlock (set_xBlockSize m blk (xBlockSize m blk ||| bit)) blk v) free ∧
      sizeAt (set_pxNextFreeBlock (set_xBlockSize m blk (xBlockSize m blk ||| bit)) blk v) b.addr =
        b.size + 2 ^ 31 ∧
      linkAt (set_pxNextFreeBlock (set_xBlockSize m blk (xBlockSize m blk ||| bit)) blk v) b.addr =
        v.toNat ∧
      SameOutside [b.addr] m
        (set_pxNextFreeBlock (set_xBlockSize m blk (xBlockSize m blk ||| bit)) blk v) := by
  have hmem : blk.toNat ∈ [b.addr] := List.mem_singleton.2 hblk
  have hsame := (same_set_size m (xBlockSize m blk ||| bit) hmem).trans
    (same_set_link (set_xBlockSize m blk (xBlockSize m blk ||| bit)) v hmem)
  have hsz : (xBlockSize m blk).toNat = b.size := by rw [toNat_xBlockSize, hblk, hsize]
  have hlt : b.size < 2 ^ 31 := by
    have h₁ := hb.hi
    have h₂ := hb.lo
    have h₃ : L.finish ≤ L.start + 102392 := L.finish_le
    omega
  refine ⟨hin.frame_block L.sites (sited_of_placed hplaced) hb.sited hd hsame, ?_, ?_, hsame⟩
  · rw [← hblk, sizeAt_set_link, sizeAt_set_size, toNat_or_bit _ 31 hbit (by rw [hsz]; exact hlt),
      hsz]
  · rw [← hblk, linkAt_set_link]

theorem Marked.same {m m' : Mem} {b : Block} (hm : Marked m b) (hb : Placed L b)
    (hs : ∀ x ∈ b.cells, m' x = m x) : Marked m' b := by
  have hge := hb.size_ge
  have hheader : ∀ x, b.addr ≤ x → x < b.addr + 8 → m' x = m x :=
    fun x h₁ h₂ => hs x (Block.mem_cells.2 ⟨h₁, by omega⟩)
  obtain ⟨hlink, hsize⟩ := header_same hheader
  rw [Marked, hlink, hsize]
  exact hm

/-- Of the memory, the invariant sees the headers only. -/
theorem HeapHolds.same_headers {m' : Mem} (hh : HeapHolds L h free live)
    (hs : ∀ p ∈ L.xStart.toNat :: L.finish :: (free ++ live).map Block.addr,
      ∀ x, p ≤ x → x < p + 8 → m' x = h.mem x) : HeapHolds L { h with mem := m' } free live := by
  have hstart := header_same (hs _ List.mem_cons_self)
  have hend := header_same (hs _ (List.mem_cons_of_mem _ List.mem_cons_self))
  have hblock (c : Block) (hc : c ∈ free ++ live) : linkAt m' c.addr = linkAt h.mem c.addr ∧
      sizeAt m' c.addr = sizeAt h.mem c.addr :=
    header_same (hs _ (List.mem_cons_of_mem _ (List.mem_cons_of_mem _ (List.mem_map_of_mem hc))))
  have hfree (c : Block) (hc : c ∈ free) := hblock c (List.mem_append_left _ hc)
  refine ⟨hh.pxEnd, hh.bit, ⟨?_, ?_, ?_, ?_, ?_⟩, hh.canonical, hh.placed, ?_, hh.apart,
    hh.apart_free, hh.tiled, hh.remaining⟩
  · apply hh.list.chain.congr
    intro q hq
    rcases List.mem_cons.1 hq with rfl | hq
    · exact hstart.1
    · obtain ⟨c, hc, rfl⟩ := List.mem_map.1 hq
      exact (hfree c hc).1
  · intro c hc
    rw [(hfree c hc).2, hh.list.sizes c hc]
  · rw [hstart.2, hh.list.start_size]
  · rw [hend.2, hh.list.end_size]
  · rw [hend.1, hh.list.end_link]
  · intro c hc
    obtain ⟨hlink, hsize⟩ := hblock c (List.mem_append_right _ hc)
    rw [Marked, hlink, hsize]
    exact hh.marks c hc

theorem HeapHolds.headers_eq {h' : MicroHeap} (hh : HeapHolds L h free live)
    (hh' : HeapHolds L h' free live) :
    ∀ p ∈ L.xStart.toNat :: L.finish :: (free ++ live).map Block.addr,
      linkAt h'.mem p = linkAt h.mem p ∧ sizeAt h'.mem p = sizeAt h.mem p := by
  have hlinks := hh.list.chain.links_eq hh'.list.chain
  intro p hp
  rcases List.mem_cons.1 hp with rfl | hp
  · exact ⟨hlinks _ List.mem_cons_self, hh'.list.start_size.trans hh.list.start_size.symm⟩
  rcases List.mem_cons.1 hp with rfl | hp
  · exact ⟨hh'.list.end_link.trans hh.list.end_link.symm,
      hh'.list.end_size.trans hh.list.end_size.symm⟩
  obtain ⟨b, hb, rfl⟩ := List.mem_map.1 hp
  rcases List.mem_append.1 hb with hb | hb
  · exact ⟨hlinks _ (List.mem_cons_of_mem _ (List.mem_map_of_mem hb)),
      (hh'.list.sizes b hb).trans (hh.list.sizes b hb).symm⟩
  · obtain ⟨hsize, hlink⟩ := hh.marks b hb
    obtain ⟨hsize', hlink'⟩ := hh'.marks b hb
    exact ⟨hlink'.trans hlink.symm, hsize'.trans hsize.symm⟩

theorem take_refines {m : Mem} {l₁ l₂ : List Block} {c : Block} {pxEnd prev blk w bit : UInt32}
    (hin : InMemory L m (l₁ ++ c :: l₂)) (hcanon : Canonical (l₁ ++ c :: l₂))
    (hplaced : ∀ d ∈ l₁ ++ c :: l₂, Placed L d)
    (hys : L.xStart.toNat :: l₁.map Block.addr = ys ++ [prev.toNat]) (hblk : blk.toNat = c.addr)
    (hw : w.toNat ≤ c.size) (hw8 : w.toNat % 8 = 0) (hpos : 8 ≤ w.toNat)
    (hend : pxEnd.toNat = L.finish) (hbit : bit.toNat = 2 ^ 31) :
    ∃ m₁ m', splitBlock L pxEnd blk w (set_pxNextFreeBlock m prev (pxNextFreeBlock m blk)) =
        some m₁ ∧
      set_pxNextFreeBlock (set_xBlockSize m₁ blk (xBlockSize m₁ blk ||| bit)) blk 0 = m' ∧
      (xBlockSize m₁ blk).toNat = (remainder c w.toNat (l₁ ++ l₂)).1.size ∧
      InMemory L m' (remainder c w.toNat (l₁ ++ l₂)).2 ∧
      Marked m' (remainder c w.toNat (l₁ ++ l₂)).1 ∧
      ∃ q ∈ c.cells, L.Node q ∧ HeaderOf c w.toNat q ∧
        SameOutside (L.xStart.toNat :: c.addr :: q :: (l₁ ++ l₂).map Block.addr) m m' := by
  have hsub : List.Sublist (l₁ ++ l₂) (l₁ ++ c :: l₂) := (List.Sublist.refl _).middle c
  have hplrest : ∀ d ∈ l₁ ++ l₂, Placed L d := fun d hd => hplaced d (hsub.subset hd)
  have hc : c ∈ l₁ ++ c :: l₂ := List.mem_append_right _ List.mem_cons_self
  have hplc := hplaced c hc
  have hcanon' := hcanon.sublist hsub
  have hdisj := hcanon.disjoint
  obtain ⟨hin₁, hsame₁⟩ := unlink_refines hin hcanon hplaced hys hblk
  generalize set_pxNextFreeBlock m prev (pxNextFreeBlock m blk) = m₁ at hin₁ hsame₁ ⊢
  have hsize₁ : sizeAt m₁ c.addr = c.size := by
    rw [sizeAt_same L.sites hsame₁
      (fun q hq => (node_of_mem L.sites (sited_of_placed hplrest) hq).1) hplc.node
      (hplc.sited.notMem_nodes (sited_of_placed hplrest) hdisj), hin.sizes c hc]
  obtain ⟨m₂, hrun, hin₂, hsize₂, q, hq, hqn, hqc, hsame₂⟩ := splitBlock_refines hin₁ hcanon'
    hplrest hplc hdisj hblk hsize₁ hw hw8 ((by decide : 0 < 8).trans_le hpos) hend
  obtain ⟨-, hplaced', hdisj'⟩ := remainder_free hcanon' hplrest hplc hdisj hw8 hpos hw
  have haddr := remainder_addr c w.toNat (l₁ ++ l₂)
  generalize remainder c w.toNat (l₁ ++ l₂) = r at *
  obtain ⟨hpr, hplaced'⟩ := List.forall_mem_cons.1 hplaced'
  rw [← haddr] at hblk hsize₂
  obtain ⟨hin₃, hmark, hlink, hsame₃⟩ := mark_refines hin₂ hplaced' hpr hdisj' hblk hsize₂ hbit 0
  refine ⟨m₂, _, hrun, rfl, ?_, hin₃, ⟨hmark, hlink⟩, q, hq, hqn, hqc, ?_⟩
  · rw [toNat_xBlockSize, hblk, hsize₂]
  · refine ((hsame₁.mono ?_).trans hsame₂).trans (hsame₃.mono ?_)
    · exact List.cons_subset_cons _
        (List.subset_cons_of_subset _ (List.subset_cons_self _ _))
    · rw [haddr]
      simp

theorem takeBlock_holds {l₁ l₂ : List Block} {c : Block} {prev blk w : UInt32}
    (hh : HeapHolds L h (l₁ ++ c :: l₂) live)
    (hys : L.xStart.toNat :: l₁.map Block.addr = ys ++ [prev.toNat]) (hblk : blk.toNat = c.addr)
    (hw : w.toNat ≤ c.size) (hw8 : w.toNat % 8 = 0) (hpos : 8 ≤ w.toNat) :
    ∃ p h', takeBlock L h prev blk w = some (p, h') ∧
      p.toNat = c.addr + 8 ∧
      HeapHolds L h' (remainder c w.toNat (l₁ ++ l₂)).2
        ((remainder c w.toNat (l₁ ++ l₂)).1 :: live) ∧
      h'.xMinimumEverFreeBytesRemaining.toNat = min h.xMinimumEverFreeBytesRemaining.toNat
        (bytes (remainder c w.toNat (l₁ ++ l₂)).2) ∧
      (∃ q, HeaderOf c w.toNat q ∧
        SameOutside (L.xStart.toNat :: c.addr :: q :: (l₁ ++ l₂).map Block.addr) h.mem h'.mem) ∧
      ∀ d ∈ live, ∀ x ∈ d.cells, h'.mem x = h.mem x := by
  obtain ⟨hplaced, hplive⟩ := List.forall_mem_append.1 hh.placed
  have hsub : List.Sublist (l₁ ++ l₂) (l₁ ++ c :: l₂) := (List.Sublist.refl _).middle c
  have hplrest : ∀ d ∈ l₁ ++ l₂, Placed L d := fun d hd => hplaced d (hsub.subset hd)
  have hplc : Placed L c := hplaced c (List.mem_append_right _ List.mem_cons_self)
  -- the link in front of the block is its address
  have hprev : (pxNextFreeBlock h.mem prev).toNat = c.addr :=
    (hh.list.around L.sites hh.canonical (sited_of_placed hplaced) hys).after.1
  obtain ⟨m₁, m', hrun₁, hm', hsize, hin, hmark, q, hq, hqn, hqc, hsame⟩ :=
    take_refines hh.list
    hh.canonical hplaced hys hblk hw hw8 hpos hh.pxEnd hh.bit
  obtain ⟨hcanon', hplaced', hdisj'⟩ := remainder_free (hh.canonical.sublist hsub) hplrest hplc
    hh.canonical.disjoint hw8 hpos hw
  have hcells := (remainder_cells hw (l₁ ++ l₂)).trans (cover_middle l₁ c l₂).symm
  have hrem := (remainder_bytes hw (l₁ ++ l₂)).trans (bytes_middle l₁ c l₂).symm
  generalize remainder c w.toNat (l₁ ++ l₂) = r at *
  obtain ⟨b, free'⟩ := r
  dsimp only at *
  obtain ⟨hpb, hplaced'⟩ := List.forall_mem_cons.1 hplaced'
  have hb : b.cells ⊆ cover (l₁ ++ c :: l₂) := hcells ▸ Set.subset_union_left
  have hf : cover free' ⊆ cover (l₁ ++ c :: l₂) := hcells ▸ Set.subset_union_right
  have hfree : (h.xFreeBytesRemaining - xBlockSize m₁ blk).toNat = bytes free' := by
    rw [toNat_sub_of_le] <;> rw [hsize, hh.remaining] <;> omega
  have hlive : ∀ d ∈ live, ∀ x ∈ d.cells, m' x = h.mem x := fun d hd x hx =>
    (hplive d hd).cells_same hsame (hh.taken_apart hq hqn hd) hx
  let h' : MicroHeap :=
    { h with
      mem := m'
      xFreeBytesRemaining := h.xFreeBytesRemaining - xBlockSize m₁ blk
      xMinimumEverFreeBytesRemaining :=
        if h.xFreeBytesRemaining - xBlockSize m₁ blk < h.xMinimumEverFreeBytesRemaining then
          h.xFreeBytesRemaining - xBlockSize m₁ blk
        else h.xMinimumEverFreeBytesRemaining }
  have hrun : takeBlock L h prev blk w =
      some (pxNextFreeBlock h.mem prev + xHeapStructSize, h') := by
    rw [takeBlock]
    dsimp only
    rw [hrun₁]
    dsimp only [Option.bind_eq_bind, Option.bind_some]
    rw [hm']
  refine ⟨_, h', hrun, ?_, ⟨hh.pxEnd, hh.bit, hin, hcanon', ?_, ?_, ?_, ?_, ?_, hfree⟩, ?_,
    ⟨q, hqc, hsame⟩, hlive⟩
  · have h₁ := hplc.lt_finish
    have h₂ := L.finish_lt
    have h₃ : xHeapStructSize.toNat = 8 := rfl
    rw [toNat_add_of_lt] <;> rw [hprev, h₃]
    omega
  · exact List.forall_mem_append.2 ⟨hplaced', List.forall_mem_cons.2 ⟨hpb, hplive⟩⟩
  · refine List.forall_mem_cons.2 ⟨hmark, ?_⟩
    exact fun d hd => (hh.marks d hd).same (hplive d hd) (hlive d hd)
  · apply List.pairwise_cons.2
    exact ⟨fun d hd => ((hh.apart_free d hd).mono_right hb).symm, hh.apart⟩
  · exact List.forall_mem_cons.2 ⟨hdisj', fun d hd => (hh.apart_free d hd).mono_right hf⟩
  · rw [cover_cons, ← Set.union_assoc, Set.union_comm (cover free'), hcells, hh.tiled]
  · rw [← hfree]
    exact toNat_min _ _

end Holds

end RobotCar

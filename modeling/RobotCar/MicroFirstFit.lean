import RobotCar.MicroRosAllocators

namespace RobotCar
open Memory Linked FreeList Words Transition
set_option autoImplicit true

/-! ### Insertion into any free list -/

/-- A block of `ucHeap` below the end marker, with room for its header. -/
structure Inside (L : HeapLayout) (b : Block) : Prop where
  size_ge : 8 ≤ b.size
  lo : L.ucHeap.toNat ≤ b.addr
  hi : b.addr + b.size ≤ L.finish

/-- The list from `xStart` to `pxEnd` consists of these blocks: in the order of their addresses,
and no two overlap or are adjacent. -/
structure FreeListAt (L : HeapLayout) (pxEnd : UInt32) (m : Mem) (free : List Block) : Prop where
  pxEnd : pxEnd.toNat = L.finish
  list : InMemory L m free
  inside : ∀ c ∈ free, Inside L c
  ordered : free.Pairwise fun b c => b.addr < c.addr
  disjoint : free.Pairwise fun b c => Disjoint b.cells c.cells
  apart : ∀ b ∈ free, ∀ c ∈ free, b.addr + b.size ≠ c.addr

section Insertion
variable {L : HeapLayout} {m : Mem} {pxEnd blk : UInt32} {free l : List Block} {b : Block}

theorem Inside.pos (h : Inside L b) : 0 < b.size := (by decide : 0 < 8).trans_le h.size_ge

theorem Inside.join (hb : Inside L b) (hc : Inside L c) (h : b.addr + b.size = c.addr) :
    Inside L ⟨b.addr, b.size + c.size⟩ := by
  refine ⟨hb.size_ge.trans (Nat.le_add_right _ _), hb.lo, ?_⟩
  have hhi := hc.hi
  dsimp only
  omega

theorem FreeListAt.canonical (h : FreeListAt L pxEnd m free) : Canonical free :=
  canonical_iff.2 ⟨fun c hc => (h.inside c hc).pos, h.ordered, h.disjoint, h.apart⟩

def SiteOf (L : HeapLayout) (l : List Block) (p : Nat) : Prop :=
  p = L.xStart.toNat ∨ p = L.finish ∨ ∃ c ∈ l, p = c.addr

theorem sites_of_disjoint (hin : ∀ c ∈ l, Inside L c)
    (hd : l.Pairwise fun b c => Disjoint b.cells c.cells) : Sites L (SiteOf L l) := by
  have hblock (c : Block) (hc : c ∈ l) :
      (c.addr + 8 ≤ L.xStart.toNat ∨ L.xStart.toNat + 8 ≤ c.addr) ∧ c.addr + 8 ≤ L.finish := by
    obtain ⟨hsize, hlo, hhi⟩ := hin c hc
    exact ⟨L.xStart_outside hlo (by omega), by omega⟩
  have hblocks (c d : Block) (hc : c ∈ l) (hm : d ∈ l) (hne : c.addr ≠ d.addr) :
      c.addr + 8 ≤ d.addr ∨ d.addr + 8 ≤ c.addr := by
    have hsymm : Std.Symm fun b c : Block => Disjoint b.cells c.cells := ⟨fun _ _ h => h.symm⟩
    have hcd : Disjoint c.cells d.cells :=
      hd.forall hc hm fun he => hne (congrArg Block.addr he)
    have hsize := (hin c hc).size_ge
    have hsize' := (hin d hm).size_ge
    have hap := (Block.disjoint_iff (hin c hc).pos (hin d hm).pos).1 hcd
    omega
  have hends := L.xStart_apart L.start_le_finish le_rfl
  refine ⟨.inl rfl, .inr (.inl rfl), ?_⟩
  rintro p q (rfl | rfl | ⟨c, hc, rfl⟩) (rfl | rfl | ⟨d, hm, rfl⟩) hne
  · exact absurd rfl hne
  · exact hends.symm
  · exact (hblock d hm).1.symm
  · exact hends
  · exact absurd rfl hne
  · exact .inr (hblock d hm).2
  · exact (hblock c hc).1
  · exact .inl (hblock c hc).2
  · exact hblocks c d hc hm hne

theorem Inside.sited (h : Inside L b) (hb : b ∈ l) : Sited L (SiteOf L l) b :=
  ⟨.inr (.inr ⟨b, hb, rfl⟩), h.size_ge, h.lo, h.hi⟩

/-- Insertion keeps the free list canonical, and adds the block. -/
theorem insert_keeps_list (h : FreeListAt L pxEnd m free) (hb : Inside L b)
    (hd : ∀ c ∈ free, Disjoint b.cells c.cells) (hblk : blk.toNat = b.addr)
    (hsize : (xBlockSize m blk).toNat = b.size) :
    ∃ m' free', prvInsertBlockIntoFreeList L pxEnd blk m = some m' ∧
      FreeListAt L pxEnd m' free' ∧ cover free' = cover free ∪ b.cells := by
  have hall : ∀ c ∈ b :: free, Inside L c := List.forall_mem_cons.2 ⟨hb, h.inside⟩
  have hN := sites_of_disjoint hall (List.pairwise_cons.2 ⟨hd, h.disjoint⟩)
  have hsited : ∀ c ∈ free, Sited L (SiteOf L (b :: free)) c := fun c hc =>
    (h.inside c hc).sited (List.mem_cons_of_mem b hc)
  have hdc : Disjoint b.cells (cover free) := by
    rw [Set.disjoint_left]
    rintro x hx ⟨c, hc, hxc⟩
    exact Set.disjoint_left.1 (hd c hc) hx hxc
  have hsize' : sizeAt m b.addr = b.size := by rw [← hblk, ← toNat_xBlockSize, hsize]
  obtain ⟨m', hrun, hin, -⟩ := insert_refines hN h.list h.canonical hsited
    (hb.sited List.mem_cons_self) hdc hblk hsize' h.pxEnd
  obtain ⟨-, hord, hdis, hadj⟩ := canonical_iff.1 (h.canonical.insertBlock hb.pos hdc)
  refine ⟨m', insertBlock b free, hrun, ⟨h.pxEnd, hin, ?_, hord, hdis, hadj⟩, ?_⟩
  · exact forall_insert (fun _ _ => Inside.join) hb h.inside
  · rw [cover_insert, Set.union_comm]

end Insertion

/-- Two free blocks, and a third one between them. -/
def hole : Mem :=
  let m := set_pxNextFreeBlock (fun _ => 0) exampleLayout.xStart 0x20000108
  let m := set_xBlockSize m 0x20000108 24
  let m := set_pxNextFreeBlock m 0x20000108 0x20000138
  let m := set_xBlockSize m 0x20000138 16
  let m := set_pxNextFreeBlock m 0x20000138 0x20018ff8
  set_xBlockSize m 0x20000120 24

theorem hole_list :
    FreeListAt exampleLayout 0x20018ff8 hole [⟨0x20000108, 24⟩, ⟨0x20000138, 16⟩] := by
  have hcanon : Canonical [⟨0x20000108, 24⟩, ⟨0x20000138, 16⟩] := ⟨by decide, by decide⟩
  obtain ⟨-, hord, hdis, hadj⟩ := canonical_iff.1 hcanon
  refine ⟨rfl, ⟨?_, by decide +kernel, by decide +kernel, by decide +kernel, by decide +kernel⟩, ?_,
    hord, hdis, hadj⟩
  · have hlast : linkAt hole 0x20000138 = 0x20018ff8 := by decide +kernel
    exact ⟨rfl, by decide +kernel, by decide +kernel, hlast⟩
  · intro c hc
    have hinside : 8 ≤ c.size ∧ exampleLayout.ucHeap.toNat ≤ c.addr ∧
        c.addr + c.size ≤ exampleLayout.finish := by
      revert c
      decide
    exact ⟨hinside.1, hinside.2.1, hinside.2.2⟩

/-- A block that is adjacent on both sides. -/
theorem insert_into_hole :
    ∃ m' free', prvInsertBlockIntoFreeList exampleLayout 0x20018ff8 0x20000120 hole = some m' ∧
      FreeListAt exampleLayout 0x20018ff8 m' free' ∧
        cover free' =
          cover [⟨0x20000108, 24⟩, ⟨0x20000138, 16⟩] ∪ Block.cells ⟨0x20000120, 24⟩ := by
  apply insert_keeps_list hole_list
  · exact ⟨by decide, by decide, by decide⟩
  · intro c hc
    have hap : c.addr + c.size ≤ 0x20000120 ∨ 0x20000120 + 24 ≤ c.addr := by
      revert c
      decide
    exact (Block.disjoint_iff (by decide) (hole_list.inside c hc).pos).2 hap.symm
  · rfl
  · decide +kernel

/-! ### First fit -/

def ready (L : HeapLayout) (h : MicroHeap) : MicroHeap :=
  if h.pxEnd = 0 then prvHeapInit L h else h

/-- What a request for a block of `w` bytes takes from a free block. -/
def taken (c : Block) (w : Nat) : Block := ⟨c.addr, if c.size - w > 16 then w else c.size⟩

/-- What goes back to the free list. -/
def leftover (c : Block) (w : Nat) : List Block :=
  if c.size - w > 16 then [⟨c.addr + w, c.size - w⟩] else []

/-- A block of `w` bytes has been taken from the free block `c`. -/
structure TakenFrom (L : HeapLayout) (h : MicroHeap) (live : List (UInt32 × UInt32))
    (l₁ : List Block) (c : Block) (l₂ : List Block) (w : Nat) (pv : UInt32) (h' : MicroHeap) :
    Prop where
  payload : pv.toNat = c.addr + 8
  block : blockOf h' pv = taken c w
  list : freeBlocks L h' = some (l₁ ++ (leftover c w ++ l₂))
  counter : h'.xFreeBytesRemaining.toNat + (taken c w).size = h.xFreeBytesRemaining.toNat
  /-- of the other free blocks, only a link is written -/
  others : ∀ d ∈ l₁ ++ l₂, ∀ x ∈ d.cells, d.addr + 8 ≤ x → h'.mem x = h.mem x
  headers : SameOutside
    (L.xStart.toNat :: c.addr :: (l₁ ++ (leftover c w ++ l₂)).map Block.addr) h.mem h'.mem
  live : ∀ q ∈ live, blockOf h' q.1 = blockOf h q.1 ∧
    ∀ x ∈ (blockOf h q.1).cells, h'.mem x = h.mem x

/-- A request for `n` bytes is met exactly if a free block is large enough, with the first one. -/
structure FirstFit (L : HeapLayout) (h : MicroHeap) (live : List (UInt32 × UInt32)) (n : UInt32)
    (free : List Block) : Prop where
  list : freeBlocks L (ready L h) = some free
  ordered : free.Pairwise fun b c => b.addr < c.addr
  /-- no sum wraps -/
  wanted : (wantedSize n).toNat = blockBytes n.toNat
  ends : ∀ b ∈ free, b.addr + b.size < 2 ^ 32
  /-- the check of the counter lets every request pass that can be met -/
  admitted : ∀ b ∈ free, blockBytes n.toNat ≤ b.size →
    wantedSize n ≤ (ready L h).xFreeBytesRemaining
  found : (∃ pv h', pvPortMallocMicroROS L n h = some (pv, h')) ↔
    ∃ b ∈ free, blockBytes n.toNat ≤ b.size
  first : ∀ pv h', pvPortMallocMicroROS L n h = some (pv, h') → ∃ l₁ c l₂,
    free = l₁ ++ c :: l₂ ∧ (∀ d ∈ l₁, d.size < blockBytes n.toNat) ∧ blockBytes n.toNat ≤ c.size ∧
      TakenFrom L (ready L h) live l₁ c l₂ (blockBytes n.toNat) pv h'

section FirstFit
variable {L : HeapLayout} {h h₁ : MicroHeap} {free l₁ l₂ : List Block} {c : Block}
  {qs : List (UInt32 × UInt32)} {n p : UInt32}

theorem malloc_eq_none (hrun : allocate L n (vTaskSuspendAll h) = some (0, h₁)) :
    pvPortMallocMicroROS L n h = none := by
  rw [pvPortMallocMicroROS, hrun]
  rfl

theorem malloc_eq_some (hrun : allocate L n (vTaskSuspendAll h) = some (p, h₁))
    (hmod : p.toNat % 8 = 0) (hpos : 0 < p.toNat) :
    pvPortMallocMicroROS L n h = some (p, xTaskResumeAll h₁) := by
  have hmask : p &&& portBYTE_ALIGNMENT_MASK = 0 := by
    apply UInt32.toNat_inj.1
    rw [toNat_and_mask _ 3 rfl]
    exact hmod
  have hne : p ≠ 0 := by
    intro he
    rw [he] at hpos
    exact absurd hpos (lt_irrefl 0)
  rw [pvPortMallocMicroROS, hrun]
  dsimp only [Option.bind_eq_bind, Option.bind_some]
  rw [if_neg (not_not.2 hmask), if_neg hne]

theorem remainder_eq {w : Nat} (hcanon : Canonical (l₁ ++ c :: l₂)) (hpos : 0 < w)
    (hw : w ≤ c.size) : remainder c w (l₁ ++ l₂) = (taken c w, l₁ ++ (leftover c w ++ l₂)) := by
  rw [remainder, taken, leftover]
  split
  · rw [hcanon.insert_end]
    · rfl
    · exact Nat.lt_add_of_pos_right hpos
    · dsimp only
      omega
  · rfl

theorem headerOf_subset {w q : Nat} (hq : HeaderOf c w q) :
    L.xStart.toNat :: c.addr :: q :: (l₁ ++ l₂).map Block.addr ⊆
      L.xStart.toNat :: c.addr :: (l₁ ++ (leftover c w ++ l₂)).map Block.addr := by
  have hsub : (l₁ ++ l₂).map Block.addr ⊆ (l₁ ++ (leftover c w ++ l₂)).map Block.addr :=
    List.map_subset _ (List.append_subset.2 ⟨List.subset_append_left _ _,
      List.subset_append_of_subset_right _ (List.subset_append_right _ _)⟩)
  apply List.cons_subset_cons
  rcases hq with rfl | ⟨hbig, rfl⟩
  · exact List.cons_subset.2 ⟨List.mem_cons_self, List.cons_subset_cons _ hsub⟩
  · have hmem : c.addr + w ∈ (l₁ ++ (leftover c w ++ l₂)).map Block.addr := by
      rw [leftover, if_pos hbig]
      simp
    exact List.cons_subset_cons _ (List.cons_subset.2 ⟨hmem, hsub⟩)

theorem HeapHolds.others_same {m' : Mem} {w q : Nat} (hh : HeapHolds L h (l₁ ++ c :: l₂) live)
    (hpos : 0 < w) (hq : HeaderOf c w q)
    (hs : SameOutside (L.xStart.toNat :: c.addr :: q :: (l₁ ++ l₂).map Block.addr) h.mem m')
    (hd : d ∈ l₁ ++ l₂) (hx : x ∈ d.cells) (hlo : d.addr + 8 ≤ x) : m' x = h.mem x := by
  have hsub : List.Sublist (l₁ ++ l₂) (l₁ ++ c :: l₂) := (List.Sublist.refl _).middle c
  have hplaced (e : Block) (he : e ∈ l₁ ++ c :: l₂) : Placed L e :=
    hh.placed e (List.mem_append_left _ he)
  have hc : c ∈ l₁ ++ c :: l₂ := List.mem_append_right _ List.mem_cons_self
  have hplc := hplaced c hc
  have hpld := hplaced d (hsub.subset hd)
  rw [Block.mem_cells] at hx
  have hgap (e : Block) (he : e ∈ l₁ ++ c :: l₂) (hne : e ≠ d) :
      x < e.addr ∨ e.addr + e.size ≤ x := by
    have hap := hh.canonical.apart he (hsub.subset hd) hne
    omega
  have hcd : c ≠ d := by
    rintro rfl
    exact Set.disjoint_left.1 hh.canonical.disjoint (Block.addr_mem_cells hplc.pos)
      (cells_subset_cover hd (Block.addr_mem_cells hplc.pos))
  have hxc := hgap c hc hcd
  have hge := hplc.size_ge
  apply hs
  intro p hp
  rcases List.mem_cons.1 hp with rfl | hp
  · have hap := L.xStart_apart (p := x) (by have h := hpld.lo; omega) (by have h := hpld.hi; omega)
    omega
  rcases List.mem_cons.1 hp with rfl | hp
  · omega
  rcases List.mem_cons.1 hp with rfl | hp
  · rcases hq with rfl | ⟨hbig, rfl⟩ <;> omega
  · obtain ⟨e, he, rfl⟩ := List.mem_map.1 hp
    by_cases hed : e = d
    · exact .inr (hed ▸ hlo)
    · have hxe := hgap e (hsub.subset he) hed
      have hge := (hplaced e (hsub.subset he)).size_ge
      omega

theorem allocate_ready (L : HeapLayout) (n : UInt32) (h : MicroHeap) :
    allocate L n (vTaskSuspendAll h) = allocate L n (vTaskSuspendAll (ready L h)) := by
  rw [ready]
  split
  · rename_i he
    exact allocate_first n he
  · rfl

theorem HeapHolds.takenFrom {w : Nat} (hh : HeapHolds L h (l₁ ++ c :: l₂) (blocksOf h qs))
    (hp : Payloads h qs) (hpos : 0 < w) (hw : w ≤ c.size) (hpay : p.toNat = c.addr + 8)
    (hh₁ : HeapHolds L h₁ (l₁ ++ (leftover c w ++ l₂)) (taken c w :: blocksOf h qs))
    (hframe : ∃ q, HeaderOf c w q ∧
      SameOutside (L.xStart.toNat :: c.addr :: q :: (l₁ ++ l₂).map Block.addr) h.mem h₁.mem)
    (hsame : ∀ d ∈ blocksOf h qs, ∀ x ∈ d.cells, h₁.mem x = h.mem x) :
    TakenFrom L h qs l₁ c l₂ w p (xTaskResumeAll h₁) := by
  have hh' := hh₁.resched (h₁.uxSchedulerSuspended - 1)
  have hbytes : bytes (l₁ ++ (leftover c w ++ l₂)) + (taken c w).size = bytes (l₁ ++ c :: l₂) := by
    have hrem := remainder_bytes hw (l₁ ++ l₂)
    rw [remainder_eq hh.canonical hpos hw] at hrem
    rw [bytes_middle, ← hrem, Nat.add_comm]
  obtain ⟨hblocks, -⟩ := hh'.payloads hp (List.subset_cons_self _ _)
  obtain ⟨q, hq, hs⟩ := hframe
  refine ⟨hpay, hh'.blockOf_eq List.mem_cons_self hpay, hh'.freeBlocks_eq, ?_, ?_,
    hs.mono (headerOf_subset hq), ?_⟩
  · rw [hh.remaining, ← hbytes, ← hh₁.remaining]
    rfl
  · exact fun d hd x hx hlo => hh.others_same hpos hq hs hd hx hlo
  · exact fun q hq => ⟨List.map_inj_left.1 hblocks q hq, hsame _ (blockOf_mem hq)⟩

theorem HeapHolds.first_fit (hh : HeapHolds L (ready L h) free (blocksOf (ready L h) qs))
    (hp : Payloads (ready L h) qs) (hpos : 0 < n.toNat) (hlt : n.toNat < 2 ^ 31) :
    FirstFit L h qs n free := by
  have hfin := L.finish_lt
  obtain ⟨hw, hw8, hge, -⟩ := wantedSize_block hpos hlt
  have hplaced (d : Block) (hd : d ∈ free) : Placed L d :=
    hh.placed d (List.mem_append_left _ hd)
  obtain ⟨-, hord, -, -⟩ := canonical_iff.1 hh.canonical
  have hends : ∀ b ∈ free, b.addr + b.size < 2 ^ 32 := by
    intro b hb
    have hhi := (hplaced b hb).hi
    omega
  have hadmit : ∀ b ∈ free, blockBytes n.toNat ≤ b.size →
      wantedSize n ≤ (ready L h).xFreeBytesRemaining := by
    intro b hb hle
    rw [UInt32.le_iff_toNat_le, hw, hh.remaining]
    exact hle.trans (size_le_bytes hb)
  have hrun := allocate_ready L n h
  rcases allocate_holds (hh.resched ((ready L h).uxSchedulerSuspended + 1)) n with
    ⟨hnone, hcause⟩ | ⟨l₁, c, l₂, p, h₁, rfl, -, -, hsmall, hle, hsome, hpay, hh₁, -, hframe, hsame⟩
  · have hall : ∀ d ∈ free, d.size < blockBytes n.toNat := by
      rcases hcause with hz | hbig | hall
      · omega
      · omega
      · exact hall
    have hret := malloc_eq_none (hrun.trans hnone)
    refine ⟨hh.freeBlocks_eq, hord, hw, hends, hadmit, iff_of_false ?_ ?_, ?_⟩
    · rintro ⟨pv, h', hsome⟩
      rw [hret] at hsome
      cases hsome
    · rintro ⟨b, hb, hle⟩
      exact absurd hle (Nat.not_le_of_lt (hall b hb))
    · intro pv h' hsome
      rw [hret] at hsome
      cases hsome
  · have hc : c ∈ l₁ ++ c :: l₂ := List.mem_append_right _ List.mem_cons_self
    have hmod := (hplaced c hc).addr_mod
    have hret := malloc_eq_some (hrun.trans hsome) (by omega) (by omega)
    rw [remainder_eq hh.canonical (by omega) hle] at hh₁
    refine ⟨hh.freeBlocks_eq, hord, hw, hends, hadmit, iff_of_true ⟨p, _, hret⟩ ⟨c, hc, hle⟩, ?_⟩
    intro pv h' hsome'
    obtain ⟨rfl, rfl⟩ := Prod.mk.inj (Option.some.inj (hret.symm.trans hsome'))
    exact ⟨l₁, c, l₂, rfl, hsmall, hle,
      hh.takenFrom hp (by omega) hle hpay hh₁ hframe hsame⟩

theorem HeapSound.first_fit (hs : HeapSound L h qs) (hpos : 0 < n.toNat) (hlt : n.toNat < 2 ^ 31) :
    ∃ free, FirstFit L h qs n free := by
  rcases hs with ⟨he, rfl⟩ | ⟨free, hh, hp⟩
  · have hready : ready L h = prvHeapInit L h := if_pos he
    have hinit := (prvHeapInit_holds L h).1
    rw [← hready] at hinit
    exact ⟨_, HeapHolds.first_fit hinit (List.forall_mem_nil _) hpos hlt⟩
  · have hready : ready L h = h := if_neg hh.pxEnd_ne
    rw [← hready] at hh hp
    exact ⟨free, hh.first_fit hp hpos hlt⟩

end FirstFit

/-- In every state of a run whose reallocations are harmless, an allocation finds memory exactly
when there is some. -/
theorem run_first_fit {L : HeapLayout} {m : Mem} {calls : List AllocatorCall} {r : RosRun}
    {n : UInt32} (h : RosRun.run L m calls = some r)
    (hm : AllMeet (RosRun.step L) (RosRun.Harmless L) (RosRun.start m) calls)
    (hpos : 0 < n.toNat) (hlt : n.toNat < 2 ^ 31) :
    ∃ free, FirstFit L r.memory.heap r.live n free :=
  (RosRun.run_sound h hm).first_fit hpos hlt

/-- Behind a block of 24 bytes. -/
theorem first_fit_second :
    ∃ r, RosRun.run exampleLayout (fun _ => 0) [.allocate 10] = some r ∧
      ∃ free, FirstFit exampleLayout r.memory.heap r.live 100 free := by
  have hsome : (RosRun.run exampleLayout (fun _ => 0) [.allocate 10]).isSome = true := by
    decide +kernel
  obtain ⟨r, hr⟩ := Option.isSome_iff_exists.1 hsome
  have hm : AllMeet (RosRun.step exampleLayout) (RosRun.Harmless exampleLayout)
      (RosRun.start fun _ => 0) [.allocate 10] := ⟨trivial, fun _ _ => trivial⟩
  exact ⟨r, hr, run_first_fit hr hm (by decide) (by decide)⟩

/-- The copy of the reallocation lays the eight bytes that are written on the header behind the new
block. -/
def overrun : List AllocatorCall :=
  [.allocate 100, .write 0x20000030 0xf8, .write 0x20000031 0x8f, .write 0x20000032 0x01,
    .write 0x20000033 0x20, .write 0x20000034 0xf8, .write 0x20000035 0xff,
    .write 0x20000036 0xff, .write 0x20000037 0x7f, .reallocate 0x20000010 30]

/-- A free block of `0x7ffffff8` bytes is in the list, and 131072 bytes are not handed out. -/
theorem overrun_misses :
    ¬∀ (L : HeapLayout) (m : Mem) (calls : List AllocatorCall) (r : RosRun) (n : UInt32),
      RosRun.run L m calls = some r → 0 < n.toNat → n.toNat < 2 ^ 31 →
        ∃ free, FirstFit L r.memory.heap r.live n free := by
  intro hall
  have hcheck : (RosRun.run exampleLayout (fun _ => 0) overrun).map (fun r =>
      (freeBlocks exampleLayout r.memory.heap, decide (r.memory.heap.pxEnd = 0),
        (pvPortMallocMicroROS exampleLayout 0x20000 r.memory.heap).isNone)) =
      some (some [⟨0x20000008, 112⟩, ⟨0x200000a0, 0x7ffffff8⟩], false, true) := by
    decide +kernel
  obtain ⟨r, hr, he⟩ := Option.map_eq_some_iff.1 hcheck
  obtain ⟨hlist, he⟩ := Prod.mk.inj he
  obtain ⟨hend, hnone⟩ := Prod.mk.inj he
  obtain ⟨free, hf⟩ := hall exampleLayout _ overrun r 0x20000 hr (by decide) (by decide)
  have hready : ready exampleLayout r.memory.heap = r.memory.heap :=
    if_neg (of_decide_eq_false hend)
  have hfree := hf.list
  rw [hready, hlist] at hfree
  obtain rfl := Option.some.inj hfree
  obtain ⟨pv, h', hret⟩ := hf.found.2 ⟨⟨0x200000a0, 0x7ffffff8⟩,
    List.mem_cons_of_mem _ List.mem_cons_self, by decide⟩
  rw [hret] at hnone
  cases hnone

end RobotCar

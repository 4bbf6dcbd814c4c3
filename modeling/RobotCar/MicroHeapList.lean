import RobotCar.Lib.Chain
import RobotCar.Lib.FreeList
import RobotCar.Lib.Words
import RobotCar.MicroHeap

namespace RobotCar
open Memory Linked FreeList Words
set_option autoImplicit true

/-! ### Headers in memory -/

def linkAt (m : Mem) (p : Nat) : Nat := (load32 m p).toNat

def sizeAt (m : Mem) (p : Nat) : Nat := (load32 m (p + 4)).toNat

namespace HeapLayout

/-- The first aligned address of `ucHeap`. -/
def start (L : HeapLayout) : Nat := (L.ucHeap.toNat + 7) / 8 * 8

def finish (L : HeapLayout) : Nat := (L.ucHeap.toNat + 102392) / 8 * 8

def Node (L : HeapLayout) (p : Nat) : Prop :=
  p = L.xStart.toNat ∨ (p % 8 = 0 ∧ L.start ≤ p ∧ p ≤ L.finish)

theorem start_lt_finish (L : HeapLayout) : L.start + 8 ≤ L.finish := by
  unfold start finish
  omega

theorem start_le_finish (L : HeapLayout) : L.start ≤ L.finish :=
  (Nat.le_add_right _ 8).trans L.start_lt_finish

theorem finish_le (L : HeapLayout) : L.finish ≤ L.start + 102392 := by
  unfold finish start
  omega

theorem finish_le_ucHeap (L : HeapLayout) : L.finish ≤ L.ucHeap.toNat + 102392 :=
  Nat.div_mul_le_self _ 8

theorem finish_lt (L : HeapLayout) : L.finish + 8 < 2 ^ 32 := by
  have h := L.fits
  unfold finish
  omega

theorem start_pos (L : HeapLayout) : 0 < L.start := by
  have h := L.nonnull
  unfold start
  omega

theorem node_xStart (L : HeapLayout) : L.Node L.xStart.toNat := .inl rfl

theorem node_finish (L : HeapLayout) : L.Node L.finish := by
  have h := L.start_lt_finish
  refine .inr ⟨?_, by omega, le_rfl⟩
  unfold finish
  omega

theorem ucHeap_le_start (L : HeapLayout) : L.ucHeap.toNat ≤ L.start := by
  unfold start
  omega

theorem xStart_outside (L : HeapLayout) (h₁ : L.ucHeap.toNat ≤ p) (h₂ : p ≤ L.finish) :
    p + 8 ≤ L.xStart.toNat ∨ L.xStart.toNat + 8 ≤ p := by
  have h := L.apart
  unfold finish at h₂
  omega

theorem xStart_apart (L : HeapLayout) (h₁ : L.start ≤ p) (h₂ : p ≤ L.finish) :
    p + 8 ≤ L.xStart.toNat ∨ L.xStart.toNat + 8 ≤ p :=
  L.xStart_outside (L.ucHeap_le_start.trans h₁) h₂

theorem Node.apart {L : HeapLayout} (hp : L.Node p) (hq : L.Node q) (hne : p ≠ q) :
    p + 8 ≤ q ∨ q + 8 ≤ p := by
  rcases hp with rfl | ⟨hp, hp₁, hp₂⟩
  · rcases hq with rfl | ⟨hq, hq₁, hq₂⟩
    · exact absurd rfl hne
    · exact (L.xStart_apart hq₁ hq₂).symm
  · rcases hq with rfl | ⟨hq, hq₁, hq₂⟩
    · exact L.xStart_apart hp₁ hp₂
    · omega

end HeapLayout

/-- Where headers may be: at `xStart`, at the end marker and at other addresses, none of which is in
the header at another. -/
structure Sites (L : HeapLayout) (N : Nat → Prop) : Prop where
  head : N L.xStart.toNat
  last : N L.finish
  apart : ∀ p q, N p → N q → p ≠ q → p + 8 ≤ q ∨ q + 8 ≤ p

theorem HeapLayout.sites (L : HeapLayout) : Sites L L.Node :=
  ⟨L.node_xStart, L.node_finish, fun _ _ => Node.apart⟩

section Headers
variable {L : HeapLayout} {N : Nat → Prop} {m m' : Mem} {p : UInt32}

theorem toNat_pxNextFreeBlock (m : Mem) (p : UInt32) :
    (pxNextFreeBlock m p).toNat = linkAt m p.toNat := rfl

theorem toNat_xBlockSize (m : Mem) (p : UInt32) : (xBlockSize m p).toNat = sizeAt m p.toNat := rfl

@[simp] theorem linkAt_set_link (m : Mem) (p v : UInt32) :
    linkAt (set_pxNextFreeBlock m p v) p.toNat = v.toNat :=
  congrArg UInt32.toNat (load32_store32 m _ v)

@[simp] theorem sizeAt_set_size (m : Mem) (p v : UInt32) :
    sizeAt (set_xBlockSize m p v) p.toNat = v.toNat :=
  congrArg UInt32.toNat (load32_store32 m _ v)

@[simp] theorem sizeAt_set_link (m : Mem) (p v : UInt32) :
    sizeAt (set_pxNextFreeBlock m p v) p.toNat = sizeAt m p.toNat :=
  congrArg UInt32.toNat (load32_store32_of_apart (.inr le_rfl))

@[simp] theorem linkAt_set_size (m : Mem) (p v : UInt32) :
    linkAt (set_xBlockSize m p v) p.toNat = linkAt m p.toNat :=
  congrArg UInt32.toNat (load32_store32_of_apart (.inl le_rfl))

theorem same_set_link (m : Mem) (v : UInt32) (hp : p.toNat ∈ ps) :
    SameOutside ps m (set_pxNextFreeBlock m p v) := sameOutside_store32 hp le_rfl (by omega)

theorem same_set_size (m : Mem) (v : UInt32) (hp : p.toNat ∈ ps) :
    SameOutside ps m (set_xBlockSize m p v) := sameOutside_store32 hp (by omega) (by omega)

theorem header_same {m m' : Mem} (hs : ∀ x, q ≤ x → x < q + 8 → m' x = m x) :
    linkAt m' q = linkAt m q ∧ sizeAt m' q = sizeAt m q := by
  constructor
  · apply congrArg UInt32.toNat
    apply load32_congr
    intro i hi
    exact hs _ (by omega) (by omega)
  · apply congrArg UInt32.toNat
    apply load32_congr
    intro i hi
    exact hs _ (by omega) (by omega)

theorem header_outside (hN : Sites L N) (h : SameOutside ps m m') (hps : ∀ p ∈ ps, N p) (hq : N q)
    (hn : q ∉ ps) : linkAt m' q = linkAt m q ∧ sizeAt m' q = sizeAt m q := by
  apply header_same
  intro x hx hx'
  apply h
  intro p hp
  have hne : p ≠ q := fun he => hn (he ▸ hp)
  have hap := hN.apart p q (hps p hp) hq hne
  omega

theorem linkAt_same (hN : Sites L N) (h : SameOutside ps m m') (hps : ∀ p ∈ ps, N p) (hq : N q)
    (hn : q ∉ ps) : linkAt m' q = linkAt m q := (header_outside hN h hps hq hn).1

theorem sizeAt_same (hN : Sites L N) (h : SameOutside ps m m') (hps : ∀ p ∈ ps, N p) (hq : N q)
    (hn : q ∉ ps) : sizeAt m' q = sizeAt m q := (header_outside hN h hps hq hn).2

theorem nodes_singleton (hp : N q) : ∀ r ∈ [q], N r := by
  intro r hr
  rw [List.mem_singleton.1 hr]
  exact hp

theorem linkAt_set_size_of (hN : Sites L N) {v : UInt32} (hp : N p.toNat) (hq : N q) :
    linkAt (set_xBlockSize m p v) q = linkAt m q := by
  by_cases hqp : q = p.toNat
  · rw [hqp, linkAt_set_size]
  · exact linkAt_same hN (same_set_size m v List.mem_cons_self) (nodes_singleton hp) hq fun h =>
      hqp (List.mem_singleton.1 h)

theorem sizeAt_set_link_of (hN : Sites L N) {v : UInt32} (hp : N p.toNat) (hq : N q) :
    sizeAt (set_pxNextFreeBlock m p v) q = sizeAt m q := by
  by_cases hqp : q = p.toNat
  · rw [hqp, sizeAt_set_link]
  · exact sizeAt_same hN (same_set_link m v List.mem_cons_self) (nodes_singleton hp) hq fun h =>
      hqp (List.mem_singleton.1 h)

theorem linkAt_set_link_of_ne (hN : Sites L N) {v : UInt32} (hp : N p.toNat) (hq : N q)
    (hne : q ≠ p.toNat) : linkAt (set_pxNextFreeBlock m p v) q = linkAt m q :=
  linkAt_same hN (same_set_link m v List.mem_cons_self) (nodes_singleton hp) hq fun h =>
    hne (List.mem_singleton.1 h)

theorem sizeAt_set_size_of_ne (hN : Sites L N) {v : UInt32} (hp : N p.toNat) (hq : N q)
    (hne : q ≠ p.toNat) : sizeAt (set_xBlockSize m p v) q = sizeAt m q :=
  sizeAt_same hN (same_set_size m v List.mem_cons_self) (nodes_singleton hp) hq fun h =>
    hne (List.mem_singleton.1 h)

end Headers

/-! ### The free list in memory -/

/-- A block of the heap: aligned, and large enough for its header. -/
structure Placed (L : HeapLayout) (b : Block) : Prop where
  addr_mod : b.addr % 8 = 0
  size_mod : b.size % 8 = 0
  size_ge : 8 ≤ b.size
  lo : L.start ≤ b.addr
  hi : b.addr + b.size ≤ L.finish

/-- A block inside the heap, with its header at one of the sites. -/
structure Sited (L : HeapLayout) (N : Nat → Prop) (b : Block) : Prop where
  node : N b.addr
  size_ge : 8 ≤ b.size
  lo : L.ucHeap.toNat ≤ b.addr
  hi : b.addr + b.size ≤ L.finish

theorem Sited.pos {L : HeapLayout} {N : Nat → Prop} {b : Block} (h : Sited L N b) : 0 < b.size :=
  (by decide : 0 < 8).trans_le h.size_ge

theorem Sited.lt_finish {L : HeapLayout} {N : Nat → Prop} {b : Block} (h : Sited L N b) :
    b.addr < L.finish := by
  have h₁ := h.pos
  have h₂ := h.hi
  omega

theorem Sited.ne_xStart {L : HeapLayout} {N : Nat → Prop} {b : Block} (h : Sited L N b) :
    b.addr ≠ L.xStart.toNat := by
  have ha := L.xStart_outside h.lo ((Nat.le_add_right _ _).trans h.hi)
  omega

theorem Sited.join {L : HeapLayout} {N : Nat → Prop} {b c : Block} (hb : Sited L N b)
    (hc : Sited L N c) (h : b.addr + b.size = c.addr) : Sited L N ⟨b.addr, b.size + c.size⟩ := by
  refine ⟨hb.node, hb.size_ge.trans (Nat.le_add_right _ _), hb.lo, ?_⟩
  have h₁ := hc.hi
  dsimp only
  omega

theorem Placed.node {L : HeapLayout} {b : Block} (h : Placed L b) : L.Node b.addr :=
  .inr ⟨h.addr_mod, h.lo, (Nat.le_add_right _ _).trans h.hi⟩

theorem Placed.sited {L : HeapLayout} {b : Block} (h : Placed L b) : Sited L L.Node b :=
  ⟨h.node, h.size_ge, L.ucHeap_le_start.trans h.lo, h.hi⟩

theorem sited_of_placed {L : HeapLayout} {l : List Block} (h : ∀ c ∈ l, Placed L c) :
    ∀ c ∈ l, Sited L L.Node c := fun c hc => (h c hc).sited

theorem Placed.pos {L : HeapLayout} {b : Block} (h : Placed L b) : 0 < b.size := h.sited.pos

theorem Placed.lt_finish {L : HeapLayout} {b : Block} (h : Placed L b) : b.addr < L.finish :=
  h.sited.lt_finish

theorem Placed.ne_xStart {L : HeapLayout} {b : Block} (h : Placed L b) :
    b.addr ≠ L.xStart.toNat := h.sited.ne_xStart

theorem Placed.join {L : HeapLayout} {b c : Block} (hb : Placed L b) (hc : Placed L c)
    (h : b.addr + b.size = c.addr) : Placed L ⟨b.addr, b.size + c.size⟩ := by
  refine ⟨hb.addr_mod, ?_, hb.size_ge.trans (Nat.le_add_right _ _), hb.lo, ?_⟩
  · have h₁ := hb.size_mod
    have h₂ := hc.size_mod
    dsimp only
    omega
  · have h₁ := hc.hi
    dsimp only
    omega

theorem Placed.cells_same {L : HeapLayout} {b : Block} {m m' : Mem} (hb : Placed L b)
    (hs : SameOutside ps m m') (hps : ∀ p ∈ ps, L.Node p ∧ p ∉ b.cells) (hx : x ∈ b.cells) :
    m' x = m x := by
  obtain ⟨hx₁, hx₂⟩ := Block.mem_cells.1 hx
  have hlo := hb.lo
  have hhi := hb.hi
  apply hs
  intro p hp
  obtain ⟨hnode, hnot⟩ := hps p hp
  rw [Block.mem_cells] at hnot
  rcases hnode with rfl | ⟨hmod, -, -⟩
  · have ha := L.xStart_apart hlo (by omega)
    have he := L.xStart_apart (p := b.addr + b.size) (by omega) hhi
    omega
  · have h₁ := hb.addr_mod
    have h₂ := hb.size_mod
    omega

/-- The list from `xStart` to the end marker consists of these blocks. -/
structure InMemory (L : HeapLayout) (m : Mem) (free : List Block) : Prop where
  chain : Chain (linkAt m) L.xStart.toNat (L.xStart.toNat :: free.map Block.addr) L.finish
  sizes : ∀ b ∈ free, sizeAt m b.addr = b.size
  start_size : sizeAt m L.xStart.toNat = 0
  end_size : sizeAt m L.finish = 0
  end_link : linkAt m L.finish = 0

theorem nodup_nodes {L : HeapLayout} {free : List Block} (hcanon : Canonical free)
    (hplaced : ∀ c ∈ free, Sited L N c) : (L.xStart.toNat :: free.map Block.addr).Nodup := by
  apply List.nodup_cons.2
  refine ⟨fun h => ?_, hcanon.nodup⟩
  obtain ⟨c, hc, he⟩ := List.mem_map.1 h
  exact (hplaced c hc).ne_xStart he

theorem node_of_mem {L : HeapLayout} {free : List Block} (hN : Sites L N)
    (hplaced : ∀ c ∈ free, Sited L N c)
    (hq : q ∈ L.xStart.toNat :: free.map Block.addr) : N q ∧ q ≠ L.finish := by
  rcases List.mem_cons.1 hq with rfl | hq
  · have ha := L.xStart_outside (L.ucHeap_le_start.trans L.start_le_finish) le_rfl
    exact ⟨hN.head, by omega⟩
  · obtain ⟨c, hc, rfl⟩ := List.mem_map.1 hq
    exact ⟨(hplaced c hc).node, (hplaced c hc).lt_finish.ne⟩

theorem Sited.notMem_nodes {L : HeapLayout} {b : Block} {free : List Block} (hb : Sited L N b)
    (hplaced : ∀ c ∈ free, Sited L N c) (hd : Disjoint b.cells (cover free)) :
    b.addr ∉ L.xStart.toNat :: free.map Block.addr := by
  intro hm
  rcases List.mem_cons.1 hm with he | hm
  · exact hb.ne_xStart he
  · obtain ⟨c, hc, he⟩ := List.mem_map.1 hm
    exact Set.disjoint_left.1 (hd.mono_right (cells_subset_cover hc))
      (Block.addr_mem_cells hb.pos) (he ▸ Block.addr_mem_cells (hplaced c hc).pos)

theorem Sited.notMem_front {L : HeapLayout} {b : Block} {l : List Block} (hb : Sited L N b)
    (hne : ∀ c ∈ l, c.addr ≠ b.addr) :
    ∀ q ∈ L.xStart.toNat :: L.finish :: l.map Block.addr, q ∉ [b.addr] := by
  intro q hq hqb
  rw [List.mem_singleton.1 hqb] at hq
  rcases List.mem_cons.1 hq with hq | hq
  · exact hb.ne_xStart hq
  rcases List.mem_cons.1 hq with hq | hq
  · exact hb.lt_finish.ne hq
  · obtain ⟨c, hc, he⟩ := List.mem_map.1 hq
    exact hne c hc he

/-- The list around the header `it`, which is the last one in front of the blocks `l₂`. -/
structure Around (L : HeapLayout) (N : Nat → Prop) (m : Mem) (ys : List Nat) (it : Nat)
    (l₂ : List Block) : Prop where
  node : N it
  ne_finish : it ≠ L.finish
  notMem : it ∉ ys
  behind : ∀ d ∈ l₂, d.addr ≠ it
  before : Chain (linkAt m) L.xStart.toNat ys it
  after : Chain (linkAt m) (linkAt m it) (l₂.map Block.addr) L.finish

theorem InMemory.around {L : HeapLayout} {m : Mem} {l₁ l₂ : List Block} (hN : Sites L N)
    (hin : InMemory L m (l₁ ++ l₂)) (hcanon : Canonical (l₁ ++ l₂))
    (hplaced : ∀ c ∈ l₁ ++ l₂, Sited L N c)
    (hys : L.xStart.toNat :: l₁.map Block.addr = ys ++ [it]) : Around L N m ys it l₂ := by
  have hpl₁ : ∀ c ∈ l₁, Sited L N c := fun c hc => hplaced c (List.mem_append_left _ hc)
  have hitm : it ∈ L.xStart.toNat :: l₁.map Block.addr := by
    rw [hys]
    exact List.mem_concat_self
  obtain ⟨hit, hitf⟩ := node_of_mem hN hpl₁ hitm
  have hnodup := nodup_nodes hcanon hplaced
  have hchain := hin.chain
  rw [List.map_append, ← List.cons_append] at hnodup hchain
  obtain ⟨hnd₁, -, hnd⟩ := List.nodup_append.1 hnodup
  obtain ⟨p, hc₁, hc₂⟩ := chain_append.1 hchain
  rw [hys] at hnd₁ hc₁
  obtain ⟨hcy, rfl⟩ := chain_concat.1 hc₁
  refine ⟨hit, hitf, ?_, ?_, hcy, hc₂⟩
  · exact fun h => (List.nodup_append.1 hnd₁).2.2 _ h _ (List.mem_singleton_self _) rfl
  · exact fun d hd he => hnd _ hitm _ (List.mem_map_of_mem hd) he.symm

/-- From the address `p` on, the list consists of these blocks. -/
structure Listed (L : HeapLayout) (m : Mem) (p : Nat) (l : List Block) : Prop where
  chain : Chain (linkAt m) p (l.map Block.addr) L.finish
  sizes : ∀ b ∈ l, sizeAt m b.addr = b.size

theorem listed_nil {L : HeapLayout} {m : Mem} : Listed L m p [] ↔ p = L.finish :=
  ⟨fun h => h.chain, fun h => ⟨h, List.forall_mem_nil _⟩⟩

theorem listed_cons {L : HeapLayout} {m : Mem} {b : Block} {l : List Block} :
    Listed L m p (b :: l) ↔
      p = b.addr ∧ sizeAt m b.addr = b.size ∧ Listed L m (linkAt m b.addr) l := by
  constructor
  · rintro ⟨⟨hp, hchain⟩, hsizes⟩
    obtain ⟨hb, hl⟩ := List.forall_mem_cons.1 hsizes
    exact ⟨hp, hb, hchain, hl⟩
  · rintro ⟨hp, hb, hchain, hl⟩
    exact ⟨⟨hp, hchain⟩, List.forall_mem_cons.2 ⟨hb, hl⟩⟩

theorem Listed.same {L : HeapLayout} {m m' : Mem} {l : List Block} (hN : Sites L N)
    (h : Listed L m p l)
    (hplaced : ∀ c ∈ l, Sited L N c) (hs : SameOutside ps m m') (hps : ∀ q ∈ ps, N q)
    (hn : ∀ c ∈ l, c.addr ∉ ps) : Listed L m' p l := by
  constructor
  · apply h.chain.congr
    intro q hq
    obtain ⟨c, hc, rfl⟩ := List.mem_map.1 hq
    exact linkAt_same hN hs hps (hplaced c hc).node (hn c hc)
  · intro c hc
    rw [sizeAt_same hN hs hps (hplaced c hc).node (hn c hc), h.sizes c hc]

theorem Listed.link {L : HeapLayout} {m : Mem} {b : Block} {l : List Block} {blk v : UInt32}
    (hN : Sites L N) (h : Listed L m v.toNat l) (hplaced : ∀ c ∈ l, Sited L N c) (hb : Sited L N b)
    (hblk : blk.toNat = b.addr) (hsize : sizeAt m b.addr = b.size)
    (hn : ∀ c ∈ l, c.addr ≠ b.addr) :
    Listed L (set_pxNextFreeBlock m blk v) b.addr (b :: l) := by
  rw [listed_cons, ← hblk, linkAt_set_link, sizeAt_set_link, hblk]
  refine ⟨rfl, hsize, h.same hN hplaced (same_set_link m v (List.mem_singleton.2 hblk))
    (nodes_singleton hb.node) fun c hc hm => hn c hc (List.mem_singleton.1 hm)⟩

theorem Around.listed {L : HeapLayout} {m : Mem} {l₁ l₂ : List Block}
    (ha : Around L N m ys it l₂) (hin : InMemory L m (l₁ ++ l₂)) : Listed L m (linkAt m it) l₂ :=
  ⟨ha.after, fun c hc => hin.sizes c (List.mem_append_right _ hc)⟩

theorem InMemory.tail {L : HeapLayout} {m : Mem} {l₁ l₂ : List Block}
    (hin : InMemory L m (l₁ ++ l₂)) :
    ∃ p, Chain (linkAt m) L.xStart.toNat (L.xStart.toNat :: l₁.map Block.addr) p ∧
      Listed L m p l₂ := by
  have hchain := hin.chain
  rw [List.map_append, ← List.cons_append] at hchain
  obtain ⟨p, hc₁, hc₂⟩ := chain_append.1 hchain
  exact ⟨p, hc₁, hc₂, fun c hc => hin.sizes c (List.mem_append_right _ hc)⟩

/-- Another tail takes the place of the old one. -/
theorem InMemory.splice {L : HeapLayout} {m m' : Mem} {l₁ l₂ l : List Block}
    (hin : InMemory L m (l₁ ++ l₂))
    (hsize : ∀ q ∈ L.xStart.toNat :: L.finish :: l₁.map Block.addr, sizeAt m' q = sizeAt m q)
    (hend : linkAt m' L.finish = linkAt m L.finish)
    (hchain : Chain (linkAt m') L.xStart.toNat (L.xStart.toNat :: l₁.map Block.addr) p)
    (htail : Listed L m' p l) : InMemory L m' (l₁ ++ l) := by
  obtain ⟨hstart, hfinish, hl₁⟩ : sizeAt m' L.xStart.toNat = sizeAt m L.xStart.toNat ∧
      sizeAt m' L.finish = sizeAt m L.finish ∧
        ∀ q ∈ l₁.map Block.addr, sizeAt m' q = sizeAt m q := by
    simpa only [List.forall_mem_cons] using hsize
  constructor
  · rw [List.map_append, ← List.cons_append, chain_append]
    exact ⟨p, hchain, htail.chain⟩
  · intro c hc
    rcases List.mem_append.1 hc with hc₁ | hc₂
    · rw [hl₁ _ (List.mem_map_of_mem hc₁), hin.sizes c (List.mem_append_left _ hc₁)]
    · exact htail.sizes c hc₂
  · rw [hstart, hin.start_size]
  · rw [hfinish, hin.end_size]
  · rw [hend, hin.end_link]

theorem node_of_front {L : HeapLayout} {free : List Block} (hN : Sites L N)
    (hplaced : ∀ c ∈ free, Sited L N c)
    (hq : q ∈ L.xStart.toNat :: L.finish :: free.map Block.addr) : N q := by
  rcases List.mem_cons.1 hq with rfl | hq
  · exact hN.head
  rcases List.mem_cons.1 hq with rfl | hq
  · exact hN.last
  · exact (node_of_mem hN hplaced (List.mem_cons_of_mem _ hq)).1

theorem InMemory.frame {L : HeapLayout} {m m' : Mem} {free : List Block} (hN : Sites L N)
    (hin : InMemory L m free)
    (hplaced : ∀ c ∈ free, Sited L N c) (hs : SameOutside ps m m') (hps : ∀ q ∈ ps, N q)
    (hn : ∀ q ∈ L.xStart.toNat :: L.finish :: free.map Block.addr, q ∉ ps) :
    InMemory L m' free := by
  have hlink (q : Nat) (hq : q ∈ L.xStart.toNat :: L.finish :: free.map Block.addr) :
      linkAt m' q = linkAt m q := linkAt_same hN hs hps (node_of_front hN hplaced hq) (hn q hq)
  rw [← List.append_nil free] at hin ⊢
  obtain ⟨p, hchain, htail⟩ := hin.tail
  apply hin.splice
  · intro q hq
    exact sizeAt_same hN hs hps (node_of_front hN hplaced hq) (hn q hq)
  · exact hlink _ (List.mem_cons_of_mem _ List.mem_cons_self)
  · apply hchain.congr
    exact fun q hq => hlink q (List.cons_subset_cons _ (List.subset_cons_self _ _) hq)
  · exact htail.same hN (List.forall_mem_nil _) hs hps (List.forall_mem_nil _)

theorem InMemory.frame_block {L : HeapLayout} {m m' : Mem} {free : List Block} {b : Block}
    (hN : Sites L N) (hin : InMemory L m free) (hplaced : ∀ c ∈ free, Sited L N c)
    (hb : Sited L N b) (hd : Disjoint b.cells (cover free)) (hs : SameOutside [b.addr] m m') :
    InMemory L m' free := by
  apply hin.frame hN hplaced hs (nodes_singleton hb.node)
  apply hb.notMem_front
  intro c hc he
  apply hb.notMem_nodes hplaced hd
  rw [← he]
  exact List.mem_cons_of_mem _ (List.mem_map_of_mem hc)

section Insert
variable {L : HeapLayout} {N : Nat → Prop} {m : Mem} {pxEnd it blk : UInt32}

/-- The loop stops at the last node in front of the new block. -/
theorem insert_loop (fuel : Nat) (it : UInt32)
    (hchain : Chain (linkAt m) it.toNat (it.toNat :: addrs) p)
    (hlt : ∀ a ∈ addrs, a < blk.toNat) (hp : blk.toNat ≤ p) (hfuel : addrs.length < fuel) :
    ∃ ys it', it.toNat :: addrs = ys ++ [UInt32.toNat it'] ∧
      prvInsertBlockIntoFreeList_loop m blk fuel it = some it' := by
  induction addrs generalizing it fuel with
  | nil =>
    obtain ⟨fuel, rfl⟩ := Nat.exists_eq_add_of_lt hfuel
    have hlink : linkAt m it.toNat = p := hchain.2
    have hn : ¬pxNextFreeBlock m it < blk := by
      rw [UInt32.lt_iff_toNat_lt, toNat_pxNextFreeBlock, hlink]
      omega
    exact ⟨[], it, rfl, if_neg hn⟩
  | cons a addrs ih =>
    obtain ⟨fuel, rfl⟩ := Nat.exists_eq_add_of_lt hfuel
    obtain ⟨-, hlink, hrest⟩ := hchain
    obtain ⟨ha, haddrs⟩ := List.forall_mem_cons.1 hlt
    have hlt : pxNextFreeBlock m it < blk := by
      rw [UInt32.lt_iff_toNat_lt, toNat_pxNextFreeBlock, hlink]
      exact ha
    have hnext : (pxNextFreeBlock m it).toNat = a := hlink
    obtain ⟨ys, it', hys, hloop⟩ := ih (addrs.length + 1 + fuel)
      (pxNextFreeBlock m it) (by rw [hnext]; exact ⟨rfl, hrest⟩) haddrs (by omega)
    rw [hnext] at hys
    refine ⟨it.toNat :: ys, it', by rw [hys]; rfl, ?_⟩
    rw [List.length_cons, Nat.add_zero, prvInsertBlockIntoFreeList_loop, if_pos hlt]
    exact hloop

theorem toNat_block_end {b : Block} (hb : Sited L N b) (hblk : blk.toNat = b.addr)
    (hsize : sizeAt m b.addr = b.size) : (blk + xBlockSize m blk).toNat = b.addr + b.size := by
  have hfin := L.finish_lt
  have hhi := hb.hi
  rw [toNat_add_of_lt] <;> rw [toNat_xBlockSize, hblk, hsize]
  omega

theorem sizeAt_joined {b c : Block} (hb : Sited L N ⟨b.addr, b.size + c.size⟩)
    (hblk : blk.toNat = b.addr) (hsize : sizeAt m b.addr = b.size) {next : UInt32}
    (hnext : next.toNat = c.addr) (hcsize : sizeAt m c.addr = c.size) :
    sizeAt (set_xBlockSize m blk (xBlockSize m blk + xBlockSize m next)) b.addr =
      b.size + c.size := by
  have hfin := L.finish_lt
  have hhi := hb.hi
  dsimp only at hhi
  rw [← hblk, sizeAt_set_size, toNat_add_of_lt] <;>
    rw [toNat_xBlockSize, toNat_xBlockSize, hblk, hsize, hnext, hcsize]
  omega

theorem joinBehind_end (hlink : linkAt m it.toNat = pxEnd.toNat) :
    joinBehind m pxEnd it blk = set_pxNextFreeBlock m blk pxEnd := by
  have hnext : pxNextFreeBlock m it = pxEnd := UInt32.toNat_inj.1 hlink
  rw [joinBehind, hnext, if_neg (not_not.2 rfl), ite_self]

theorem joinBehind_refines {b : Block} {l : List Block} (hN : Sites L N) (hit : N it.toNat)
    (hlist : Listed L m (linkAt m it.toNat) l) (hl : ∀ c ∈ l, Sited L N c) (hb : Sited L N b)
    (hblk : blk.toNat = b.addr) (hsize : sizeAt m b.addr = b.size)
    (hbefore : ∀ c ∈ l, b.addr + b.size ≤ c.addr) (hend : pxEnd.toNat = L.finish) :
    Listed L (joinBehind m pxEnd it blk) b.addr (absorb b l) ∧
      SameOutside [b.addr] m (joinBehind m pxEnd it blk) := by
  have hmem : blk.toNat ∈ [b.addr] := List.mem_singleton.2 hblk
  have hne : ∀ c ∈ l, c.addr ≠ b.addr := by
    intro c hc
    have h₁ := hbefore c hc
    have h₂ := hb.pos
    omega
  cases l with
  | nil =>
    rw [joinBehind_end ((listed_nil.1 hlist).trans hend.symm)]
    exact ⟨(listed_nil.2 hend).link hN hl hb hblk hsize hne, same_set_link m pxEnd hmem⟩
  | cons c l =>
    have hnext : (pxNextFreeBlock m it).toNat = c.addr := (listed_cons.1 hlist).1
    obtain ⟨-, hcsize, hrest⟩ := listed_cons.1 hlist
    obtain ⟨hpc, hpl⟩ := List.forall_mem_cons.1 hl
    have hsum := toNat_block_end hb hblk hsize
    rw [joinBehind, absorb]
    by_cases hadj : b.addr + b.size = c.addr
    · have hcond : blk + xBlockSize m blk = pxNextFreeBlock m it :=
        UInt32.toNat_inj.1 (hsum.trans (hadj.trans hnext.symm))
      have hnend : pxNextFreeBlock m it ≠ pxEnd := fun he =>
        hpc.lt_finish.ne (hnext.symm.trans ((congrArg UInt32.toNat he).trans hend))
      rw [if_pos hcond, if_pos hnend, if_pos hadj]
      dsimp only
      have hpb := hb.join hpc hadj
      have hsize₁ := sizeAt_joined hpb hblk hsize hnext hcsize
      have hsame₁ := same_set_size m (xBlockSize m blk + xBlockSize m (pxNextFreeBlock m it)) hmem
      have hlinks (q : Nat) (hq : N q) :=
        @linkAt_set_size_of L N m blk q hN (xBlockSize m blk + xBlockSize m (pxNextFreeBlock m it))
          (hblk ▸ hb.node) hq
      generalize set_xBlockSize m blk (xBlockSize m blk + xBlockSize m (pxNextFreeBlock m it)) = m₁
        at hsize₁ hsame₁ hlinks ⊢
      -- the link of the block behind is read after the size has been written
      have hv : (pxNextFreeBlock m₁ (pxNextFreeBlock m₁ it)).toNat = linkAt m c.addr := by
        have hnext₁ : (pxNextFreeBlock m₁ it).toNat = c.addr := (hlinks _ hit).trans hnext
        rw [toNat_pxNextFreeBlock, hnext₁, hlinks _ hpc.node]
      have hrest₁ := hrest.same hN hpl hsame₁ (nodes_singleton hb.node) fun d hd hm =>
        hne d (List.mem_cons_of_mem c hd) (List.mem_singleton.1 hm)
      rw [← hv] at hrest₁
      exact ⟨hrest₁.link hN (b := ⟨b.addr, b.size + c.size⟩) hpl hpb hblk hsize₁ fun d hd =>
        hne d (List.mem_cons_of_mem c hd), hsame₁.trans (same_set_link m₁ _ hmem)⟩
    · have hcond : blk + xBlockSize m blk ≠ pxNextFreeBlock m it := fun he =>
        hadj (hsum.symm.trans ((congrArg UInt32.toNat he).trans hnext))
      rw [if_neg hcond, if_neg hadj]
      exact ⟨hlist.link hN hl hb hblk hsize hne, same_set_link m _ hmem⟩

theorem free_length_lt {free : List Block} (hcanon : Canonical free)
    (hplaced : ∀ c ∈ free, Sited L N c) : free.length < configTOTAL_HEAP_SIZE.toNat := by
  have h₁ := length_le_bytes fun c hc => (hplaced c hc).size_ge
  have h₂ := hcanon.bytes_le (fun c hc => (hplaced c hc).lo) (fun c hc => (hplaced c hc).hi)
    (L.ucHeap_le_start.trans L.start_le_finish)
  have h₃ := L.finish_le_ucHeap
  have h₄ : configTOTAL_HEAP_SIZE.toNat = 102400 := rfl
  omega

/-- The block in front of the new one is not adjacent to it: the new block is linked. -/
theorem insert_linked {l₁ l₂ : List Block} {b : Block} (hN : Sites L N)
    (hin : InMemory L m (l₁ ++ l₂)) (hcanon : Canonical (l₁ ++ l₂))
    (hplaced : ∀ c ∈ l₁ ++ l₂, Sited L N c) (hb : Sited L N b)
    (hblk : blk.toNat = b.addr) (hsize : sizeAt m b.addr = b.size)
    (hend : pxEnd.toNat = L.finish) (h₁ : ∀ c ∈ l₁, c.addr + c.size < b.addr)
    (h₂ : ∀ c ∈ l₂, b.addr + b.size ≤ c.addr)
    (hys : L.xStart.toNat :: l₁.map Block.addr = ys ++ [it.toNat]) :
    InMemory L (set_pxNextFreeBlock (joinBehind m pxEnd it blk) it blk) (insertBlock b (l₁ ++ l₂)) ∧
      SameOutside (L.xStart.toNat :: b.addr :: (l₁ ++ l₂).map Block.addr) m
        (set_pxNextFreeBlock (joinBehind m pxEnd it blk) it blk) := by
  obtain ⟨hpl₁, hpl₂⟩ := List.forall_mem_append.1 hplaced
  have ha := hin.around hN hcanon hplaced hys
  have hfront : ∀ q ∈ L.xStart.toNat :: L.finish :: l₁.map Block.addr, q ∉ [b.addr] := by
    apply hb.notMem_front
    intro c hc
    have h := h₁ c hc
    omega
  have hnodes (q : Nat) (hq : q ∈ ys ++ [it.toNat]) :
      q ∈ L.xStart.toNat :: L.finish :: l₁.map Block.addr := by
    rw [← hys] at hq
    exact List.cons_subset_cons _ (List.subset_cons_self _ _) hq
  have hitb : it.toNat ≠ b.addr := fun he =>
    hfront _ (hnodes _ List.mem_concat_self) (List.mem_singleton.2 he)
  obtain ⟨htail, hsame⟩ :=
    joinBehind_refines hN ha.node (ha.listed hin) hpl₂ hb hblk hsize h₂ hend
  have hbn := nodes_singleton hb.node
  have hplabs := forall_absorb (fun _ _ => Sited.join) hb hpl₂
  generalize joinBehind m pxEnd it blk = m' at htail hsame ⊢
  -- a header in front of the new block keeps its link, except the one before it
  have hlink (q : Nat) (hq : q ∈ L.xStart.toNat :: L.finish :: l₁.map Block.addr)
      (hne : q ≠ it.toNat) : linkAt (set_pxNextFreeBlock m' it blk) q = linkAt m q := by
    have hqn := node_of_front hN hpl₁ hq
    rw [linkAt_set_link_of_ne hN ha.node hqn hne, linkAt_same hN hsame hbn hqn (hfront q hq)]
  constructor
  · rw [insert_append h₁ fun c hc => (Nat.lt_add_of_pos_right hb.pos).trans_le (h₂ c hc)]
    apply hin.splice (p := b.addr)
    · intro q hq
      have hqn := node_of_front hN hpl₁ hq
      rw [sizeAt_set_link_of hN ha.node hqn, sizeAt_same hN hsame hbn hqn (hfront q hq)]
    · exact hlink _ (List.mem_cons_of_mem _ List.mem_cons_self) (Ne.symm ha.ne_finish)
    · rw [hys, chain_concat, linkAt_set_link]
      refine ⟨ha.before.congr fun q hq => ?_, hblk⟩
      exact hlink q (hnodes q (List.mem_append_left _ hq)) fun he => ha.notMem (he ▸ hq)
    · apply htail.same hN hplabs (same_set_link m' blk (List.mem_singleton_self _))
        (nodes_singleton ha.node)
      intro c hc hm
      rw [List.mem_singleton] at hm
      rcases addr_of_mem_absorb hc with he | ⟨d, hd, he⟩
      · exact hitb (hm.symm.trans he)
      · exact ha.behind d hd (he.symm.trans hm)
  · have hsame' : SameOutside (L.xStart.toNat :: b.addr :: (l₁ ++ l₂).map Block.addr) m m' :=
      hsame.mono fun q hq =>
        List.mem_cons_of_mem _ (List.mem_cons.2 (.inl (List.mem_singleton.1 hq)))
    apply hsame'.trans
    apply same_set_link
    have hit : it.toNat ∈ L.xStart.toNat :: l₁.map Block.addr := hys ▸ List.mem_concat_self
    rcases List.mem_cons.1 hit with h | h
    · exact List.mem_cons.2 (.inl h)
    · rw [List.map_append]
      exact List.mem_cons_of_mem _ (List.mem_cons_of_mem _ (List.mem_append_left _ h))

/-- The block in front of the new one is adjacent to it, and is extended. -/
theorem insert_joined {l₀ l₂ : List Block} {b c : Block} (hN : Sites L N)
    (hin : InMemory L m (l₀ ++ c :: l₂)) (hcanon : Canonical (l₀ ++ c :: l₂))
    (hplaced : ∀ d ∈ l₀ ++ c :: l₂, Sited L N d) (hb : Sited L N b)
    (hblk : blk.toNat = b.addr) (hsize : sizeAt m b.addr = b.size)
    (hend : pxEnd.toNat = L.finish) (hadj : c.addr + c.size = b.addr)
    (h₂ : ∀ d ∈ l₂, b.addr + b.size ≤ d.addr) (hitc : it.toNat = c.addr) :
    InMemory L (joinBehind (set_xBlockSize m it (xBlockSize m it + xBlockSize m blk)) pxEnd it it)
        (insertBlock b (l₀ ++ c :: l₂)) ∧
      SameOutside (L.xStart.toNat :: b.addr :: (l₀ ++ c :: l₂).map Block.addr) m
        (joinBehind (set_xBlockSize m it (xBlockSize m it + xBlockSize m blk)) pxEnd it it) := by
  obtain ⟨hpl₀, hpl⟩ := List.forall_mem_append.1 hplaced
  obtain ⟨hplc, hpl₂⟩ := List.forall_mem_cons.1 hpl
  have hlt₀ : ∀ d ∈ l₀, d.addr + d.size < c.addr := fun d hd =>
    (List.pairwise_append.1 hcanon.gaps).2.2 d hd c List.mem_cons_self
  have hcc : Sited L N ⟨c.addr, c.size + b.size⟩ := hplc.join hb hadj
  have hcn := nodes_singleton hplc.node
  have hfront : ∀ q ∈ L.xStart.toNat :: L.finish :: l₀.map Block.addr, q ∉ [c.addr] := by
    apply hplc.notMem_front
    intro d hd
    have h := hlt₀ d hd
    omega
  have hbehind : ∀ d ∈ l₂, c.addr + (c.size + b.size) ≤ d.addr := by
    intro d hd
    have h := h₂ d hd
    omega
  obtain ⟨p, hchain, htail⟩ := hin.tail
  obtain ⟨rfl, hcsize, hrest⟩ := listed_cons.1 htail
  have hsame₁ := same_set_size m (xBlockSize m it + xBlockSize m blk) (List.mem_singleton.2 hitc)
  have hsize₁ := sizeAt_joined hcc hitc hcsize hblk hsize
  have hrest₁ := hrest.same hN hpl₂ hsame₁ hcn fun d hd hm => by
    have h := hbehind d hd
    have h' := hplc.pos
    rw [List.mem_singleton] at hm
    omega
  rw [← hitc, ← linkAt_set_size m it (xBlockSize m it + xBlockSize m blk)] at hrest₁
  generalize set_xBlockSize m it (xBlockSize m it + xBlockSize m blk) = m₁
    at hsame₁ hsize₁ hrest₁ ⊢
  obtain ⟨hjoined, hsame₂⟩ := joinBehind_refines hN (b := ⟨c.addr, c.size + b.size⟩)
    (hitc ▸ hplc.node) hrest₁ hpl₂ hcc hitc hsize₁ hbehind hend
  have hsame := hsame₁.trans hsame₂
  constructor
  · rw [insert_append_adjacent (fun d hd => by have h := hlt₀ d hd; omega) hadj]
    apply hin.splice (p := c.addr)
    · exact fun q hq => sizeAt_same hN hsame hcn (node_of_front hN hpl₀ hq) (hfront q hq)
    · have hf : L.finish ∈ L.xStart.toNat :: L.finish :: l₀.map Block.addr :=
        List.mem_cons_of_mem _ List.mem_cons_self
      exact linkAt_same hN hsame hcn hN.last (hfront _ hf)
    · apply hchain.congr
      intro q hq
      have hq' := List.cons_subset_cons L.xStart.toNat (List.subset_cons_self L.finish _) hq
      exact linkAt_same hN hsame hcn (node_of_front hN hpl₀ hq') (hfront q hq')
    · exact hjoined
  · apply hsame.mono
    intro q hq
    rw [List.mem_singleton.1 hq]
    simp

theorem insert_position {l₁ l₂ : List Block} {b : Block} (hin : InMemory L m (l₁ ++ l₂))
    (hcanon : Canonical (l₁ ++ l₂)) (hplaced : ∀ c ∈ l₁ ++ l₂, Sited L N c) (hb : Sited L N b)
    (hblk : blk.toNat = b.addr) (h₁ : ∀ c ∈ l₁, c.addr + c.size ≤ b.addr)
    (h₂ : ∀ c ∈ l₂, b.addr + b.size ≤ c.addr) :
    ∃ ys it, L.xStart.toNat :: l₁.map Block.addr = ys ++ [UInt32.toNat it] ∧
      prvInsertBlockIntoFreeList L pxEnd blk m =
        if it ≠ (joinBefore m it blk).2 then
          some (set_pxNextFreeBlock
            (joinBehind (joinBefore m it blk).1 pxEnd it (joinBefore m it blk).2) it
            (joinBefore m it blk).2)
        else some (joinBehind (joinBefore m it blk).1 pxEnd it (joinBefore m it blk).2) := by
  obtain ⟨p, hchain, htail⟩ := hin.tail
  have hlt : ∀ a ∈ l₁.map Block.addr, a < blk.toNat := by
    intro a ha
    obtain ⟨c, hc, rfl⟩ := List.mem_map.1 ha
    have h := h₁ c hc
    have h' := (hplaced c (List.mem_append_left _ hc)).pos
    omega
  have hp : blk.toNat ≤ p := by
    rw [hblk]
    cases l₂ with
    | nil =>
      rw [listed_nil.1 htail]
      exact hb.lt_finish.le
    | cons d l₂ =>
      rw [(listed_cons.1 htail).1]
      exact (Nat.le_add_right _ _).trans (h₂ d List.mem_cons_self)
  have hfuel : (l₁.map Block.addr).length < configTOTAL_HEAP_SIZE.toNat := by
    have hlen := free_length_lt hcanon hplaced
    rw [List.length_append] at hlen
    rw [List.length_map]
    omega
  obtain ⟨ys, it, hys, hloop⟩ := insert_loop _ L.xStart hchain hlt hp hfuel
  refine ⟨ys, it, hys, ?_⟩
  rw [prvInsertBlockIntoFreeList, hloop]
  rfl

/-- The insertion of the source is the insertion of a block into the list. -/
theorem insert_refines {free : List Block} {b : Block} (hN : Sites L N) (hin : InMemory L m free)
    (hcanon : Canonical free) (hplaced : ∀ c ∈ free, Sited L N c) (hb : Sited L N b)
    (hd : Disjoint b.cells (cover free)) (hblk : blk.toNat = b.addr)
    (hsize : sizeAt m b.addr = b.size) (hend : pxEnd.toNat = L.finish) :
    ∃ m', prvInsertBlockIntoFreeList L pxEnd blk m = some m' ∧
      InMemory L m' (insertBlock b free) ∧
      SameOutside (L.xStart.toNat :: b.addr :: free.map Block.addr) m m' := by
  obtain ⟨l₁, l₂, rfl, h₁, h₂⟩ := hcanon.split hb.pos hd
  obtain ⟨ys, it, hys, hrun⟩ :=
    @insert_position L N m pxEnd blk l₁ l₂ b hin hcanon hplaced hb hblk h₁ h₂
  -- a new block that is not adjacent to the one in front of it
  have hlinked (hne : it + xBlockSize m it ≠ blk) (hit : it ≠ blk)
      (h₁ : ∀ c ∈ l₁, c.addr + c.size < b.addr) :
      ∃ m', prvInsertBlockIntoFreeList L pxEnd blk m = some m' ∧
        InMemory L m' (insertBlock b (l₁ ++ l₂)) ∧
        SameOutside (L.xStart.toNat :: b.addr :: (l₁ ++ l₂).map Block.addr) m m' := by
    have hj : joinBefore m it blk = (m, blk) := if_neg hne
    refine ⟨_, ?_, insert_linked hN hin hcanon hplaced hb hblk hsize hend h₁ h₂ hys⟩
    rw [hrun, hj, if_pos hit]
  rcases List.eq_nil_or_concat l₁ with rfl | ⟨l₀, c, rfl⟩
  · have hits : it.toNat = L.xStart.toNat := by
      change [] ++ [L.xStart.toNat] = ys ++ [it.toNat] at hys
      exact (List.singleton_inj.1 (List.append_inj' hys rfl).2).symm
    -- the size at `xStart` is 0
    have hsum : it + xBlockSize m it = it := by
      have hz : xBlockSize m it = 0 := by
        apply UInt32.toNat_inj.1
        rw [toNat_xBlockSize, hits, hin.start_size]
        rfl
      rw [hz, UInt32.add_zero]
    have hne : it ≠ blk := fun he =>
      hb.ne_xStart (hblk.symm.trans ((congrArg UInt32.toNat he).symm.trans hits))
    exact hlinked (hsum.symm ▸ hne) hne (List.forall_mem_nil _)
  · rw [List.concat_eq_append] at *
    have hitc : it.toNat = c.addr := by
      rw [List.map_append, ← List.cons_append] at hys
      exact (List.singleton_inj.1 (List.append_inj' hys rfl).2).symm
    have hcm : c ∈ l₀ ++ [c] ++ l₂ := List.mem_append_left _ List.mem_concat_self
    have hplc : Sited L N c := hplaced c hcm
    have hc := h₁ c List.mem_concat_self
    have hcpos := hplc.pos
    have hsum := toNat_block_end hplc hitc (hin.sizes c hcm)
    have hitne : it ≠ blk := by
      intro he
      rw [he, hblk] at hitc
      omega
    by_cases hadj : c.addr + c.size = b.addr
    · have hcond : it + xBlockSize m it = blk :=
        UInt32.toNat_inj.1 (hsum.trans (hadj.trans hblk.symm))
      have hj : joinBefore m it blk =
          (set_xBlockSize m it (xBlockSize m it + xBlockSize m blk), it) := if_pos hcond
      rw [List.append_assoc, List.singleton_append] at *
      refine ⟨_, ?_, insert_joined hN hin hcanon hplaced hb hblk hsize hend hadj h₂ hitc⟩
      rw [hrun, hj, if_neg (not_not.2 rfl)]
    · apply hlinked _ hitne
      · intro d hd
        rcases List.mem_append.1 hd with hd | hd
        · have h := (hcanon.sublist (List.sublist_append_left _ _)).lt_last d hd
          omega
        · rw [List.mem_singleton.1 hd]
          omega
      · intro he
        rw [he, hblk] at hsum
        exact hadj hsum.symm

end Insert

end RobotCar

import Mathlib.Order.Interval.Set.Basic
import Mathlib.Order.Interval.Finset.Nat
import Mathlib.Data.Set.Card
import Mathlib.Data.Set.Lattice
import Mathlib.Order.CompletePartialOrder

namespace FreeList
set_option autoImplicit true

structure Block where
  addr : Nat
  size : Nat
  deriving DecidableEq, Repr

namespace Block

def cells (b : Block) : Set Nat := Set.Ico b.addr (b.addr + b.size)

theorem mem_cells {b : Block} : x ∈ b.cells ↔ b.addr ≤ x ∧ x < b.addr + b.size := Iff.rfl

theorem addr_mem_cells {b : Block} (h : 0 < b.size) : b.addr ∈ b.cells := by
  rw [mem_cells]
  omega

theorem disjoint_iff {b c : Block} (hb : 0 < b.size) (hc : 0 < c.size) :
    Disjoint b.cells c.cells ↔ b.addr + b.size ≤ c.addr ∨ c.addr + c.size ≤ b.addr := by
  rw [Set.disjoint_left]
  constructor
  · intro h
    by_contra hn
    have hmax : max b.addr c.addr ∈ b.cells := by
      rw [mem_cells]
      omega
    apply h hmax
    rw [mem_cells]
    omega
  · intro h x hx hx'
    rw [mem_cells] at hx hx'
    omega

end Block

/-- The cells of all blocks of a list. -/
def cover (l : List Block) : Set Nat := {x | ∃ b ∈ l, x ∈ b.cells}

@[simp] theorem cover_nil : cover [] = ∅ := by
  ext x
  simp [cover]

@[simp] theorem cover_cons (b : Block) (l : List Block) : cover (b :: l) = b.cells ∪ cover l := by
  ext x
  simp [cover]

@[simp] theorem cover_append (l l' : List Block) : cover (l ++ l') = cover l ∪ cover l' := by
  ext x
  simp [cover, or_and_right, exists_or]

theorem cells_subset_cover (h : b ∈ l) : b.cells ⊆ cover l := fun _ hx => ⟨b, h, hx⟩

def bytes (l : List Block) : Nat := (l.map Block.size).sum

@[simp] theorem bytes_nil : bytes [] = 0 := rfl

@[simp] theorem bytes_cons (b : Block) (l : List Block) : bytes (b :: l) = b.size + bytes l := by
  rw [bytes, List.map_cons, List.sum_cons, bytes]

@[simp] theorem bytes_append (l l' : List Block) : bytes (l ++ l') = bytes l + bytes l' := by
  rw [bytes, List.map_append, List.sum_append, bytes, bytes]

theorem cover_middle (l : List Block) (c : Block) (l' : List Block) :
    cover (l ++ c :: l') = c.cells ∪ cover (l ++ l') := by
  rw [cover_append, cover_cons, cover_append, Set.union_left_comm]

theorem bytes_middle (l : List Block) (c : Block) (l' : List Block) :
    bytes (l ++ c :: l') = c.size + bytes (l ++ l') := by
  rw [bytes_append, bytes_cons, bytes_append, Nat.add_left_comm]

/-! ### Blocks without common cells -/

theorem cells_ncard (b : Block) : b.cells.ncard = b.size := by
  rw [Block.cells, ← Finset.coe_Ico, Set.ncard_coe_finset, Nat.card_Ico, Nat.add_sub_cancel_left]

theorem ncard_cover {l : List Block} (h : l.Pairwise fun b c => Disjoint b.cells c.cells) :
    (cover l).Finite ∧ (cover l).ncard = bytes l := by
  induction h with
  | nil =>
    rw [cover_nil]
    exact ⟨Set.finite_empty, Set.ncard_empty Nat⟩
  | @cons b l hb _ ih =>
    have hfin : b.cells.Finite := Set.finite_Ico _ _
    have hd : Disjoint b.cells (cover l) := by
      rw [Set.disjoint_left]
      rintro x hx ⟨c, hc, hxc⟩
      exact Set.disjoint_left.1 (hb c hc) hx hxc
    rw [cover_cons, Set.ncard_union_eq hd hfin ih.1, cells_ncard, ih.2, bytes_cons]
    exact ⟨hfin.union ih.1, rfl⟩

theorem bytes_le_of_disjoint {l : List Block}
    (h : l.Pairwise fun b c => Disjoint b.cells c.cells) (hs : cover l ⊆ Set.Ico s e) :
    bytes l ≤ e - s := by
  rw [← (ncard_cover h).2, ← Nat.card_Ico, ← Set.ncard_coe_finset, Finset.coe_Ico]
  exact Set.ncard_le_ncard hs (Set.finite_Ico s e)

/-! ### Canonical lists -/

/-- Nonempty blocks in the order of their addresses, with a gap between any two. -/
structure Canonical (l : List Block) : Prop where
  pos : ∀ b ∈ l, 0 < b.size
  gaps : l.Pairwise fun b c => b.addr + b.size < c.addr

theorem canonical_nil : Canonical [] := ⟨List.forall_mem_nil _, .nil⟩

theorem canonical_cons {b : Block} {l : List Block} :
    Canonical (b :: l) ↔ 0 < b.size ∧ (∀ c ∈ l, b.addr + b.size < c.addr) ∧ Canonical l := by
  constructor
  · intro ⟨hpos, hgaps⟩
    obtain ⟨hb, hl⟩ := List.forall_mem_cons.1 hpos
    obtain ⟨hg, hgl⟩ := List.pairwise_cons.1 hgaps
    exact ⟨hb, hg, hl, hgl⟩
  · intro ⟨hb, hg, hl, hgl⟩
    exact ⟨List.forall_mem_cons.2 ⟨hb, hl⟩, List.pairwise_cons.2 ⟨hg, hgl⟩⟩

theorem Canonical.sublist {l l' : List Block} (h : Canonical l) (hs : List.Sublist l' l) :
    Canonical l' :=
  ⟨fun b hb => h.pos b (hs.subset hb), h.gaps.sublist hs⟩

/-! ### Insertion -/

/-- A block in front of a list is joined with the first one if they are adjacent. -/
def absorb (b : Block) : List Block → List Block
  | [] => [b]
  | c :: l => if b.addr + b.size = c.addr then ⟨b.addr, b.size + c.size⟩ :: l else b :: c :: l

/-- Insertion by address, joining the block with its neighbours. -/
def insertBlock (b : Block) : List Block → List Block
  | [] => [b]
  | c :: l =>
    if b.addr < c.addr then absorb b (c :: l)
    else if c.addr + c.size = b.addr then absorb ⟨c.addr, c.size + b.size⟩ l
    else c :: insertBlock b l

theorem cells_join {b c : Block} (h : b.addr + b.size = c.addr) :
    (Block.mk b.addr (b.size + c.size)).cells = b.cells ∪ c.cells := by
  ext x
  simp only [Set.mem_union, Block.mem_cells]
  omega

theorem cells_split {c : Block} (hw : w ≤ c.size) :
    c.cells = (Block.mk c.addr w).cells ∪ (Block.mk (c.addr + w) (c.size - w)).cells := by
  rw [← cells_join rfl, Nat.add_sub_of_le hw]

@[simp] theorem cover_absorb (b : Block) (l : List Block) : cover (absorb b l) =
    b.cells ∪ cover l := by
  cases l with
  | nil => exact cover_cons b []
  | cons c l =>
    rw [absorb]
    split
    · rename_i h
      rw [cover_cons, cells_join h, cover_cons, Set.union_assoc]
    · rw [cover_cons]

theorem cover_insert (b : Block) (l : List Block) : cover (insertBlock b l) =
    b.cells ∪ cover l := by
  induction l with
  | nil => exact cover_cons b []
  | cons c l ih =>
    rw [insertBlock]
    split
    · exact cover_absorb b (c :: l)
    · split
      · rename_i h
        rw [cover_absorb, cells_join h, cover_cons, ← Set.union_assoc, Set.union_comm b.cells]
      · rw [cover_cons, ih, cover_cons, Set.union_left_comm]

theorem bytes_absorb (b : Block) (l : List Block) : bytes (absorb b l) = b.size + bytes l := by
  cases l with
  | nil => exact bytes_cons b []
  | cons c l =>
    rw [absorb]
    split
    · rw [bytes_cons, bytes_cons, Nat.add_assoc]
    · rw [bytes_cons]

theorem bytes_insert (b : Block) (l : List Block) : bytes (insertBlock b l) = b.size + bytes l := by
  induction l with
  | nil => exact bytes_cons b []
  | cons c l ih =>
    rw [insertBlock]
    split
    · exact bytes_absorb b (c :: l)
    · split
      · rw [bytes_absorb, bytes_cons]
        dsimp only
        omega
      · rw [bytes_cons, ih, bytes_cons]
        omega

section Forall
variable {P : Block → Prop}
  (hjoin : ∀ b c, P b → P c → b.addr + b.size = c.addr → P ⟨b.addr, b.size + c.size⟩)
include hjoin

theorem forall_absorb (hb : P b) (hl : ∀ c ∈ l, P c) : ∀ d ∈ absorb b l, P d := by
  cases l with
  | nil => exact List.forall_mem_singleton.2 hb
  | cons c l =>
    obtain ⟨hc, hl'⟩ := List.forall_mem_cons.1 hl
    rw [absorb]
    split
    · rename_i h
      exact List.forall_mem_cons.2 ⟨hjoin b c hb hc h, hl'⟩
    · exact List.forall_mem_cons.2 ⟨hb, hl⟩

theorem forall_insert (hb : P b) (hl : ∀ c ∈ l, P c) : ∀ d ∈ insertBlock b l, P d := by
  induction l with
  | nil => exact List.forall_mem_singleton.2 hb
  | cons c l ih =>
    obtain ⟨hc, hl'⟩ := List.forall_mem_cons.1 hl
    rw [insertBlock]
    split
    · exact forall_absorb hjoin hb hl
    · split
      · rename_i h
        exact forall_absorb hjoin (hjoin c b hc hb h) hl'
      · exact List.forall_mem_cons.2 ⟨hc, ih hl'⟩

end Forall

theorem addr_of_mem_absorb (h : x ∈ absorb b l) : x.addr = b.addr ∨ ∃ c ∈ l, x.addr = c.addr :=
  forall_absorb (P := fun x => x.addr = b.addr ∨ ∃ c ∈ l, x.addr = c.addr)
    (fun _ _ h _ _ => h) (.inl rfl) (fun c hc => .inr ⟨c, hc, rfl⟩) x h

theorem addr_of_mem_insert (h : x ∈ insertBlock b l) : x.addr = b.addr ∨ ∃ c ∈ l, x.addr = c.addr :=
  forall_insert (P := fun x => x.addr = b.addr ∨ ∃ c ∈ l, x.addr = c.addr)
    (fun _ _ h _ _ => h) (.inl rfl) (fun c hc => .inr ⟨c, hc, rfl⟩) x h

theorem Canonical.absorb (h : Canonical l) (hb : 0 < b.size)
    (hbefore : ∀ c ∈ l, b.addr + b.size ≤ c.addr) : Canonical (absorb b l) := by
  cases l with
  | nil => exact canonical_cons.2 ⟨hb, List.forall_mem_nil _, canonical_nil⟩
  | cons c l =>
    obtain ⟨hc, hg, hl⟩ := canonical_cons.1 h
    have hbc := hbefore c List.mem_cons_self
    rw [FreeList.absorb]
    split
    · refine canonical_cons.2 ⟨Nat.add_pos_left hb _, fun d hd => ?_, hl⟩
      have hgd := hg d hd
      dsimp only
      omega
    · refine canonical_cons.2 ⟨hb, fun d hd => ?_, h⟩
      rcases List.mem_cons.1 hd with rfl | hd
      · omega
      · have hgd := hg d hd
        omega

/-- Insertion of a block that is not in the list yet keeps the list canonical. -/
theorem Canonical.insertBlock (h : Canonical l) (hb : 0 < b.size)
    (hd : Disjoint b.cells (cover l)) : Canonical (insertBlock b l) := by
  induction l with
  | nil => exact canonical_cons.2 ⟨hb, List.forall_mem_nil _, canonical_nil⟩
  | cons c l ih =>
    obtain ⟨hc, hg, hl⟩ := canonical_cons.1 h
    rw [cover_cons, Set.disjoint_union_right] at hd
    obtain ⟨hdc, hdl⟩ := hd
    have hbc := (Block.disjoint_iff hb hc).1 hdc
    have hbd (d : Block) (hm : d ∈ l) : b.addr + b.size ≤ d.addr ∨ d.addr + d.size ≤ b.addr :=
      (Block.disjoint_iff hb (hl.pos d hm)).1 (hdl.mono_right (cells_subset_cover hm))
    rw [FreeList.insertBlock]
    split
    · apply h.absorb hb
      intro d hm
      rcases List.mem_cons.1 hm with rfl | hm
      · omega
      · have hgd := hg d hm
        omega
    · split
      · apply hl.absorb (Nat.add_pos_left hc _)
        intro d hm
        have hgd := hg d hm
        have hb' := hbd d hm
        dsimp only
        omega
      · refine canonical_cons.2 ⟨hc, fun d hm => ?_, ih hl hdl⟩
        rcases addr_of_mem_insert hm with he | ⟨e, hm, he⟩
        · omega
        · rw [he]
          exact hg e hm

/-! ### Insertion between two parts of a list -/

theorem insert_of_lt (h : ∀ c ∈ l, b.addr < c.addr) : insertBlock b l = absorb b l := by
  cases l with
  | nil => rfl
  | cons c l => rw [insertBlock, if_pos (h c List.mem_cons_self)]

theorem insert_append (h : ∀ c ∈ l, c.addr + c.size < b.addr) (h' : ∀ c ∈ l', b.addr < c.addr) :
    insertBlock b (l ++ l') = l ++ absorb b l' := by
  induction l with
  | nil => exact insert_of_lt h'
  | cons c l ih =>
    obtain ⟨hc, hl⟩ := List.forall_mem_cons.1 h
    rw [List.cons_append, insertBlock, if_neg (by omega), if_neg (by omega), ih hl]
    rfl

theorem insert_append_adjacent (h : ∀ d ∈ l, d.addr + d.size < b.addr)
    (hc : c.addr + c.size = b.addr) :
    insertBlock b (l ++ c :: l') = l ++ absorb ⟨c.addr, c.size + b.size⟩ l' := by
  induction l with
  | nil => rw [List.nil_append, insertBlock, if_neg (by omega), if_pos hc, List.nil_append]
  | cons d l ih =>
    obtain ⟨hd, hl⟩ := List.forall_mem_cons.1 h
    rw [List.cons_append, insertBlock, if_neg (by omega), if_neg (by omega), ih hl]
    rfl

theorem absorb_of_gap (h : ∀ c ∈ l, b.addr + b.size < c.addr) : absorb b l = b :: l := by
  cases l with
  | nil => rfl
  | cons c l =>
    have hc := h c List.mem_cons_self
    rw [absorb, if_neg (by omega)]

theorem Canonical.insert_end {b c : Block} (h : Canonical (l ++ c :: l')) (hlo : c.addr < b.addr)
    (hhi : b.addr + b.size = c.addr + c.size) :
    FreeList.insertBlock b (l ++ l') = l ++ b :: l' := by
  obtain ⟨-, hr, hlr⟩ := List.pairwise_append.1 h.gaps
  obtain ⟨hcr, -⟩ := List.pairwise_cons.1 hr
  have hbr (d : Block) (hd : d ∈ l') : b.addr + b.size < d.addr := by
    rw [hhi]
    exact hcr d hd
  rw [insert_append, absorb_of_gap hbr]
  · intro d hd
    exact (hlr d hd c List.mem_cons_self).trans hlo
  · intro d hd
    exact (Nat.le_add_right _ _).trans_lt (hbr d hd)

theorem Canonical.split {b : Block} (h : Canonical l) (hb : 0 < b.size)
    (hd : Disjoint b.cells (cover l)) :
    ∃ l₁ l₂, l = l₁ ++ l₂ ∧ (∀ c ∈ l₁, c.addr + c.size ≤ b.addr) ∧
      ∀ c ∈ l₂, b.addr + b.size ≤ c.addr := by
  induction l with
  | nil => exact ⟨[], [], rfl, List.forall_mem_nil _, List.forall_mem_nil _⟩
  | cons c l ih =>
    obtain ⟨hc, hg, hl⟩ := canonical_cons.1 h
    rw [cover_cons, Set.disjoint_union_right] at hd
    obtain ⟨hdc, hdl⟩ := hd
    rcases (Block.disjoint_iff hb hc).1 hdc with hbc | hcb
    · refine ⟨[], c :: l, rfl, List.forall_mem_nil _, List.forall_mem_cons.2 ⟨hbc, fun d hm => ?_⟩⟩
      have hgd := hg d hm
      omega
    · obtain ⟨l₁, l₂, rfl, h₁, h₂⟩ := ih hl hdl
      exact ⟨c :: l₁, l₂, rfl, List.forall_mem_cons.2 ⟨hcb, h₁⟩, h₂⟩

theorem Canonical.disjoint (h : Canonical (l ++ c :: l')) : Disjoint c.cells (cover (l ++ l')) := by
  obtain ⟨-, hr, hlr⟩ := List.pairwise_append.1 h.gaps
  obtain ⟨hcr, -⟩ := List.pairwise_cons.1 hr
  rw [Set.disjoint_left]
  rintro x hx ⟨d, hd, hxd⟩
  rw [Block.mem_cells] at hx hxd
  rcases List.mem_append.1 hd with hd | hd
  · have hlt := hlr d hd c List.mem_cons_self
    omega
  · have hlt := hcr d hd
    omega

theorem Canonical.apart {l : List Block} (h : Canonical l) (hb : b ∈ l) (hc : c ∈ l)
    (hne : b ≠ c) : b.addr + b.size < c.addr ∨ c.addr + c.size < b.addr := by
  have hsymm : Std.Symm fun b c : Block =>
      b.addr + b.size < c.addr ∨ c.addr + c.size < b.addr := ⟨fun _ _ h => h.symm⟩
  have hpair := h.gaps.imp
    (S := fun b c : Block => b.addr + b.size < c.addr ∨ c.addr + c.size < b.addr) .inl
  exact hpair.forall hb hc hne

theorem Canonical.lt_last (h : Canonical (l ++ [c])) : ∀ d ∈ l, d.addr + d.size < c.addr :=
  fun d hd => (List.pairwise_append.1 h.gaps).2.2 d hd c (List.mem_singleton_self c)

theorem Canonical.nodup (h : Canonical l) : (l.map Block.addr).Nodup := by
  apply List.Pairwise.map Block.addr _ h.gaps
  intro b c hbc
  omega

/-- Canonical lists are those of nonempty blocks in order that neither overlap nor touch. -/
theorem canonical_iff {l : List Block} : Canonical l ↔ (∀ b ∈ l, 0 < b.size) ∧
    (l.Pairwise fun b c => b.addr < c.addr) ∧ (l.Pairwise fun b c => Disjoint b.cells c.cells) ∧
      ∀ b ∈ l, ∀ c ∈ l, b.addr + b.size ≠ c.addr := by
  constructor
  · intro ⟨hpos, hgaps⟩
    refine ⟨hpos, hgaps.imp fun hbc => ?_, hgaps.imp fun hbc => ?_, fun b hb c hc he => ?_⟩
    · omega
    · rw [Set.disjoint_left]
      intro x hx hx'
      rw [Block.mem_cells] at hx hx'
      omega
    · obtain ⟨l₁, l₂, rfl⟩ := List.append_of_mem hb
      obtain ⟨-, hr, hlr⟩ := List.pairwise_append.1 hgaps
      have hb := hpos b hb
      rcases List.mem_append.1 hc with hc | hc
      · have hlt := hlr c hc b List.mem_cons_self
        omega
      rcases List.mem_cons.1 hc with rfl | hc
      · omega
      · have hlt := (List.pairwise_cons.1 hr).1 c hc
        omega
  · intro ⟨hpos, hord, hdis, hadj⟩
    refine ⟨hpos, (hord.and hdis).imp_of_mem fun hb hc h => ?_⟩
    have hne := hadj _ hb _ hc
    rcases (Block.disjoint_iff (hpos _ hb) (hpos _ hc)).1 h.2 with hbc | hcb
    · omega
    · have hlt := h.1
      omega

/-! ### Canonical lists and the cells they cover -/

theorem length_le_bytes (h : ∀ b ∈ l, n ≤ b.size) : l.length * n ≤ bytes l := by
  induction l with
  | nil => exact Nat.zero_mul n ▸ Nat.zero_le _
  | cons b l ih =>
    obtain ⟨hb, hl⟩ := List.forall_mem_cons.1 h
    have hle := ih hl
    rw [List.length_cons, Nat.succ_mul, bytes_cons]
    omega

theorem size_le_bytes (h : b ∈ l) : b.size ≤ bytes l := by
  obtain ⟨l₁, l₂, rfl⟩ := List.append_of_mem h
  rw [bytes_append, bytes_cons]
  omega

theorem Canonical.bytes_le (h : Canonical l) (hlo : ∀ b ∈ l, s ≤ b.addr)
    (hhi : ∀ b ∈ l, b.addr + b.size ≤ e) (hse : s ≤ e) : bytes l + s ≤ e := by
  induction l generalizing s with
  | nil =>
    rw [bytes_nil]
    omega
  | cons b l ih =>
    obtain ⟨hb, hg, hl⟩ := canonical_cons.1 h
    obtain ⟨hbs, -⟩ := List.forall_mem_cons.1 hlo
    obtain ⟨hbe, hle⟩ := List.forall_mem_cons.1 hhi
    have hrest := ih hl (fun c hc => (hg c hc).le) hle hbe
    rw [bytes_cons]
    omega

/-- One block is the only canonical list that covers an interval. -/
theorem Canonical.eq_singleton (h : Canonical l) (hc : cover l = Set.Ico s e) (hse : s < e) :
    l = [⟨s, e - s⟩] := by
  have hmem (x : Nat) : (∃ b ∈ l, x ∈ b.cells) ↔ s ≤ x ∧ x < e := by
    rw [← Set.mem_Ico, ← hc]
    rfl
  cases l with
  | nil =>
    obtain ⟨b, hb, -⟩ := (hmem s).2 ⟨le_rfl, hse⟩
    exact absurd hb List.not_mem_nil
  | cons b l =>
    obtain ⟨hb, hg, hl⟩ := canonical_cons.1 h
    have hfirst := (hmem b.addr).1 ⟨b, List.mem_cons_self, Block.addr_mem_cells hb⟩
    have hstart : b.addr = s := by
      obtain ⟨c, hm, hcs⟩ := (hmem s).2 ⟨le_rfl, hse⟩
      rw [Block.mem_cells] at hcs
      rcases List.mem_cons.1 hm with rfl | hm
      · omega
      · have hgc := hg c hm
        omega
    -- the cell behind the first block is not covered
    have hend : e ≤ b.addr + b.size := by
      by_contra hlt
      obtain ⟨c, hm, hce⟩ := (hmem (b.addr + b.size)).2 ⟨by omega, by omega⟩
      rw [Block.mem_cells] at hce
      rcases List.mem_cons.1 hm with rfl | hm
      · omega
      · have hgc := hg c hm
        omega
    have hlast := (hmem (b.addr + b.size - 1)).1
      ⟨b, List.mem_cons_self, Block.mem_cells.2 ⟨by omega, by omega⟩⟩
    have hl : l = [] := by
      cases l with
      | nil => rfl
      | cons c l =>
        have hcpos := hl.pos c List.mem_cons_self
        have hgc := hg c List.mem_cons_self
        have hcm := (hmem c.addr).1
          ⟨c, List.mem_cons_of_mem _ List.mem_cons_self, Block.addr_mem_cells hcpos⟩
        omega
    have hone : b = ⟨s, e - s⟩ := by
      rw [Block.mk.injEq]
      omega
    rw [hl, hone]

end FreeList

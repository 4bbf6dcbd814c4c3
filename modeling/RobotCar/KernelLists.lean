import Mathlib.Data.List.TakeWhile
import RobotCar.Lib.Carousel
import RobotCar.Lib.Circular

namespace RobotCar
open Circular
set_option autoImplicit true

/-- The largest tick count, which means "without a time limit". -/
def portMAX_DELAY : UInt32 := 0xffffffff

/-- A node that a link can lead to: an item, or the marker inside a list. -/
inductive ListNode (ι κ : Type) where
  | item (pxItem : ι)
  | xListEnd (pxList : κ)
  deriving DecidableEq

/-- The lists of the kernel and the items in them. -/
structure Lists (ι κ : Type) where
  pxNext : ListNode ι κ → ListNode ι κ
  pxPrevious : ListNode ι κ → ListNode ι κ
  xItemValue : ι → UInt32
  pxContainer : ι → Option κ
  pxIndex : κ → ListNode ι κ
  uxNumberOfItems : κ → Nat

namespace Lists

variable {ι κ : Type}

/-- The lists after `vListInitialise`, and the items after `vListInitialiseItem`. -/
def initialised : Lists ι κ where
  pxNext := id
  pxPrevious := id
  xItemValue := fun _ => 0
  pxContainer := fun _ => none
  pxIndex := .xListEnd
  uxNumberOfItems := fun _ => 0

def value (s : Lists ι κ) : ListNode ι κ → UInt32
  | .item pxItem => s.xItemValue pxItem
  | .xListEnd _ => portMAX_DELAY

@[simp] theorem value_item (s : Lists ι κ) (x : ι) : s.value (.item x) = s.xItemValue x := rfl

@[simp] theorem value_xListEnd (s : Lists ι κ) (k : κ) : s.value (.xListEnd k) = portMAX_DELAY :=
  rfl

def listLIST_IS_EMPTY (s : Lists ι κ) (pxList : κ) : Bool := s.uxNumberOfItems pxList == 0

def listGET_OWNER_OF_HEAD_ENTRY (s : Lists ι κ) (pxList : κ) : Option ι :=
  match s.pxNext (.xListEnd pxList) with
  | .item pxItem => some pxItem
  | .xListEnd _ => none

section Calls

variable [DecidableEq ι] [DecidableEq κ]

def setNext (s : Lists ι κ) (a b : ListNode ι κ) : Lists ι κ :=
  { s with pxNext := Function.update s.pxNext a b }

def setPrevious (s : Lists ι κ) (a b : ListNode ι κ) : Lists ι κ :=
  { s with pxPrevious := Function.update s.pxPrevious a b }

def setContainer (s : Lists ι κ) (pxItem : ι) (pxList : Option κ) : Lists ι κ :=
  { s with pxContainer := Function.update s.pxContainer pxItem pxList }

def setIndex (s : Lists ι κ) (pxList : κ) (pxIndex : ListNode ι κ) : Lists ι κ :=
  { s with pxIndex := Function.update s.pxIndex pxList pxIndex }

def setNumberOfItems (s : Lists ι κ) (pxList : κ) (n : Nat) : Lists ι κ :=
  { s with uxNumberOfItems := Function.update s.uxNumberOfItems pxList n }

def listSET_LIST_ITEM_VALUE (s : Lists ι κ) (pxItem : ι) (xValue : UInt32) : Lists ι κ :=
  { s with xItemValue := Function.update s.xItemValue pxItem xValue }

def vListInsertEnd (s : Lists ι κ) (pxList : κ) (pxNewListItem : ι) : Lists ι κ :=
  let pxIndex := s.pxIndex pxList
  let s := s.setNext (.item pxNewListItem) pxIndex
  let s := s.setPrevious (.item pxNewListItem) (s.pxPrevious pxIndex)
  let s := s.setNext (s.pxPrevious pxIndex) (.item pxNewListItem)
  let s := s.setPrevious pxIndex (.item pxNewListItem)
  let s := s.setContainer pxNewListItem (some pxList)
  s.setNumberOfItems pxList (s.uxNumberOfItems pxList + 1)

/-- The loop of `vListInsert` from `pxIterator` on, for at most `fuel` items. -/
def walk (s : Lists ι κ) (xValueOfInsertion : UInt32) : Nat → ListNode ι κ → Option (ListNode ι κ)
  | 0, _ => none
  | fuel + 1, pxIterator =>
    if s.value (s.pxNext pxIterator) ≤ xValueOfInsertion then
      walk s xValueOfInsertion fuel (s.pxNext pxIterator)
    else
      some pxIterator

/-- The node that `vListInsert` links a new item in after. -/
def insertionPoint (s : Lists ι κ) (pxList : κ) (xValueOfInsertion : UInt32) :
    Option (ListNode ι κ) :=
  if xValueOfInsertion = portMAX_DELAY then
    some (s.pxPrevious (.xListEnd pxList))
  else
    s.walk xValueOfInsertion (s.uxNumberOfItems pxList + 1) (.xListEnd pxList)

def vListInsert (s : Lists ι κ) (pxList : κ) (pxNewListItem : ι) : Option (Lists ι κ) := do
  let pxIterator ← s.insertionPoint pxList (s.xItemValue pxNewListItem)
  let s := s.setNext (.item pxNewListItem) (s.pxNext pxIterator)
  let s := s.setPrevious (s.pxNext (.item pxNewListItem)) (.item pxNewListItem)
  let s := s.setPrevious (.item pxNewListItem) pxIterator
  let s := s.setNext pxIterator (.item pxNewListItem)
  let s := s.setContainer pxNewListItem (some pxList)
  return s.setNumberOfItems pxList (s.uxNumberOfItems pxList + 1)

/-- Without a container there is no list to remove the item from. -/
def uxListRemove (s : Lists ι κ) (pxItemToRemove : ι) : Option (Nat × Lists ι κ) := do
  let pxList ← s.pxContainer pxItemToRemove
  let s := s.setPrevious (s.pxNext (.item pxItemToRemove)) (s.pxPrevious (.item pxItemToRemove))
  let s := s.setNext (s.pxPrevious (.item pxItemToRemove)) (s.pxNext (.item pxItemToRemove))
  let s :=
    if s.pxIndex pxList = .item pxItemToRemove then
      s.setIndex pxList (s.pxPrevious (.item pxItemToRemove))
    else
      s
  let s := s.setContainer pxItemToRemove none
  let s := s.setNumberOfItems pxList (s.uxNumberOfItems pxList - 1)
  return (s.uxNumberOfItems pxList, s)

def listGET_OWNER_OF_NEXT_ENTRY (s : Lists ι κ) (pxList : κ) : Option (ι × Lists ι κ) :=
  let s := s.setIndex pxList (s.pxNext (s.pxIndex pxList))
  let s :=
    if s.pxIndex pxList = .xListEnd pxList then
      s.setIndex pxList (s.pxNext (s.pxIndex pxList))
    else
      s
  match s.pxIndex pxList with
  | .item pxItem => some (pxItem, s)
  | .xListEnd _ => none

end Calls

/-! ### The items of the lists -/

def links (s : Lists ι κ) : Links (ListNode ι κ) := ⟨s.pxNext, s.pxPrevious⟩

def pointer (k : κ) (c : Carousel ι) : ListNode ι κ :=
  match c.served with
  | [] => .xListEnd k
  | x :: _ => .item x

/-- The lists hold these items, in this order. -/
structure Holds (s : Lists ι κ) (contents : κ → Carousel ι) : Prop where
  rings : s.links.Rings .xListEnd fun k => (contents k).items.map .item
  container : ∀ x k, s.pxContainer x = some k ↔ x ∈ (contents k).items
  count : ∀ k, s.uxNumberOfItems k = (contents k).items.length
  index : ∀ k, s.pxIndex k = pointer k (contents k)

variable {s : Lists ι κ} {contents : κ → Carousel ι}

theorem holds_initialised : (initialised : Lists ι κ).Holds fun _ => ⟨[], []⟩ := by
  constructor
  · constructor
    · exact fun k => Links.ring_nil rfl rfl
    · intro j j' hne
      change [ListNode.xListEnd j].Disjoint [ListNode.xListEnd j']
      rw [List.disjoint_singleton, List.mem_singleton]
      exact fun he => hne (ListNode.xListEnd.inj he).symm
  · exact fun x k => ⟨nofun, fun h => absurd h List.not_mem_nil⟩
  · exact fun k => rfl
  · exact fun k => rfl

theorem Holds.nodup (h : s.Holds contents) (k : κ) : (contents k).items.Nodup :=
  ((h.rings.ring k).nodup.of_cons).of_map _

theorem item_mem {l : List ι} :
    ListNode.item x ∈ (.xListEnd k : ListNode ι κ) :: l.map ListNode.item ↔ x ∈ l := by
  rw [List.mem_cons, or_iff_right nofun, List.mem_map]
  constructor
  · rintro ⟨y, hy, he⟩
    exact ListNode.item.inj he ▸ hy
  · exact fun hx => ⟨x, hx, rfl⟩

theorem Holds.free (h : s.Holds contents) (hx : s.pxContainer x = none) (k : κ) :
    ListNode.item x ∉ ListNode.xListEnd k :: (contents k).items.map .item := by
  rw [item_mem, ← h.container, hx]
  exact nofun

/-- A place in one of the lists, with the nodes to both sides of it. -/
abbrev Gap (k : κ) (l₁ l₂ : List ι) (p q : ListNode ι κ) : Prop :=
  Between (.xListEnd k) (l₁.map .item) (l₂.map .item) p q

theorem exists_gap (k : κ) (l₁ l₂ : List ι) : ∃ p q : ListNode ι κ, Gap k l₁ l₂ p q :=
  exists_between _ _ _

theorem gap_end (k : κ) (l : List ι) : ∃ p : ListNode ι κ, Gap k l [] p (.xListEnd k) := by
  obtain ⟨p, q, hg⟩ := exists_gap k l []
  exact ⟨p, hg.last, rfl⟩

theorem gap_start (k : κ) (l : List ι) : ∃ q : ListNode ι κ, Gap k [] l (.xListEnd k) q := by
  obtain ⟨p, q, hg⟩ := exists_gap k [] l
  exact ⟨q, rfl, hg.first⟩

theorem gap_pointer (k : κ) (c : Carousel ι) :
    ∃ q : ListNode ι κ, Gap k c.served.reverse c.waiting (pointer k c) q := by
  obtain ⟨p, q, hg⟩ := exists_gap k c.served.reverse c.waiting
  refine ⟨q, ?_, hg.first⟩
  rw [pointer]
  cases c.served with
  | nil => rfl
  | cons x served =>
    rw [List.reverse_cons, List.map_append, ← List.cons_append]
    exact List.getLast?_concat ..

theorem Holds.index_ne (h : s.Holds contents) (hx : s.pxContainer x = none) (k : κ) :
    s.pxIndex k ≠ .item x := by
  intro he
  obtain ⟨q, hg⟩ := gap_pointer k (contents k)
  apply h.free hx k
  rw [Carousel.items, List.map_append, ← he, h.index]
  exact hg.left_mem_ring

theorem Holds.adjacent (h : s.Holds contents) (hk : (contents k).items = l₁ ++ l₂)
    (hg : Gap k l₁ l₂ p q) : s.pxNext p = q ∧ s.pxPrevious q = p := by
  have hr := h.rings.ring k
  rw [hk, List.map_append] at hr
  exact ((Links.ring_append_iff hg).1 hr).2.2.2

theorem Holds.empty_iff (h : s.Holds contents) :
    s.listLIST_IS_EMPTY k = true ↔ (contents k).items = [] := by
  rw [listLIST_IS_EMPTY, h.count, beq_iff_eq, List.length_eq_zero_iff]

theorem Holds.head (h : s.Holds contents) (k : κ) :
    s.listGET_OWNER_OF_HEAD_ENTRY k = (contents k).items.head? := by
  obtain ⟨q, hg⟩ := gap_start k (contents k).items
  rw [listGET_OWNER_OF_HEAD_ENTRY, (h.adjacent (List.nil_append _).symm hg).1]
  have hq := hg.first
  cases hk : (contents k).items with
  | nil =>
    rw [hk] at hq
    obtain rfl := Option.some.inj hq
    rfl
  | cons x l =>
    rw [hk] at hq
    obtain rfl := Option.some.inj hq
    rfl

/-- The walk stops before the first item with a larger value. -/
theorem walk_eq (h : s.Holds contents) (hv : v < portMAX_DELAY)
    (hk : (contents k).items = l₁ ++ l₂) (hg : Gap k l₁ l₂ p q) (hf : l₂.length < fuel) :
    ∃ p' q', s.walk v fuel p = some p' ∧
      Gap k (l₁ ++ l₂.takeWhile (s.xItemValue · ≤ v)) (l₂.dropWhile (s.xItemValue · ≤ v))
        p' q' := by
  have hq := (h.adjacent hk hg).1
  induction l₂ generalizing l₁ p q fuel with
  | nil =>
    obtain ⟨fuel, rfl⟩ := Nat.exists_eq_succ_of_ne_zero (Nat.ne_of_gt hf)
    obtain rfl : ListNode.xListEnd k = q := Option.some.inj hg.first
    refine ⟨p, .xListEnd k, ?_, ?_⟩
    · rw [walk, hq, value_xListEnd, if_neg (UInt32.not_le.2 hv)]
    · rw [List.takeWhile_nil, List.append_nil]
      exact hg
  | cons y l₂ ih =>
    obtain ⟨fuel, rfl⟩ := Nat.exists_eq_succ_of_ne_zero (Nat.ne_of_gt (Nat.zero_lt_of_lt hf))
    obtain rfl : ListNode.item y = q := Option.some.inj hg.first
    rw [walk, hq, value_item]
    by_cases hy : s.xItemValue y ≤ v
    · have hk' : (contents k).items = (l₁ ++ [y]) ++ l₂ := by
        rw [hk, List.append_assoc]
        rfl
      obtain ⟨q', hfirst⟩ : ∃ q', (l₂.map ListNode.item ++ [ListNode.xListEnd k]).head? = some q' :=
        ⟨_, List.head?_eq_some_head (by simp)⟩
      have hg' : Gap k (l₁ ++ [y]) l₂ (.item y) q' := by
        refine ⟨?_, hfirst⟩
        rw [List.map_append, ← List.cons_append]
        exact List.getLast?_concat ..
      obtain ⟨p', q'', hw, hg''⟩ := ih hk' hg' (Nat.lt_of_succ_lt_succ hf) (h.adjacent hk' hg').1
      refine ⟨p', q'', ?_, ?_⟩
      · rw [if_pos hy]
        exact hw
      · rw [List.takeWhile_cons_of_pos (p := (s.xItemValue · ≤ v)) (decide_eq_true hy),
          List.dropWhile_cons_of_pos (p := (s.xItemValue · ≤ v)) (decide_eq_true hy)]
        rw [List.append_assoc] at hg''
        exact hg''
    · refine ⟨p, .item y, ?_, ?_⟩
      · rw [if_neg hy]
      · have hy' : ¬decide (s.xItemValue y ≤ v) = true := fun he => hy (of_decide_eq_true he)
        rw [List.takeWhile_cons_of_neg (p := (s.xItemValue · ≤ v)) hy',
          List.dropWhile_cons_of_neg (p := (s.xItemValue · ≤ v)) hy', List.append_nil]
        exact hg

theorem insertionPoint_eq (h : s.Holds contents) (k : κ) (v : UInt32) :
    ∃ p q, s.insertionPoint k v = some p ∧
      Gap k ((contents k).items.takeWhile (s.xItemValue · ≤ v))
        ((contents k).items.dropWhile (s.xItemValue · ≤ v)) p q := by
  rw [insertionPoint]
  by_cases hv : v = portMAX_DELAY
  · subst hv
    have hle (y) : decide (s.xItemValue y ≤ portMAX_DELAY) = true :=
      decide_eq_true (UInt32.le_iff_toNat_le.2 (Nat.le_of_lt_succ (s.xItemValue y).toNat_lt))
    rw [List.takeWhile_eq_self_iff.2 fun y _ => hle y, List.dropWhile_eq_nil_iff.2 fun y _ => hle y,
      if_pos rfl]
    obtain ⟨p, hg⟩ := gap_end k (contents k).items
    exact ⟨p, .xListEnd k, congrArg some (h.adjacent (List.append_nil _).symm hg).2, hg⟩
  · rw [if_neg hv]
    have hlt : v < portMAX_DELAY := by
      have hv' : v.toNat ≠ 4294967295 := fun he => hv (UInt32.toNat_inj.1 he)
      have hb := v.toNat_lt
      exact UInt32.lt_iff_toNat_lt.2 (Nat.lt_of_le_of_ne (Nat.le_of_lt_succ hb) hv')
    obtain ⟨q, hg⟩ := gap_start k (contents k).items
    have hf : (contents k).items.length < s.uxNumberOfItems k + 1 := by
      rw [h.count]
      exact Nat.lt_succ_self _
    exact walk_eq h hlt (List.nil_append _).symm hg hf

theorem pairwise_insert {f : ι → UInt32} {l : List ι} (h : l.Pairwise (f · ≤ f ·)) (x : ι) :
    (l.takeWhile (f · ≤ f x) ++ x :: l.dropWhile (f · ≤ f x)).Pairwise (f · ≤ f ·) := by
  have hsplit := h
  rw [← List.takeWhile_append_dropWhile (p := (f · ≤ f x)) (l := l), List.pairwise_append] at hsplit
  obtain ⟨ht, hd, htd⟩ := hsplit
  have hleft (a) (ha : a ∈ l.takeWhile (f · ≤ f x)) : f a ≤ f x :=
    of_decide_eq_true (List.mem_takeWhile_imp (p := (f · ≤ f x)) ha)
  have hright (b) (hb : b ∈ l.dropWhile (f · ≤ f x)) : f x ≤ f b := by
    cases hdrop : l.dropWhile (f · ≤ f x) with
    | nil =>
      rw [hdrop] at hb
      cases hb
    | cons y m =>
      have hy : ¬f y ≤ f x := by
        have hn := List.head_dropWhile_not (f · ≤ f x) (l := l)
          (by rw [hdrop]; exact List.cons_ne_nil _ _)
        simp only [hdrop, List.head_cons] at hn
        exact of_decide_eq_false hn
      have hxy : f x ≤ f y := UInt32.le_of_lt (UInt32.not_le.1 hy)
      rw [hdrop] at hb hd
      rcases List.mem_cons.1 hb with rfl | hb
      · exact hxy
      · exact UInt32.le_trans hxy (List.rel_of_pairwise_cons hd hb)
  rw [List.pairwise_append]
  refine ⟨ht, List.pairwise_cons.2 ⟨hright, hd⟩, fun a ha b hb => ?_⟩
  rcases List.mem_cons.1 hb with rfl | hb
  · exact hleft a ha
  · exact htd a ha b hb

/-! ### The calls on the contents -/

section Edits

variable [DecidableEq κ]

theorem map_update (contents : κ → Carousel ι) (k : κ) (c : Carousel ι) :
    (fun k' => (Function.update contents k c k').items.map (.item : ι → ListNode ι κ)) =
      Function.update (fun k' => (contents k').items.map ListNode.item) k
        (c.items.map ListNode.item) := by
  funext k'
  exact Function.apply_update (fun _ c => List.map ListNode.item c.items) contents k c k'

variable [DecidableEq ι]

def place (s : Lists ι κ) (k : κ) (p : ListNode ι κ) (x : ι) (q : ListNode ι κ) : Lists ι κ where
  pxNext := Function.update (Function.update s.pxNext (.item x) q) p (.item x)
  pxPrevious := Function.update (Function.update s.pxPrevious q (.item x)) (.item x) p
  xItemValue := s.xItemValue
  pxContainer := Function.update s.pxContainer x (some k)
  pxIndex := s.pxIndex
  uxNumberOfItems := Function.update s.uxNumberOfItems k (s.uxNumberOfItems k + 1)

@[simp] theorem place_container (s : Lists ι κ) (k : κ) (p q : ListNode ι κ) (x y : ι) :
    (s.place k p x q).pxContainer y = if y = x then some k else s.pxContainer y :=
  Function.update_apply ..

@[simp] theorem place_value (s : Lists ι κ) (k : κ) (p q : ListNode ι κ) (x : ι) :
    (s.place k p x q).xItemValue = s.xItemValue := rfl

theorem Holds.place (h : s.Holds contents) (hk : (contents k).items = l₁ ++ l₂)
    (hg : Gap k l₁ l₂ p q) (hx : s.pxContainer x = none) {c : Carousel ι}
    (hc : c.items = l₁ ++ x :: l₂) (hp : pointer k c = pointer k (contents k)) :
    (s.place k p x q).Holds (Function.update contents k c) := by
  have hmem (y) : y ∈ c.items ↔ y = x ∨ y ∈ (contents k).items := by
    rw [hc, hk, List.mem_append, List.mem_cons, List.mem_append, or_left_comm]
  constructor
  · rw [map_update, hc, List.map_append, List.map_cons]
    have hitems : (contents k).items.map (.item : ι → ListNode ι κ) =
        l₁.map .item ++ l₂.map .item := by
      rw [hk, List.map_append]
    exact h.rings.insert hitems hg (h.free hx)
  · intro y k'
    change Function.update s.pxContainer x (some k) y = some k' ↔ _
    by_cases hk' : k' = k
    · subst hk'
      rw [Function.update_self, hmem]
      by_cases hy : y = x
      · subst hy
        rw [Function.update_self]
        exact ⟨fun _ => .inl rfl, fun _ => rfl⟩
      · rw [Function.update_of_ne hy, h.container, or_iff_right hy]
    · rw [Function.update_of_ne hk', ← h.container]
      by_cases hy : y = x
      · subst hy
        rw [Function.update_self, hx]
        exact ⟨fun he => absurd (Option.some.inj he).symm hk', nofun⟩
      · rw [Function.update_of_ne hy]
  · intro k'
    change Function.update s.uxNumberOfItems k _ k' = _
    by_cases hk' : k' = k
    · subst hk'
      rw [Function.update_self, Function.update_self, h.count, hc, hk]
      simp only [List.length_append, List.length_cons, Nat.add_assoc]
    · rw [Function.update_of_ne hk', Function.update_of_ne hk', h.count]
  · intro k'
    change s.pxIndex k' = _
    rw [h.index]
    by_cases hk' : k' = k
    · subst hk'
      rw [Function.update_self, hp]
    · rw [Function.update_of_ne hk']

theorem vListInsertEnd_eq (hx : s.pxIndex k ≠ .item x) :
    s.vListInsertEnd k x = s.place k (s.pxPrevious (s.pxIndex k)) x (s.pxIndex k) := by
  simp only [vListInsertEnd, setNext, setPrevious, setContainer, setNumberOfItems, place,
    Function.update_of_ne hx, Function.update_comm hx]

/-- The new item comes right before the index. -/
theorem Holds.insertEnd (h : s.Holds contents) (hx : s.pxContainer x = none) (k : κ) :
    ∃ p q, s.vListInsertEnd k x = s.place k p x q ∧
      (s.place k p x q).Holds (Function.update contents k ((contents k).insert x)) := by
  obtain ⟨served, waiting, hk⟩ : ∃ served waiting, contents k = ⟨served, waiting⟩ := ⟨_, _, rfl⟩
  have hi := h.index k
  rw [vListInsertEnd_eq (h.index_ne hx k), hk]
  rw [hk] at hi
  cases served with
  | nil =>
    have hsplit : (contents k).items = waiting ++ [] := by rw [hk, List.append_nil]; rfl
    obtain ⟨p, hg⟩ := gap_end k waiting
    refine ⟨p, .xListEnd k, ?_, h.place hsplit hg hx rfl (by rw [hk]; rfl)⟩
    rw [hi]
    exact congrArg (fun p => s.place k p x (.xListEnd k)) (h.adjacent hsplit hg).2
  | cons a served =>
    have hsplit : (contents k).items = served.reverse ++ a :: waiting := by
      rw [hk, Carousel.items, List.reverse_cons, List.append_assoc, List.singleton_append]
    obtain ⟨p, q, hg⟩ := exists_gap k served.reverse (a :: waiting)
    obtain rfl : ListNode.item a = q := Option.some.inj hg.first
    have hc : (Carousel.mk (a :: x :: served) waiting).items =
        served.reverse ++ x :: a :: waiting := by
      simp only [Carousel.items, List.reverse_cons, List.append_assoc, List.cons_append,
        List.nil_append]
    refine ⟨p, .item a, ?_, h.place hsplit hg hx hc (by rw [hk]; rfl)⟩
    rw [hi]
    exact congrArg (fun p => s.place k p x (.item a)) (h.adjacent hsplit hg).2

/-- In a list whose turns are not in use the new item comes before the first one with a larger
value. -/
theorem Holds.insert (h : s.Holds contents) (hx : s.pxContainer x = none)
    (hk : contents k = ⟨[], l⟩) :
    ∃ p q, s.vListInsert k x = some (s.place k p x q) ∧
      (s.place k p x q).Holds (Function.update contents k
        ⟨[], l.takeWhile (s.xItemValue · ≤ s.xItemValue x) ++
          x :: l.dropWhile (s.xItemValue · ≤ s.xItemValue x)⟩) := by
  have hl : (contents k).items = l := by rw [hk]; rfl
  obtain ⟨p, q, hp, hg⟩ := insertionPoint_eq h k (s.xItemValue x)
  rw [hl] at hg
  have hsplit := (List.takeWhile_append_dropWhile
    (p := (s.xItemValue · ≤ s.xItemValue x)) (l := l)).symm.trans rfl
  rw [← hl] at hsplit
  obtain rfl := (h.adjacent (hl ▸ hsplit) hg).1
  refine ⟨p, _, ?_, h.place (hl ▸ hsplit) hg hx rfl (by rw [hk]; rfl)⟩
  rw [vListInsert, hp, Option.bind_eq_bind, Option.bind_some]
  simp only [setNext, setPrevious, setContainer, setNumberOfItems, Function.update_self]
  rfl

def displace (s : Lists ι κ) (k : κ) (x : ι) : Lists ι κ where
  pxNext := Function.update s.pxNext (s.pxPrevious (.item x)) (s.pxNext (.item x))
  pxPrevious := Function.update s.pxPrevious (s.pxNext (.item x)) (s.pxPrevious (.item x))
  xItemValue := s.xItemValue
  pxContainer := Function.update s.pxContainer x none
  pxIndex := if s.pxIndex k = .item x then
    Function.update s.pxIndex k (s.pxPrevious (.item x)) else s.pxIndex
  uxNumberOfItems := Function.update s.uxNumberOfItems k (s.uxNumberOfItems k - 1)

@[simp] theorem displace_container (s : Lists ι κ) (k : κ) (x y : ι) :
    (s.displace k x).pxContainer y = if y = x then none else s.pxContainer y :=
  Function.update_apply ..

@[simp] theorem displace_value (s : Lists ι κ) (k : κ) (x : ι) :
    (s.displace k x).xItemValue = s.xItemValue := rfl

theorem uxListRemove_eq (hx : s.pxContainer x = some k) (hne : s.pxNext (.item x) ≠ .item x) :
    s.uxListRemove x = some (s.uxNumberOfItems k - 1, s.displace k x) := by
  rw [uxListRemove, hx, Option.bind_eq_bind, Option.bind_some]
  by_cases hi : s.pxIndex k = .item x
  · simp [setNext, setPrevious, setIndex, setContainer, setNumberOfItems, displace, hi,
      Function.update_of_ne hne.symm]
  · simp [setNext, setPrevious, setContainer, setNumberOfItems, displace, hi,
      Function.update_of_ne hne.symm]

/-- When the item under the index is removed, the index goes back to the one before it. -/
theorem Holds.remove_index (h : s.Holds contents) (x : ι) :
    (s.displace k x).pxIndex k = pointer k ((contents k).remove x) := by
  obtain ⟨served, waiting, hk⟩ : ∃ served waiting, contents k = ⟨served, waiting⟩ := ⟨_, _, rfl⟩
  have hi := h.index k
  rw [hk] at hi ⊢
  change (if s.pxIndex k = .item x then Function.update s.pxIndex k _ else s.pxIndex) k = _
  cases served with
  | nil =>
    rw [if_neg (by rw [hi]; exact nofun), hi]
    rfl
  | cons a served =>
    by_cases ha : a = x
    · subst ha
      obtain ⟨q, hg⟩ := gap_pointer k (Carousel.mk served (a :: waiting))
      obtain rfl : ListNode.item a = q := Option.some.inj hg.first
      have hsplit : (contents k).items = served.reverse ++ a :: waiting := by
        rw [hk, Carousel.items, List.reverse_cons, List.append_assoc, List.singleton_append]
      rw [if_pos (by rw [hi]; rfl), Function.update_self, (h.adjacent hsplit hg).2,
        Carousel.remove, List.erase_cons_head]
      rfl
    · have hne : s.pxIndex k ≠ .item x := by
        rw [hi]
        exact fun he => ha (ListNode.item.inj he)
      rw [if_neg hne, hi, Carousel.remove, List.erase_cons_tail (by simpa using ha)]
      rfl

theorem Holds.remove (h : s.Holds contents) (hx : s.pxContainer x = some k) :
    s.uxListRemove x = some (s.uxNumberOfItems k - 1, s.displace k x) ∧
      (s.displace k x).Holds (Function.update contents k ((contents k).remove x)) := by
  have hm := (h.container x k).1 hx
  have hd := h.nodup k
  have hrem := Carousel.remove_items hd x
  obtain ⟨l₁, l₂, hk⟩ := List.mem_iff_append.1 hm
  rw [hk, List.nodup_middle, List.nodup_cons, List.mem_append, not_or] at hd
  have herase : (contents k).items.erase x = l₁ ++ l₂ := by
    rw [hk, List.erase_append_right _ hd.1.1, List.erase_cons_head]
  rw [herase] at hrem
  have hr := h.rings.ring k
  rw [hk, List.map_append, List.map_cons] at hr
  obtain ⟨p, q, hg⟩ := exists_gap k l₁ l₂
  obtain ⟨hp, hq⟩ : s.pxPrevious (.item x) = p ∧ s.pxNext (.item x) = q := hr.neighbours hg
  have hmem (y) : y ∈ l₁ ++ l₂ ↔ y ≠ x ∧ y ∈ (contents k).items := by
    rw [← herase, (h.nodup k).mem_erase_iff]
  have hne : s.pxNext (.item x) ≠ .item x := by
    intro he
    have hqm : ListNode.item x ∈ ListNode.xListEnd k :: (l₁ ++ l₂).map .item := by
      rw [List.map_append, ← he, hq]
      exact hg.right_mem_ring
    rw [item_mem, hmem] at hqm
    exact hqm.1 rfl
  refine ⟨uxListRemove_eq hx hne, ?_⟩
  constructor
  · rw [map_update, hrem, List.map_append]
    have hitems : (contents k).items.map (.item : ι → ListNode ι κ) =
        l₁.map .item ++ .item x :: l₂.map .item := by
      rw [hk, List.map_append, List.map_cons]
    exact h.rings.unlink hitems
  · intro y k'
    change Function.update s.pxContainer x none y = some k' ↔ _
    by_cases hy : y = x
    · subst hy
      rw [Function.update_self]
      refine ⟨nofun, fun hm => ?_⟩
      by_cases hk' : k' = k
      · subst hk'
        rw [Function.update_self, hrem, hmem] at hm
        exact absurd rfl hm.1
      · rw [Function.update_of_ne hk', ← h.container, hx] at hm
        exact absurd (Option.some.inj hm).symm hk'
    · rw [Function.update_of_ne hy, h.container]
      by_cases hk' : k' = k
      · subst hk'
        rw [Function.update_self, hrem, hmem, and_iff_right hy]
      · rw [Function.update_of_ne hk']
  · intro k'
    change Function.update s.uxNumberOfItems k _ k' = _
    by_cases hk' : k' = k
    · subst hk'
      rw [Function.update_self, Function.update_self, h.count, hrem, hk]
      simp only [List.length_append, List.length_cons]
      omega
    · rw [Function.update_of_ne hk', Function.update_of_ne hk', h.count]
  · intro k'
    by_cases hk' : k' = k
    · subst hk'
      rw [Function.update_self]
      exact h.remove_index x
    · rw [Function.update_of_ne hk', ← h.index]
      change (if s.pxIndex k = .item x then Function.update s.pxIndex k _ else s.pxIndex) k' = _
      split
      · rw [Function.update_of_ne hk']
      · rfl

def without (contents : κ → Carousel ι) (x : ι) (k : κ) : Carousel ι := (contents k).remove x

omit [DecidableEq κ] in
theorem Holds.without_of_free (h : s.Holds contents) (hx : s.pxContainer x = none) :
    without contents x = contents := by
  funext k
  exact Carousel.remove_of_not_mem fun hm => h.free hx k (item_mem.2 hm)

theorem Holds.without (h : s.Holds contents) (hx : s.pxContainer x = some k) :
    (s.displace k x).Holds (without contents x) := by
  have heq : Function.update contents k ((contents k).remove x) = Lists.without contents x := by
    funext k'
    by_cases hk' : k' = k
    · subst hk'
      rw [Function.update_self, Lists.without]
    · rw [Function.update_of_ne hk', Lists.without, Carousel.remove_of_not_mem]
      rw [← h.container, hx]
      exact fun he => hk' (Option.some.inj he).symm
  exact heq ▸ (h.remove hx).2

omit [DecidableEq κ] in
theorem Holds.setValue (h : s.Holds contents) (x : ι) (v : UInt32) :
    (s.listSET_LIST_ITEM_VALUE x v).Holds contents :=
  ⟨h.rings, h.container, h.count, h.index⟩

omit [DecidableEq ι] in
theorem Holds.setIndex (h : s.Holds contents) {c : Carousel ι} (hc : c.items = (contents k).items) :
    (s.setIndex k (pointer k c)).Holds (Function.update contents k c) := by
  have hitems (k') : (Function.update contents k c k').items = (contents k').items := by
    by_cases hk' : k' = k
    · subst hk'
      rw [Function.update_self, hc]
    · rw [Function.update_of_ne hk']
  constructor
  · rw [show (fun k' => (Function.update contents k c k').items.map (.item : ι → ListNode ι κ)) =
      fun k' => (contents k').items.map .item from funext fun k' => by rw [hitems]]
    exact h.rings
  · intro x k'
    rw [hitems]
    exact h.container x k'
  · intro k'
    rw [hitems]
    exact h.count k'
  · intro k'
    change Function.update s.pxIndex k (pointer k c) k' = _
    by_cases hk' : k' = k
    · subst hk'
      rw [Function.update_self, Function.update_self]
    · rw [Function.update_of_ne hk', Function.update_of_ne hk', h.index]

/-- The turns of a list go around in a circle. -/
theorem Holds.next (h : s.Holds contents) (hk : (contents k).next = some (x, c)) :
    s.listGET_OWNER_OF_NEXT_ENTRY k = some (x, s.setIndex k (pointer k c)) ∧
      (s.setIndex k (pointer k c)).Holds (Function.update contents k c) := by
  refine ⟨?_, h.setIndex (Carousel.next_items hk)⟩
  have hi := h.index k
  obtain ⟨served, waiting, hc⟩ : ∃ served waiting, contents k = ⟨served, waiting⟩ := ⟨_, _, rfl⟩
  obtain ⟨q, hg⟩ := gap_pointer k (contents k)
  have hsplit : (contents k).items = (contents k).served.reverse ++ (contents k).waiting := rfl
  have hn := (h.adjacent hsplit hg).1
  have hq := hg.first
  rw [← hi] at hn
  rw [hc] at hk hq
  cases waiting with
  | cons y waiting =>
    obtain rfl : ListNode.item y = q := Option.some.inj hq
    obtain ⟨rfl, rfl⟩ := Prod.mk.inj (Option.some.inj hk)
    simp [listGET_OWNER_OF_NEXT_ENTRY, Lists.setIndex, hn, pointer]
  | nil =>
    obtain rfl : ListNode.xListEnd k = q := Option.some.inj hq
    cases hs : served.reverse with
    | nil => simp only [Carousel.next, hs, reduceCtorEq] at hk
    | cons y waiting =>
      simp only [Carousel.next, hs, Option.some.injEq, Prod.mk.injEq] at hk
      obtain ⟨rfl, rfl⟩ := hk
      have hfirst : Gap k [] (y :: waiting) (.xListEnd k) (.item y) := ⟨rfl, rfl⟩
      have hsplit : (contents k).items = [] ++ y :: waiting := by
        rw [hc, Carousel.items, hs, List.append_nil, List.nil_append]
      have hn' := (h.adjacent hsplit hfirst).1
      simp [listGET_OWNER_OF_NEXT_ENTRY, Lists.setIndex, hn, hn', pointer]

end Edits

end Lists

end RobotCar

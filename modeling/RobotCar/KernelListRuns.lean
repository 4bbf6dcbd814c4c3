import RobotCar.KernelLists
import RobotCar.Lib.Transition

namespace RobotCar
open Transition
set_option autoImplicit true

inductive ListCall (ι κ : Type) where
  | vListInsertEnd (pxList : κ) (pxNewListItem : ι)
  | vListInsert (pxList : κ) (pxNewListItem : ι)
  | uxListRemove (pxItemToRemove : ι)
  | listSET_LIST_ITEM_VALUE (pxItem : ι) (xValue : UInt32)
  | listGET_OWNER_OF_NEXT_ENTRY (pxList : κ)

inductive ListResult (ι : Type) where
  | done
  | numberOfItems (n : Nat)
  | owner (pxItem : ι)

/-- The contents of the lists, and the values of the items. -/
structure Shelves (ι κ : Type) where
  contents : κ → Carousel ι
  value : ι → UInt32

namespace Shelves

variable {ι κ : Type} [DecidableEq ι] [DecidableEq κ]

def empty : Shelves ι κ := ⟨fun _ => ⟨[], []⟩, fun _ => 0⟩

def put (a : Shelves ι κ) (k : κ) (c : Carousel ι) : Shelves ι κ :=
  { a with contents := Function.update a.contents k c }

/-- The items before a new one in a list that is ordered by value: those with the same value come
before it. -/
def insertSorted (a : Shelves ι κ) (l : List ι) (x : ι) : List ι :=
  l.takeWhile (a.value · ≤ a.value x) ++ x :: l.dropWhile (a.value · ≤ a.value x)

/-- What a call does to the contents. -/
inductive Step : Shelves ι κ → ListCall ι κ → ListResult ι → Shelves ι κ → Prop where
  | insertEnd (a : Shelves ι κ) : (∀ k', x ∉ (a.contents k').items) →
    Step a (.vListInsertEnd k x) .done (a.put k ((a.contents k).insert x))
  | insert (a : Shelves ι κ) : (∀ k', x ∉ (a.contents k').items) → a.contents k = ⟨[], l⟩ →
    Step a (.vListInsert k x) .done (a.put k ⟨[], a.insertSorted l x⟩)
  | remove (a : Shelves ι κ) : x ∈ (a.contents k).items →
    Step a (.uxListRemove x) (.numberOfItems ((a.contents k).items.length - 1))
      (a.put k ((a.contents k).remove x))
  | setValue (a : Shelves ι κ) (x : ι) (v : UInt32) : Step a (.listSET_LIST_ITEM_VALUE x v) .done
    { a with value := Function.update a.value x v }
  | next (a : Shelves ι κ) : (a.contents k).next = some (x, c) →
    Step a (.listGET_OWNER_OF_NEXT_ENTRY k) (.owner x) (a.put k c)

end Shelves

namespace Lists

variable {ι κ : Type} [DecidableEq ι] [DecidableEq κ] {s s' : Lists ι κ}

def call (s : Lists ι κ) : ListCall ι κ → Option (ListResult ι × Lists ι κ)
  | .vListInsertEnd pxList pxNewListItem => some (.done, s.vListInsertEnd pxList pxNewListItem)
  | .vListInsert pxList pxNewListItem => (s.vListInsert pxList pxNewListItem).map (.done, ·)
  | .uxListRemove pxItemToRemove =>
    (s.uxListRemove pxItemToRemove).map fun r => (.numberOfItems r.1, r.2)
  | .listSET_LIST_ITEM_VALUE pxItem xValue => some (.done, s.listSET_LIST_ITEM_VALUE pxItem xValue)
  | .listGET_OWNER_OF_NEXT_ENTRY pxList =>
    (s.listGET_OWNER_OF_NEXT_ENTRY pxList).map fun r => (.owner r.1, r.2)

def after (s : Lists ι κ) (c : ListCall ι κ) : Option (Lists ι κ) := (s.call c).map Prod.snd

/-- An item is put into one list at a time, and removed from the list that it is in. A list that is
ordered by value has no turns. -/
def Legal (s : Lists ι κ) : ListCall ι κ → Prop
  | .vListInsertEnd _ pxNewListItem => s.pxContainer pxNewListItem = none
  | .vListInsert pxList pxNewListItem =>
    s.pxContainer pxNewListItem = none ∧ s.pxIndex pxList = .xListEnd pxList
  | .uxListRemove pxItemToRemove => s.pxContainer pxItemToRemove ≠ none
  | .listSET_LIST_ITEM_VALUE _ _ => True
  | .listGET_OWNER_OF_NEXT_ENTRY pxList => s.listLIST_IS_EMPTY pxList = false

instance (s : Lists ι κ) : (c : ListCall ι κ) → Decidable (s.Legal c)
  | .vListInsertEnd _ _ => inferInstanceAs (Decidable (_ = _))
  | .vListInsert _ _ => inferInstanceAs (Decidable (_ ∧ _))
  | .uxListRemove _ => inferInstanceAs (Decidable (_ ≠ _))
  | .listSET_LIST_ITEM_VALUE _ _ => instDecidableTrue
  | .listGET_OWNER_OF_NEXT_ENTRY _ => inferInstanceAs (Decidable (_ = _))

/-- The lists hold the contents, and the items have these values. -/
def Shows (s : Lists ι κ) (a : Shelves ι κ) : Prop := s.Holds a.contents ∧ s.xItemValue = a.value

omit [DecidableEq ι] [DecidableEq κ] in
theorem Holds.not_mem_of_free {contents : κ → Carousel ι} (h : s.Holds contents)
    (hx : s.pxContainer x = none) (k : κ) : x ∉ (contents k).items :=
  fun hm => h.free hx k (item_mem.2 hm)

omit [DecidableEq ι] [DecidableEq κ] in
theorem Holds.served_eq_nil {contents : κ → Carousel ι} (h : s.Holds contents)
    (hk : s.pxIndex k = .xListEnd k) : contents k = ⟨[], (contents k).items⟩ := by
  rw [h.index] at hk
  obtain ⟨served, waiting, hc⟩ : ∃ served waiting, contents k = ⟨served, waiting⟩ := ⟨_, _, rfl⟩
  rw [hc] at hk ⊢
  cases served with
  | nil => rfl
  | cons x served => exact nomatch hk

theorem call_step (h : s.Shows a) (hl : s.Legal c) :
    ∃ r s' a', s.call c = some (r, s') ∧ a.Step c r a' ∧ s'.Shows a' := by
  obtain ⟨hh, hv⟩ := h
  cases c with
  | vListInsertEnd k x =>
    obtain ⟨p, q, hs, hplace⟩ := hh.insertEnd hl k
    exact ⟨_, _, _, rfl, .insertEnd a (hh.not_mem_of_free hl), hs ▸ hplace, hs ▸ hv⟩
  | vListInsert k x =>
    have hk := hh.served_eq_nil hl.2
    obtain ⟨p, q, hs, hplace⟩ := hh.insert hl.1 hk
    refine ⟨_, _, _, congrArg (Option.map _) hs, .insert a (hh.not_mem_of_free hl.1) hk, ?_, hv⟩
    rw [hv] at hplace
    exact hplace
  | uxListRemove x =>
    obtain ⟨k, hk⟩ := Option.ne_none_iff_exists'.1 hl
    obtain ⟨hs, hrem⟩ := hh.remove hk
    have hstep := Shelves.Step.remove a ((hh.container x k).1 hk)
    rw [← hh.count] at hstep
    exact ⟨_, _, _, congrArg (Option.map _) hs, hstep, hrem, hv⟩
  | listSET_LIST_ITEM_VALUE x v =>
    exact ⟨_, _, _, rfl, .setValue a x v, hh.setValue x v, hv ▸ rfl⟩
  | listGET_OWNER_OF_NEXT_ENTRY k =>
    have hne : (a.contents k).items ≠ [] := by
      rw [ne_eq, ← hh.empty_iff, Bool.not_eq_true]
      exact hl
    obtain ⟨x, c, hnext⟩ := Carousel.exists_next hne
    obtain ⟨hs, hset⟩ := hh.next hnext
    exact ⟨_, _, _, congrArg (Option.map _) hs, .next a hnext, hset, hv⟩

/-- Whatever calls are made, the lists are what they stand for: rings, with the items in the order
of their turns or of their values. -/
theorem exists_shelves (hm : AllMeet after Legal (initialised : Lists ι κ) cs) :
    ∃ rs s a, results call initialised cs = some (rs, s) ∧ Runs Shelves.Step .empty cs rs a ∧
      s.Shows a :=
  exists_runs (fun _ _ _ => call_step) ⟨holds_initialised, rfl⟩ hm

/-- Two items have their turns in one list; then they go to another one, ordered by value. -/
def delayRun : List (ListCall Nat Bool) :=
  [.vListInsertEnd false 1, .vListInsertEnd false 2, .listGET_OWNER_OF_NEXT_ENTRY false,
    .uxListRemove 1, .listSET_LIST_ITEM_VALUE 1 9, .vListInsert true 1,
    .listGET_OWNER_OF_NEXT_ENTRY false, .uxListRemove 2, .listSET_LIST_ITEM_VALUE 2 5,
    .vListInsert true 2]

theorem exists_shelves_delayRun : ∃ rs s a, results call initialised delayRun = some (rs, s) ∧
    Runs Shelves.Step .empty delayRun rs a ∧ s.Shows a :=
  exists_shelves (by decide)

/-- A list is only used by value, and no value changes while its item is in the list. -/
def KeepsOrder (k : κ) (s : Lists ι κ) : ListCall ι κ → Prop
  | .vListInsertEnd pxList _ | .listGET_OWNER_OF_NEXT_ENTRY pxList => pxList ≠ k
  | .listSET_LIST_ITEM_VALUE pxItem _ => s.pxContainer pxItem ≠ some k
  | .vListInsert _ _ | .uxListRemove _ => True

instance (k : κ) (s : Lists ι κ) : (c : ListCall ι κ) → Decidable (s.KeepsOrder k c)
  | .vListInsertEnd _ _ => inferInstanceAs (Decidable (_ ≠ _))
  | .vListInsert _ _ => instDecidableTrue
  | .uxListRemove _ => instDecidableTrue
  | .listSET_LIST_ITEM_VALUE _ _ => inferInstanceAs (Decidable (_ ≠ _))
  | .listGET_OWNER_OF_NEXT_ENTRY _ => inferInstanceAs (Decidable (_ ≠ _))

end Lists

def Shelves.Sorted (a : Shelves ι κ) (k : κ) : Prop :=
  ∃ l, a.contents k = ⟨[], l⟩ ∧ l.Pairwise (a.value · ≤ a.value ·)

namespace Lists

variable {ι κ : Type} [DecidableEq ι] [DecidableEq κ] {s s' : Lists ι κ} {a a' : Shelves ι κ}

omit [DecidableEq ι] in
theorem sorted_put (h : a.Sorted k) (hne : k' ≠ k) (c : Carousel ι) : (a.put k' c).Sorted k := by
  obtain ⟨l, hk, hl⟩ := h
  exact ⟨l, (Function.update_of_ne hne.symm ..).trans hk, hl⟩

theorem sorted_step (h : s.Shows a) (hs : a.Sorted k) (hk : s.KeepsOrder k c)
    (hstep : a.Step c r a') : a'.Sorted k := by
  cases hstep with
  | insertEnd => exact sorted_put hs hk _
  | next => exact sorted_put hs hk _
  | @insert x k' l _ _ hk' =>
    by_cases hkk : k' = k
    · subst hkk
      obtain ⟨l', hc, hl⟩ := hs
      obtain rfl : l = l' := congrArg Carousel.waiting (hk'.symm.trans hc)
      exact ⟨_, Function.update_self .., pairwise_insert hl x⟩
    · exact sorted_put hs hkk _
  | @remove k' x =>
    by_cases hkk : k' = k
    · subst hkk
      obtain ⟨l, hc, hl⟩ := hs
      refine ⟨l.erase x, (Function.update_self ..).trans ?_, hl.sublist List.erase_sublist⟩
      rw [hc]
      rfl
    · exact sorted_put hs hkk _
  | setValue _ x v =>
    obtain ⟨l, hc, hl⟩ := hs
    refine ⟨l, hc, hl.imp_of_mem fun hy hz hle => ?_⟩
    have hne (y) (hy : y ∈ l) : y ≠ x := by
      rintro rfl
      refine hk ((h.1.container y k).2 ?_)
      rw [hc]
      exact hy
    change Function.update a.value x v _ ≤ Function.update a.value x v _
    rw [Function.update_of_ne (hne _ hy), Function.update_of_ne (hne _ hz)]
    exact hle

/-- The first item of a list that is only used by value has the least value of all. -/
theorem head_least (hm : AllMeet after (fun s c => s.Legal c ∧ s.KeepsOrder k c) initialised cs)
    (hr : cs.foldlM after initialised = some s) (hx : s.listGET_OWNER_OF_HEAD_ENTRY k = some x)
    (hy : s.pxContainer y = some k) : s.xItemValue x ≤ s.xItemValue y := by
  obtain ⟨a, ⟨hh, hv⟩, l, hc, hl⟩ : ∃ a, s.Shows a ∧ a.Sorted k := by
    refine foldlM_invariant_of_meet (I := fun s => ∃ a, s.Shows a ∧ a.Sorted k) ?_
      ⟨.empty, ⟨holds_initialised, rfl⟩, [], rfl, .nil⟩ hm hr
    rintro s c s' ⟨a, hs, hsorted⟩ hC hc
    obtain ⟨r, s'', a', hcall, hstep, hs'⟩ := call_step hs hC.1
    rw [after, hcall] at hc
    obtain rfl := Option.some.inj hc
    exact ⟨a', hs', sorted_step hs hsorted hC.2 hstep⟩
  rw [hh.head, hc] at hx
  rw [hh.container, hc] at hy
  rw [hv]
  cases l with
  | nil => exact absurd hy List.not_mem_nil
  | cons z l =>
    obtain rfl := Option.some.inj hx
    rcases List.mem_cons.1 hy with rfl | hy
    · exact UInt32.le_refl _
    · exact List.rel_of_pairwise_cons hl hy

theorem delayRun_runs : (delayRun.foldlM after initialised).isSome = true := by decide

def afterDelayRun : Lists Nat Bool := (delayRun.foldlM after initialised).get delayRun_runs

theorem head_least_delayRun : afterDelayRun.xItemValue 2 ≤ afterDelayRun.xItemValue 1 :=
  head_least (k := true) (by decide) (Option.some_get delayRun_runs).symm (by decide) (by decide)

end Lists

end RobotCar

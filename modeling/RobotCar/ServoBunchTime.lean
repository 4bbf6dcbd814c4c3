import RobotCar.ServoBunchRuns

namespace RobotCar
open Concurrent CArith Words
set_option autoImplicit true

/-! ### Durations -/

theorem duration_range (s : Servo) (a : act) :
    -2147483648 ≤ s.duration a ∧ s.duration a < 2147483648 := by
  unfold Servo.duration
  dsimp only
  split
  · exact toInt32_range _
  split
  · exact toInt32_range _
  split
  · exact quotientToInt32_range _ _
  · decide

theorem durations_range (s : Servo) (acts : List act) :
    ∀ d ∈ s.durations acts, -2147483648 ≤ d ∧ d < 2147483648 := by
  induction acts generalizing s with
  | nil => exact List.forall_mem_nil _
  | cons a acts ih => exact List.forall_mem_cons.2 ⟨duration_range s a, ih (s.remember a)⟩

theorem duration_remember (s : Servo) {a b : act} (h : b.id ≠ a.id) :
    (s.remember a).duration b = s.duration b := by
  unfold Servo.remember
  dsimp only
  split
  · rename_i ha
    have hb : b.id ≠ 0xFFF0 := fun hb => h (hb.trans ha.symm)
    unfold Servo.duration
    dsimp only
    rw [if_neg hb, if_neg hb]
  split
  · rename_i ha
    have hb : b.id ≠ 0xFFF1 := fun hb => h (hb.trans ha.symm)
    unfold Servo.duration
    dsimp only
    rw [if_neg hb, if_neg hb]
  split
  · rename_i ha
    have hb (hid : (get_array_seq b.id).toNat < 10) :
        (⟨_, hid⟩ : Fin 10) ≠ ⟨(get_array_seq a.id).toNat, ha⟩ := by
      intro heq
      have hval : b.id.toNat = a.id.toNat := Fin.mk.inj heq
      exact h (UInt32.toNat_inj.1 hval)
    unfold Servo.duration
    dsimp only
    split
    · rfl
    split
    · rfl
    split
    · rename_i hid
      rw [Function.update_of_ne (hb hid)]
    · rfl
  · rfl

theorem durations_of_nodup {acts : List act} (h : (acts.map act.id).Nodup) (s : Servo) :
    s.durations acts = acts.map s.duration := by
  induction acts generalizing s with
  | nil => rfl
  | cons a acts ih =>
    obtain ⟨ha, hacts⟩ := List.nodup_cons.1 h
    rw [Servo.durations, ih hacts, List.map_cons]
    congr 1
    apply List.map_congr_left
    intro b hb
    apply duration_remember
    intro heq
    exact ha (heq ▸ List.mem_map_of_mem hb)

/-! ### The time of the node -/

/-- The node of the bunch is to be waited for as long as each of its members needs. -/
def Covers (New storage : Nat) (acts : List act) (s : Servo) : Prop :=
  ∃ s' node, enqueue_bunch New storage acts (-1) s = some s' ∧ s'.heap New = some node ∧
    ∀ d ∈ s.durations acts, d ≤ node.time.toNat

/-- The last member is a slowest one. A negative duration, which takes a negative speed, is as good
as a long one, since the time of the node is unsigned. -/
def SlowestLast (acts : List act) (s : Servo) : Prop :=
  ∀ d, (s.durations acts).getLast? = some d → 0 ≤ d → ∀ d' ∈ s.durations acts, d' ≤ d

theorem le_toNat_ofInt_iff {d d' : Int} (hd : -2147483648 ≤ d ∧ d < 2147483648)
    (hd' : -2147483648 ≤ d' ∧ d' < 2147483648) :
    d' ≤ (UInt32.ofInt d).toNat ↔ (0 ≤ d → d' ≤ d) := by
  rw [toNat_ofInt]
  omega

theorem covers_iff {r : Servo × ServoHistory Unit} (hr : Orderly r) {acts : List act}
    (hv : ∀ a ∈ acts, Valid a) (hf : Fresh New storage acts r.1) :
    Covers New storage acts r.1 ↔ SlowestLast acts r.1 := by
  obtain ⟨q, hrep, -⟩ := hr
  obtain ⟨cells, hc⟩ := hrep.list
  obtain ⟨s', node, hnew, -, henq, -, hheap, -⟩ := enqueue_bunch_holds hc hf hv (-1)
  obtain ⟨t, speed, hbunch, htime⟩ := New_bunch_eq hv (-1) r.1
  have hnode : node.time =
      ((r.1.durations acts).map UInt32.ofInt).getLastD (UInt32.ofInt (-1)) := by
    rw [hnew] at hbunch
    cases hbunch
    exact htime rfl
  have hcovers : Covers New storage acts r.1 ↔ ∀ d ∈ r.1.durations acts, d ≤ node.time.toNat := by
    constructor
    · rintro ⟨s₁, node₁, henq₁, hheap₁, hd⟩
      rw [henq] at henq₁
      cases henq₁
      rw [hheap] at hheap₁
      cases hheap₁
      exact hd
    · intro hd
      exact ⟨s', node, henq, hheap, hd⟩
  have hrange := durations_range r.1 acts
  rw [hcovers, hnode, List.getLastD_eq_getLast?, List.getLast?_map, SlowestLast]
  cases hlast : (r.1.durations acts).getLast? with
  | none =>
    rw [List.getLast?_eq_none_iff.1 hlast]
    exact iff_of_true (List.forall_mem_nil _) nofun
  | some e =>
    have he := hrange e (List.mem_of_getLast? hlast)
    rw [Option.map_some, Option.getD_some]
    constructor
    · rintro h d hd hnonneg d' hd'
      cases hd
      exact (le_toNat_ofInt_iff he (hrange d' hd')).1 (h d' hd') hnonneg
    · intro h d hd
      exact (le_toNat_ofInt_iff he (hrange d hd)).2 fun hnonneg => h e rfl hnonneg d hd

/-- In every order the last one is a greatest one exactly if all that count are equal. -/
theorem last_in_every_order_iff [DecidableEq α] [LE β] (f : α → β) (P : β → Prop) (l : List α) :
    (∀ l' : List α, l'.Perm l → ∀ d, (l'.map f).getLast? = some d → P d → ∀ d' ∈ l'.map f, d' ≤ d) ↔
      ∀ a ∈ l, P (f a) → ∀ b ∈ l, f b ≤ f a := by
  constructor
  · intro h a ha hP b hb
    have hperm : (l.erase a ++ [a]).Perm l :=
      (List.perm_append_singleton a _).trans (List.perm_cons_erase ha).symm
    apply h _ hperm (f a) _ hP
    · exact List.mem_map_of_mem (hperm.mem_iff.2 hb)
    · rw [List.map_append, List.map_singleton, List.getLast?_concat]
  · intro h l' hl' d hd hP d' hd'
    rw [List.getLast?_map] at hd
    obtain ⟨a, ha, rfl⟩ := Option.map_eq_some_iff.1 hd
    obtain ⟨b, hb, rfl⟩ := List.mem_map.1 hd'
    exact h a (hl'.mem_iff.1 (List.mem_of_getLast? ha)) hP b (hl'.mem_iff.1 hb)

/-- A bunch waits as long as its last member needs. So it waits for all members exactly if the last
one is a slowest one, and in every order exactly if all members need the same time. -/
theorem bunch_waits_iff (s : Servo) (es : List ActionCall) (New storage : Nat) (acts : List act)
    (hv : ∀ a ∈ acts, Valid a) :
    let r := Transition.run ActionCall.step
      ({ s with Current := 0, Last := 0, Servo_Lock := false }, {}) es
    Fresh New storage acts r.1 →
      (Covers New storage acts r.1 ↔ SlowestLast acts r.1) ∧
      ((acts.map act.id).Nodup →
        ((∀ acts' : List act, acts'.Perm acts → Covers New storage acts' r.1) ↔
          ∀ a ∈ acts, 0 ≤ r.1.duration a → ∀ b ∈ acts, r.1.duration b ≤ r.1.duration a)) := by
  intro r hf
  have hr : Orderly r := orderly_run (orderly_empty s) es
  constructor
  · exact covers_iff hr hv hf
  · intro hnodup
    rw [← last_in_every_order_iff r.1.duration (fun d => 0 ≤ d) acts]
    have hcovers (acts' : List act) (hperm : acts'.Perm acts) :
        Covers New storage acts' r.1 ↔ ∀ d, (acts'.map r.1.duration).getLast? = some d → 0 ≤ d →
          ∀ d' ∈ acts'.map r.1.duration, d' ≤ d := by
      have hv' : ∀ a ∈ acts', Valid a := fun a ha => hv a (hperm.mem_iff.1 ha)
      have hf' : Fresh New storage acts' r.1 := by
        refine ⟨hf.1, fun hne => hf.2.1 fun hnil => hne ?_, hf.2.2⟩
        rw [hnil] at hperm
        exact hperm.eq_nil
      have hnodup' : (acts'.map act.id).Nodup := (hperm.map act.id).nodup_iff.2 hnodup
      rw [covers_iff hr hv' hf', SlowestLast, durations_of_nodup hnodup']
    constructor
    · intro h acts' hperm
      exact (hcovers acts' hperm).1 (h acts' hperm)
    · intro h acts' hperm
      exact (hcovers acts' hperm).2 (h acts' hperm)

/-- An axis and then a slower servo. -/
theorem slower_last_waits : Covers 2 2 [⟨0xFFF0, 40⟩, ⟨2, 300⟩] oneRunning.1 := by
  have hd : oneRunning.1.durations [⟨0xFFF0, 40⟩, ⟨2, 300⟩] = [16, 300] := by decide +kernel
  refine (bunch_waits_iff {} [.single (.Servo_Add_Action 1 1 0 ⟨1, 500⟩ (-1))] 2 2
    [⟨0xFFF0, 40⟩, ⟨2, 300⟩] (by decide) ⟨by decide, fun _ => by decide, by decide +kernel⟩).1.2 ?_
  change SlowestLast [⟨0xFFF0, 40⟩, ⟨2, 300⟩] oneRunning.1
  rw [SlowestLast, hd]
  intro d hlast _
  cases hlast
  decide

/-- The same two the other way round. -/
theorem faster_last_cuts : ¬Covers 2 2 [⟨2, 300⟩, ⟨0xFFF0, 40⟩] oneRunning.1 := by
  have hd : oneRunning.1.durations [⟨2, 300⟩, ⟨0xFFF0, 40⟩] = [300, 16] := by decide +kernel
  have hr : Orderly oneRunning := orderly_run (orderly_empty {}) _
  intro h
  have hslowest : SlowestLast [⟨2, 300⟩, ⟨0xFFF0, 40⟩] oneRunning.1 :=
    (covers_iff hr (by decide) ⟨by decide, fun _ => by decide, by decide +kernel⟩).1 h
  rw [SlowestLast, hd] at hslowest
  exact absurd (hslowest 16 rfl (by decide) 300 List.mem_cons_self) (by decide)

end RobotCar

import RobotCar.Routines

namespace RobotCar
open Concurrent CArith
set_option autoImplicit true

/-! ### Indices -/

/-- A table may be used with the index; `none` is a conversion that is not defined. -/
def InTable : Option UInt32 → Prop
  | some i => i.toNat < 10
  | none => False

instance : (i : Option UInt32) → Decidable (InTable i)
  | some i => inferInstanceAs (Decidable (i.toNat < 10))
  | none => instDecidableFalse

/-- The message field names an entry of the tables. -/
def Double.Names : Double → Prop
  | .finite x => -1 < x ∧ x < 10
  | .infinity _ | .nan => False

/-- The indices that a call uses itself, before what it dispatches. -/
def RosCall.accesses : RosCall → List (Option UInt32)
  | .Servo_Add_Action r =>
    if r.id = 0xFFF0 ∨ r.id = 0xFFF1 then [] else [some (get_array_seq r.id)]
  | .change_servo_speed id _ => [id.toUInt32.map get_array_seq]
  | .Is_Servo_Idle | .last_mode_servo _ => []

def StartCall.accesses : StartCall → List (Option UInt32)
  | .update_Servo_state id _ =>
    if id = 0xFFF0 ∨ id = 0xFFF1 then [] else [some (get_array_seq id)]
  | _ => []

/-- The index that `WritePos` uses for an action. -/
def WritePos_access (i : Issue Unit) : Option (Option UInt32) :=
  if i.action.id < 0xFFF0 then some (some (get_array_seq i.action.id.toUInt8.toUInt32)) else none

def Arm.accesses (s : Arm) : ArmEvent → List (Option UInt32)
  | .ros _ _ _ => s.ros.head?.toList.flatMap RosCall.accesses
  | .servo _ _ => s.servo.head?.toList.flatMap StartCall.accesses
  | _ => []

namespace Indexed

def step (r : Arm × List (Option UInt32)) (e : ArmEvent) : Arm × List (Option UInt32) :=
  (r.1.step e, r.2 ++ r.1.accesses e)

def all (r : Arm × List (Option UInt32)) : List (Option UInt32) :=
  r.2 ++ r.1.queue.2.issued.filterMap WritePos_access

/-- A call of `change_servo_speed` is about an entry of the tables. -/
def NamesServo (r : Arm × List (Option UInt32)) : ArmEvent → Prop
  | .ros _ _ _ =>
    match r.1.ros with
    | .change_servo_speed id _ :: _ => id.Names
    | _ => True
  | _ => True

end Indexed

theorem inTable_toUInt32 (d : Double) : InTable (d.toUInt32.map get_array_seq) ↔ d.Names := by
  cases d with
  | infinity negative => exact Iff.rfl
  | nan => exact Iff.rfl
  | finite x =>
    rw [Double.toUInt32, Double.Names]
    by_cases h : -1 < x ∧ x < 4294967296
    · obtain ⟨hlow, hhigh⟩ := h
      have hlt : trunc x < 10 ↔ x < 10 := by
        rw [trunc]
        split
        · exact Int.floor_lt
        · rename_i hneg
          have hx : x < 10 := by linarith
          have hceil : ⌈x⌉ ≤ 0 := Int.ceil_le.2 (by push_cast; linarith)
          exact iff_of_true (by omega) hx
      have hnat : (CArith.toUInt32 x).toNat = (trunc x).toNat := by
        have hbound : trunc x < 4294967296 := by
          rw [trunc]
          split
          · exact Int.floor_lt.2 (by exact_mod_cast hhigh)
          · have hceil : ⌈x⌉ ≤ 0 := Int.ceil_le.2 (by push_cast; linarith)
            omega
        rw [CArith.toUInt32, UInt32.toNat_ofNat']
        omega
      rw [if_pos ⟨hlow, hhigh⟩]
      change (CArith.toUInt32 x).toNat < 10 ↔ _
      rw [hnat, and_iff_right hlow, ← hlt]
      omega
    · rw [if_neg h]
      refine iff_of_false id fun hn => h ⟨hn.1, hn.2.trans (by norm_num)⟩

/-! ### Runs -/

namespace Indexed

theorem WritePos_inTable {i : Issue Unit} (hv : Valid i.action)
    (ha : WritePos_access i = some a) : InTable a := by
  rw [WritePos_access] at ha
  split at ha
  · rename_i hlt
    cases ha
    have hid : i.action.id.toNat < 10 := by
      rcases hv with hid | hid | hid
      · exact hid
      · rw [hid] at hlt
        exact absurd hlt (by decide)
      · rw [hid] at hlt
        exact absurd hlt (by decide)
    change (get_array_seq i.action.id.toUInt8.toUInt32).toNat < 10
    rw [get_array_seq, UInt8.toNat_toUInt32, UInt32.toNat_toUInt8]
    omega
  · cases ha

theorem issued_inTable {s : Arm} (h : s.Sound) :
    ∀ a ∈ s.queue.2.issued.filterMap WritePos_access, InTable a := by
  obtain ⟨q, hq⟩ := h.queue
  intro a ha
  obtain ⟨i, hi, hia⟩ := List.mem_filterMap.1 ha
  rw [hq.represents.history] at hi
  have henq : i.action ∈ q.history.enqueued := by
    rw [← hq.exact.order]
    exact List.mem_append_left _ (List.mem_map_of_mem hi)
  exact WritePos_inTable (hq.valid _ henq) hia

theorem request_inTable {r : Request} (h : r.Sound) :
    ∀ a ∈ (RosCall.Servo_Add_Action r).accesses, InTable a := by
  intro a ha
  rw [RosCall.accesses] at ha
  split at ha
  · exact absurd ha List.not_mem_nil
  · rename_i hid
    rcases h with h | h
    · rw [List.mem_singleton.1 ha]
      exact (servo_id h.1).2.2
    · exact absurd h hid

theorem accesses_inTable {r : Arm × List (Option UInt32)} (h : r.1.Sound) {e : ArmEvent}
    (hC : NamesServo r e) : ∀ a ∈ r.1.accesses e, InTable a := by
  intro a ha
  cases e with
  | ros New storage now =>
    cases hros : r.1.ros with
    | nil =>
      rw [Arm.accesses, hros] at ha
      exact absurd ha List.not_mem_nil
    | cons c cs =>
      rw [Arm.accesses, hros] at ha
      rw [NamesServo, hros] at hC
      obtain ⟨c', hc', hacc⟩ := List.mem_flatMap.1 ha
      obtain rfl := List.mem_singleton.1 hc'
      cases c' with
      | Servo_Add_Action r' =>
        have hsound := h.ros (.Servo_Add_Action r') (hros ▸ List.mem_cons_self)
        exact request_inTable hsound a hacc
      | change_servo_speed id speed =>
        rw [List.mem_singleton.1 hacc]
        exact (inTable_toUInt32 id).2 hC
      | Is_Servo_Idle => exact absurd hacc List.not_mem_nil
      | last_mode_servo value => exact absurd hacc List.not_mem_nil
  | servo now now' =>
    cases hservo : r.1.servo with
    | nil =>
      rw [Arm.accesses, hservo] at ha
      exact absurd ha List.not_mem_nil
    | cons c cs =>
      rw [Arm.accesses, hservo] at ha
      obtain ⟨c', hc', hacc⟩ := List.mem_flatMap.1 ha
      obtain rfl := List.mem_singleton.1 hc'
      have hsound : c'.Sound := h.servo _ (hservo ▸ List.mem_cons_self)
      cases c' with
      | update_Servo_state id value =>
        obtain ⟨h₁, h₂, hlt⟩ := servo_id hsound.1
        rw [StartCall.accesses, if_neg (not_or.2 ⟨h₁, h₂⟩)] at hacc
        rw [List.mem_singleton.1 hacc]
        exact hlt
      | _ => exact absurd hacc List.not_mem_nil
  | _ => exact absurd ha List.not_mem_nil

/-- An index that is not in the tables is used at once. -/
theorem bad_access {r : Arm × List (Option UInt32)} {e : ArmEvent} (hC : ¬NamesServo r e) :
    ∃ a ∈ r.1.accesses e, ¬InTable a := by
  cases e with
  | ros New storage now =>
    cases hros : r.1.ros with
    | nil =>
      rw [NamesServo, hros] at hC
      exact absurd trivial hC
    | cons c cs =>
      rw [NamesServo, hros] at hC
      rw [Arm.accesses, hros]
      cases c with
      | change_servo_speed id speed =>
        refine ⟨_, List.mem_singleton_self _, fun ha => hC ((inTable_toUInt32 id).1 ha)⟩
      | _ => exact absurd trivial hC
  | _ => exact absurd trivial hC

end Indexed

/-- All indices into the tables that a run uses are below 10, and come from conversions that are
defined, exactly when every call of `change_servo_speed` is about an entry of the tables. -/
theorem servo_tables_in_range (es : List ArmEvent) :
    (∀ n, ∀ a ∈ Indexed.all (Transition.run Indexed.step ({}, []) (es.take n)), InTable a) ↔
      Transition.StepsMeet Indexed.step Indexed.NamesServo ({}, []) es := by
  apply Transition.always_iff_stepsMeet
    (I := fun r => r.1.Sound ∧ ∀ a ∈ r.2, InTable a)
    (P := fun r => ∀ a ∈ Indexed.all r, InTable a)
  · intro r e ⟨hs, hr⟩ hC
    refine ⟨hs.step e, ?_⟩
    intro a ha
    rcases List.mem_append.1 ha with ha | ha
    · exact hr a ha
    · exact Indexed.accesses_inTable hs hC a ha
  · intro r ⟨hs, hr⟩ a ha
    rcases List.mem_append.1 ha with ha | ha
    · exact hr a ha
    · exact Indexed.issued_inTable hs a ha
  · intro r e ⟨hs, hr⟩ hC hall
    obtain ⟨a, ha, hn⟩ := Indexed.bad_access hC
    exact hn (hall a (List.mem_append_left _ (List.mem_append_right _ ha)))
  · exact ⟨Arm.sound_start, fun a ha => absurd ha List.not_mem_nil⟩

/-- A message that sets the speed of servo 10 writes behind the table. -/
theorem servo_tables_overrun :
    ¬∀ (es : List ArmEvent) (n : Nat),
      ∀ a ∈ Indexed.all (Transition.run Indexed.step ({}, []) (es.take n)), InTable a := by
  intro h
  have ha := h [.recv (.servo_speed ⟨.finite 10, .finite 1, .finite 0⟩), .ros 1 2 0] 2 (some 10)
    (by decide +kernel)
  revert ha
  decide

end RobotCar

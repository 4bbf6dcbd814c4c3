import RobotCar.Routines
import RobotCar.ServoRule

namespace RobotCar
open Concurrent CArith Rounding Transition
set_option autoImplicit true

/-! ### What a servo is told -/

/-- The goal that a position command sets. The STS protocol has no goal time. -/
structure Goal where
  ID : UInt8
  position : Int
  time : Option Nat
  deriving DecidableEq, Repr

def word (high low : UInt8) : Nat := high.toNat * 256 + low.toNat

/-- Bit 15 is the sign. -/
def signed (n : Nat) : Int := if n < 32768 then n else -(n - 32768)

/-- The reference decoder of the two position commands: the SCS servos send the high byte first,
the STS servos the low byte. -/
def goal (bytes : List UInt8) : Option Goal :=
  (decode bytes).bind fun r =>
    match r.2 with
    | .write MemAddr [p₁, p₂, t₁, t₂, _, _] =>
      if MemAddr = SCSCL_GOAL_POSITION_L then some ⟨r.1, word p₁ p₂, some (word t₁ t₂)⟩ else none
    | .write MemAddr [_, p₁, p₂, _, _, _, _] =>
      if MemAddr = SMSBCL_ACC then some ⟨r.1, signed (word p₂ p₁), none⟩ else none
    | _ => none

theorem word_bytes {n : Nat} (h : n < 65536) :
    word (UInt8.ofNat (n / 256)) (UInt8.ofNat n) = n := by
  rw [word, UInt8.toNat_ofNat', UInt8.toNat_ofNat']
  omega

theorem genWrite_sends (ID MemAddr nLen : UInt8) {nDat : List UInt8}
    (hlen : nLen.toNat ≤ nDat.length) (hfit : 7 + nLen.toNat ≤ 128) (hb : b.wBuf.bytes = []) :
    ∃ a b' frame, (genWrite ID MemAddr nDat nLen).run b = some (a, b') ∧ b'.wBuf.bytes = [] ∧
      b'.sent = b.sent ++ [frame] ∧
      decode frame = some (ID, .write MemAddr (nDat.take nLen.toNat)) := by
  have hfits : Call.Fits (.genWrite ID MemAddr nDat nLen) := ⟨hlen, hfit⟩
  have hbytes := Call.length_bytes_le hfits
  obtain ⟨a, b', hrun, hb', hsent⟩ :=
    (hands_frame (writeBuf_some_emits ID MemAddr INST_WRITE hlen b) (quiet_Ack ID)).sends (by
      rw [hb, List.length_nil, Nat.zero_add]
      exact hbytes)
  rw [hb, List.nil_append] at hsent
  refine ⟨a, b', _, hrun, hb', hsent, ?_⟩
  apply decode_packet (i := .write MemAddr (nDat.take nLen.toNat)) trivial
  change (nDat.take nLen.toNat).length + 1 + 2 < 256
  rw [List.length_take]
  omega

theorem WritePosSCS_sends (ID : UInt8) (Position Time Speed : UInt16) (hb : b.wBuf.bytes = []) :
    ∃ a b' frame, (WritePosSCS ID Position Time Speed).run b = some (a, b') ∧
      b'.wBuf.bytes = [] ∧ b'.sent = b.sent ++ [frame] ∧
      goal frame = some ⟨ID, Position.toNat, some Time.toNat⟩ := by
  let nDat := [(Host2SCS Position.toNat 1).1, (Host2SCS Position.toNat 1).2,
    (Host2SCS Time.toNat 1).1, (Host2SCS Time.toNat 1).2, (Host2SCS Speed.toNat 1).1,
    (Host2SCS Speed.toNat 1).2]
  have hlen : (6 : UInt8).toNat ≤ nDat.length := le_rfl
  obtain ⟨a, b', frame, hrun, hb', hsent, hdecode⟩ :=
    genWrite_sends ID SCSCL_GOAL_POSITION_L 6 hlen (by decide) hb
  refine ⟨a, b', frame, hrun, hb', hsent, ?_⟩
  have hbytes (n : Nat) : Host2SCS n 1 = (UInt8.ofNat (n / 256), UInt8.ofNat n) := by
    rw [Call.host2SCS_nat]
    exact if_neg (by decide)
  rw [goal, hdecode]
  change some (Goal.mk ID (word (Host2SCS Position.toNat 1).1 (Host2SCS Position.toNat 1).2)
    (some (word (Host2SCS Time.toNat 1).1 (Host2SCS Time.toNat 1).2))) = _
  rw [hbytes, hbytes, word_bytes Position.toNat_lt, word_bytes Time.toNat_lt]

theorem WritePosSTS_sends (ID : UInt8) (Position : Int16) (Speed : UInt16) (ACC : UInt8)
    (hb : b.wBuf.bytes = []) :
    ∃ a b' frame, (WritePosSTS ID Position Speed ACC).run b = some (a, b') ∧
      b'.wBuf.bytes = [] ∧ b'.sent = b.sent ++ [frame] ∧
      (0 ≤ Position.toInt → goal frame = some ⟨ID, Position.toInt, none⟩) := by
  let P : Int16 := if Position < 0 then -Position ||| (1 : Int16) <<< 15 else Position
  let nDat := [ACC, (Host2SCS P.toInt 0).1, (Host2SCS P.toInt 0).2, (Host2SCS 0 0).1,
    (Host2SCS 0 0).2, (Host2SCS Speed.toNat 0).1, (Host2SCS Speed.toNat 0).2]
  have hlen : (7 : UInt8).toNat ≤ nDat.length := le_rfl
  obtain ⟨a, b', frame, hrun, hb', hsent, hdecode⟩ :=
    genWrite_sends ID SMSBCL_ACC 7 hlen (by decide) hb
  refine ⟨a, b', frame, hrun, hb', hsent, ?_⟩
  intro hp
  have hP : P = Position := by
    apply if_neg
    rw [Int16.lt_iff_toInt_lt]
    exact not_lt.2 hp
  have hn : Position.toInt = (Position.toInt.toNat : Int) := (Int.toNat_of_nonneg hp).symm
  have hlt : Position.toInt.toNat < 32768 := by
    have hmax := Position.toInt_lt
    omega
  rw [goal, hdecode]
  change some (Goal.mk ID (signed (word (Host2SCS P.toInt 0).2 (Host2SCS P.toInt 0).1)) none) = _
  rw [hP, hn, Call.host2SCS_nat, if_pos rfl, word_bytes (by omega), signed, if_pos hlt]

/-! ### From the queue to the bus -/

def entry (id : UInt32) : Fin 10 := Fin.ofNat 10 id.toNat

/-- The action is one for `WritePos`. -/
def IsServo (action : act) : Bool := action.id < 0xFFF0

def Tells (i : Issue Unit) (frame : List UInt8) : Prop :=
  i.action.id.toNat < 10 → i.action.value.toNat < 32768 →
    goal frame = some ⟨i.action.id.toUInt8, i.action.value.toNat,
      if is_STS (entry i.action.id) then none else some (i.time.toNat % 65536)⟩

/-- The frame is what `WritePos` sends for the action, and says where the servo goes. -/
structure PosWritten (i : Issue Unit) (frame : List UInt8) : Prop where
  sent : ∃ s s' : Servo, s.bus.wBuf.bytes = [] ∧
    (WritePos i.action.id.toUInt8 i.action.value.toUInt16 i.time.toUInt16 0).run s =
      some ((), s') ∧ s'.bus.sent = s.bus.sent ++ [frame]
  tells : Tells i frame

/-- A condition on the transmit buffer, which is empty, and on the tables. -/
structure BetweenFrames (T : Servo → Prop) : Prop where
  wBuf : ∀ s, T s → s.bus.wBuf.bytes = []
  congr : ∀ s s', T s → s'.bus.wBuf.bytes = [] → s'.servo_speed = s.servo_speed →
    s'.servo_lastvalue = s.servo_lastvalue → T s'

theorem betweenFrames_wBuf : BetweenFrames fun s => s.bus.wBuf.bytes = [] :=
  ⟨fun _ h => h, fun _ _ _ h _ _ => h⟩

/-- Nothing waits in the transmit buffer, the speeds are positive and the values small. -/
structure Tidy (s : Servo) : Prop where
  wBuf : s.bus.wBuf.bytes = []
  speeds : ∀ i, i ≠ 0 → 0 < s.servo_speed i
  lastvalues : ∀ i, 0 ≤ s.servo_lastvalue i ∧ s.servo_lastvalue i < 32768

theorem betweenFrames_tidy : BetweenFrames Tidy where
  wBuf _ h := h.wBuf
  congr _ _ h hb hs hl := ⟨hb, hs ▸ h.speeds, hl ▸ h.lastvalues⟩

/-- From one state to the other, each command to a servo sends one frame, in order. -/
def Speaks (T : Servo → Prop) (r r' : Servo × ServoHistory Unit) : Prop :=
  T r.1 → T r'.1 ∧ ∃ issues frames, r'.2.issued = r.2.issued ++ issues ∧
    r'.1.bus.sent = r.1.bus.sent ++ frames ∧
    List.Forall₂ PosWritten (issues.filter fun i => IsServo i.action) frames

namespace Speaks
variable {T : Servo → Prop}

theorem trans (r r' r'' : Servo × ServoHistory Unit) (h : Speaks T r r') (h' : Speaks T r' r'') :
    Speaks T r r'' := by
  intro ht
  obtain ⟨ht', issues, frames, hi, hs, hf⟩ := h ht
  obtain ⟨ht'', issues', frames', hi', hs', hf'⟩ := h' ht'
  refine ⟨ht'', issues ++ issues', frames ++ frames', ?_, ?_, ?_⟩
  · rw [hi', hi, List.append_assoc]
  · rw [hs', hs, List.append_assoc]
  · rw [List.filter_append]
    exact List.rel_append hf hf'

theorem silent {r r' : Servo × ServoHistory Unit} (ht : T r.1 → T r'.1)
    (hi : r'.2.issued = r.2.issued) (hs : r'.1.bus.sent = r.1.bus.sent) : Speaks T r r' :=
  fun h => ⟨ht h, [], [], hi.trans (List.append_nil _).symm, hs.trans (List.append_nil _).symm,
    .nil⟩

theorem issue (hT : BetweenFrames T) {s : Servo} (h : ServoHistory Unit) (i : Issue Unit)
    (steppers : Steppers)
    (hf : List.Forall₂ PosWritten ([i].filter fun i => IsServo i.action) frames)
    (hb : s.bus.wBuf.bytes = [] → bus.wBuf.bytes = [])
    (hs : bus.sent = s.bus.sent ++ frames) :
    Speaks T (s, h) ({ s with steppers := steppers, bus := bus },
      { h with issued := h.issued ++ [i] }) :=
  fun ht => ⟨hT.congr _ _ ht (hb (hT.wBuf s ht)) rfl rfl, [i], frames, rfl, hs, hf⟩

theorem refl (r : Servo × ServoHistory Unit) : Speaks T r r := silent (fun h => h) rfl rfl

end Speaks

theorem run_scs {t : Task BusAccess Bus Int} {s : Servo} (h : ServoHistory Unit)
    (hr : t.run s.bus = some (a, b')) :
    ((do let _ ← t.zoom .scs Servo.busPart : Task ServoAccess Servo Unit).history
      (ServoHistory.watch ())).run (s, h) = some ((), ({ s with bus := b' }, h)) := by
  have hw (l : BusAccess) (s : Servo) (h : ServoHistory Unit) :
      ServoHistory.watch () (.scs l) s h = h := rfl
  rw [Task.history_bind, Task.run_bind, Task.run_history_zoom _ _ _ hw]
  change ((t.run s.bus).map _).bind _ = _
  rw [hr]
  rfl

theorem toNat_toInt16 {n : UInt32} (h : n.toNat < 32768) :
    n.toUInt16.toInt16.toInt = n.toNat := by
  have hn : n.toUInt16.toNat = n.toNat := by
    rw [UInt32.toNat_toUInt16]
    omega
  change n.toUInt16.toBitVec.toInt = _
  rw [← hn]
  apply BitVec.toInt_eq_toNat_of_lt
  change 2 * n.toUInt16.toNat < 2 ^ 16
  omega

theorem WritePos_written {action : act} (htidy : s.bus.wBuf.bytes = []) (time : UInt32)
    (h : ServoHistory Unit)
    (hrun : ((WritePos action.id.toUInt8 action.value.toUInt16 time.toUInt16 0).history
      (ServoHistory.watch ())).run (s, h) = some (a, r')) :
    ∃ bus frame, r' = ({ s with bus := bus }, h) ∧ bus.wBuf.bytes = [] ∧
      bus.sent = s.bus.sent ++ [frame] ∧ PosWritten ⟨action, time, ()⟩ frame := by
  have hplain := Task.run_of_run_history hrun
  rw [WritePos, Task.history_bind, Task.run_bind, Task.history_read, Task.run_access,
    Option.bind_some] at hrun
  dsimp only [id] at hrun
  have hindex (hid : action.id.toNat < 10)
      (hlt : (get_array_seq action.id.toUInt8.toUInt32).toNat < 10) :
      (⟨(get_array_seq action.id.toUInt8.toUInt32).toNat, hlt⟩ : Fin 10) = entry action.id := by
    apply Fin.ext
    change (get_array_seq action.id.toUInt8.toUInt32).toNat = action.id.toNat % 10
    rw [get_array_seq, UInt8.toNat_toUInt32, UInt32.toNat_toUInt8]
    omega
  by_cases hlt : (get_array_seq action.id.toUInt8.toUInt32).toNat < 10
  · rw [dif_pos hlt] at hrun
    split at hrun
    · rename_i hsts
      obtain ⟨a', b', frame, hr, hb', hsent, hgoal⟩ := WritePosSCS_sends action.id.toUInt8
        action.value.toUInt16 time.toUInt16 0 htidy
      change (Task.history _ _).run (s, h) = _ at hrun
      rw [run_scs h hr] at hrun
      cases hrun
      refine ⟨b', frame, rfl, hb', hsent, ⟨s, _, htidy, hplain, hsent⟩, fun hid hvalue => ?_⟩
      rw [hindex hid hlt] at hsts
      rw [hgoal, if_neg hsts, UInt32.toNat_toUInt16, UInt32.toNat_toUInt16]
      dsimp only
      rw [Nat.mod_eq_of_lt (hvalue.trans (by decide))]
    · rename_i hsts
      rw [if_neg (not_not.2 rfl)] at hrun
      obtain ⟨a', b', frame, hr, hb', hsent, hgoal⟩ := WritePosSTS_sends action.id.toUInt8
        action.value.toUInt16.toInt16
        (toUInt32 (toDouble (s.servo_speed ⟨_, hlt⟩ * 1250))).toUInt16 50 htidy
      change (Task.history _ _).run (s, h) = _ at hrun
      rw [run_scs h hr] at hrun
      cases hrun
      refine ⟨b', frame, rfl, hb', hsent, ⟨s, _, htidy, hplain, hsent⟩, fun hid hvalue => ?_⟩
      rw [hindex hid hlt, not_not] at hsts
      have hvalue' := toNat_toInt16 hvalue
      rw [hvalue'] at hgoal
      rw [hgoal (Int.natCast_nonneg _), if_pos hsts]
  · rw [dif_neg hlt] at hrun
    cases hrun

/-- The functions of the queue, with the history of the actions. -/
abbrev SpeaksTask (T : Servo → Prop) (t : Task ServoAccess Servo α) : Prop :=
  (t.history (ServoHistory.watch ())).Leads (Speaks T)

section
variable {T : Servo → Prop}

theorem speaks_bind {t : Task ServoAccess Servo α} {f : α → Task ServoAccess Servo β}
    (ht : SpeaksTask T t) (hf : ∀ a, SpeaksTask T (f a)) : SpeaksTask T (t >>= f) := by
  rw [SpeaksTask, Task.history_bind]
  exact Task.leads_bind Speaks.trans ht hf

theorem speaks_pure (a : α) : SpeaksTask T (pure a) := Task.leads_pure Speaks.refl a

theorem speaks_update {f : Servo → Servo} (hl : ∀ s h, ServoHistory.watch () l s h = h)
    (ht : ∀ s, T s → T (f s)) (hs : ∀ s, (f s).bus.sent = s.bus.sent) :
    SpeaksTask T (Task.update l f) :=
  Task.leads_access _ fun r => .silent (ht r.1) (congrArg _ (hl r.1 r.2)) (hs r.1)

theorem speaks_read (g : Servo → α) : SpeaksTask T (Task.read .queue g) :=
  Task.leads_access _ fun _ => .silent (fun h => h) rfl rfl

theorem speaks_await {act : Servo → Option Servo}
    (hl : ∀ s h, (ServoHistory.watch () l s h).issued = h.issued)
    (ht : ∀ s s', act s = some s' → T s → T s')
    (hs : ∀ s s', act s = some s' → s'.bus.sent = s.bus.sent) :
    SpeaksTask T (Task.await l act) := by
  apply Task.leads_await
  rintro ⟨s, h⟩ r' hr
  obtain ⟨s', ha, rfl⟩ := Option.map_eq_some_iff.1 hr
  exact .silent (ht s s' ha) (hl s h) (hs s s' ha)

theorem speaks_undefined : SpeaksTask T undefinedBehavior :=
  speaks_await (fun _ _ => rfl) (fun _ _ ha => by cases ha) fun _ _ ha => by cases ha

theorem speaks_take (hT : BetweenFrames T) : SpeaksTask T xSemaphoreTake := by
  have heq (s s' : Servo) (ha : (if s.Servo_Lock then none
      else some { s with Servo_Lock := true }) = some s') :
      s' = { s with Servo_Lock := true } := by
    split at ha
    · cases ha
    · exact (Option.some.inj ha).symm
  apply speaks_await fun _ _ => rfl
  · intro s s' ha ht
    rw [heq s s' ha]
    exact hT.congr _ _ ht (hT.wBuf s ht) rfl rfl
  · intro s s' ha
    rw [heq s s' ha]

theorem speaks_give (hT : BetweenFrames T) : SpeaksTask T xSemaphoreGive :=
  speaks_update (fun _ _ => rfl) (fun s ht => hT.congr _ _ ht (hT.wBuf s ht) rfl rfl) fun _ => rfl

theorem speaks_command (hT : BetweenFrames T) (time : UInt32) (speed : Int) (action : act) :
    SpeaksTask T (command time speed action) := by
  rintro ⟨s, h⟩ a r' hrun
  rw [command, Task.history_bind, Task.run_bind, Task.history_update, Task.run_update,
    Option.bind_some] at hrun
  dsimp only [id, ServoHistory.watch] at hrun
  by_cases hid : action.id < 0xFFF0
  · rw [if_pos hid] at hrun
    intro ht
    obtain ⟨bus, frame, rfl, hb, hsent, hwritten⟩ :=
      WritePos_written (hT.wBuf s ht) time _ hrun
    have hf : ([⟨action, time, ()⟩] : List (Issue Unit)).filter (fun i => IsServo i.action) =
        [⟨action, time, ()⟩] := List.filter_cons_of_pos (decide_eq_true hid)
    have htold : List.Forall₂ PosWritten (([⟨action, time, ()⟩] : List (Issue Unit)).filter
        fun i => IsServo i.action) [frame] := by
      rw [hf]
      exact .cons hwritten .nil
    exact Speaks.issue hT h _ s.steppers htold (fun _ => hb) hsent ht
  · have hf : ([⟨action, time, ()⟩] : List (Issue Unit)).filter (fun i => IsServo i.action) =
        [] := List.filter_cons_of_neg fun h => hid (of_decide_eq_true h)
    have htold : List.Forall₂ PosWritten (([⟨action, time, ()⟩] : List (Issue Unit)).filter
        fun i => IsServo i.action) [] := by
      rw [hf]
      exact .nil
    have haxis (steppers : Steppers) : Speaks T (s, h)
        ({ s with steppers := steppers }, { h with issued := h.issued ++ [⟨action, time, ()⟩] }) :=
      Speaks.issue hT h _ steppers htold (fun hb => hb) (List.append_nil _).symm
    rw [if_neg hid] at hrun
    split at hrun
    · have hr := (axis_run Steppers.part1 speed action.value.toInt32.toInt () s _).symm.trans hrun
      cases hr
      exact haxis _
    split at hrun
    · have hr := (axis_run Steppers.part2 speed action.value.toInt32.toInt () s _).symm.trans hrun
      cases hr
      exact haxis _
    · cases hrun
      exact haxis s.steppers

theorem speaks_queue (hT : BetweenFrames T) : QueueRule fun _ t => SpeaksTask T t := by
  constructor
  · exact ⟨speaks_pure, speaks_bind, speaks_read, speaks_undefined⟩
  · intro f hf
    apply speaks_update fun _ _ => rfl
    · intro s ht
      exact hT.congr _ _ ht ((hf s).bus ▸ hT.wBuf s ht) (hf s).servo_speed (hf s).servo_lastvalue
    · exact fun s => congrArg Bus.sent (hf s).bus
  · exact speaks_command hT

theorem speaks_Servo_Server (hT : BetweenFrames T) (now now' : UInt32) :
    SpeaksTask T (Servo_Server now now') := by
  apply speaks_bind (speaks_take hT)
  intro _
  exact speaks_bind ((speaks_queue hT).Servo_Server_body now now') fun _ => speaks_give hT

theorem speaks_Servo_Add_Action (hT : BetweenFrames T) (New storage : Nat) (now : UInt32)
    (action : act) (time : Int)
    (hkeep : ∀ s s', enqueue New storage action.id action.value time s = some s' → T s → T s') :
    SpeaksTask T (Servo_Add_Action New storage now action.id action.value time) := by
  apply speaks_bind (speaks_take hT)
  intro _
  apply speaks_bind _ fun _ => speaks_give hT
  apply (speaks_queue hT).Servo_Add_Action_body New storage now action
  apply speaks_await (fun _ _ => rfl) hkeep
  intro s s' ha
  rw [enqueue_frame ha]

end

/-! ### The new node -/

theorem entry_eq {id : UInt32} (h : (get_array_seq id).toNat < 10) :
    (⟨(get_array_seq id).toNat, h⟩ : Fin 10) = entry id :=
  Fin.ext (Nat.mod_eq_of_lt h).symm

theorem New_action_servo {id : UInt32} (hid : id ∈ [1, 2, 3, 4, 5]) (value : UInt32) (time : Int)
    (s : Servo) :
    New_action id value time s =
      some (⟨0, [⟨id, value⟩], UInt32.ofInt (if time = -1 then
          servo_time value.toInt32.toInt (s.servo_lastvalue (entry id))
            (s.servo_speed (entry id)) + 1
        else time), -1⟩,
        { s with servo_lastvalue :=
          Function.update s.servo_lastvalue (entry id) value.toInt32.toInt }) := by
  obtain ⟨h₁, h₂, hlt⟩ := servo_id hid
  rw [New_action, if_neg h₁, if_neg h₂, dif_pos hlt, entry_eq hlt]

theorem New_action_axis {id : UInt32} (hid : id = 0xFFF0 ∨ id = 0xFFF1)
    (h : New_action id value time s = some (node, s₁)) :
    s₁.servo_lastvalue = s.servo_lastvalue := by
  rcases hid with rfl | rfl
  · cases h
    rfl
  · cases h
    rfl

theorem toNat_toInt32 {n : UInt32} (h : n.toNat < 32768) : n.toInt32.toInt = n.toNat := by
  change n.toBitVec.toInt = _
  apply BitVec.toInt_eq_toNat_of_lt
  change 2 * n.toNat < 2 ^ 32
  omega

theorem New_action_lastvalue {r : Request} (hr : r.Sound) {s s₁ : Servo}
    (h : New_action r.id r.value r.time s = some (node, s₁))
    (hs : ∀ i, 0 ≤ s.servo_lastvalue i ∧ s.servo_lastvalue i < 32768) (i : Fin 10) :
    0 ≤ s₁.servo_lastvalue i ∧ s₁.servo_lastvalue i < 32768 := by
  rcases hr with ⟨hid, hvalue, -⟩ | hid
  · rw [New_action_servo hid] at h
    cases h
    dsimp only
    by_cases he : i = entry r.id
    · rw [he, Function.update_self, toNat_toInt32 hvalue]
      omega
    · rw [Function.update_of_ne he]
      exact hs i
  · rw [New_action_axis hid h]
    exact hs i

theorem enqueue_tidy {r : Request} (hr : r.Sound)
    (h : enqueue New storage r.id r.value r.time s = some s') (ht : Tidy s) : Tidy s' := by
  rw [enqueue] at h
  split at h
  · cases h
  · obtain ⟨⟨node, s₁⟩, hnew, hlink⟩ := Option.bind_eq_some_iff.1 h
    let action : act := ⟨r.id, r.value⟩
    have hframe := @New_action_frame r.time s node s₁ action hnew
    have hlast := New_action_lastvalue hr hnew
    rw [link_frame hlink, hframe]
    exact ⟨ht.wBuf, ht.speeds, hlast ht.lastvalues⟩

/-- The speed that a call sets, if it sets one, is positive. -/
def RosCall.Positive : RosCall → Prop
  | .change_servo_speed _ speed => 0 < speed.toRat
  | _ => True

instance (c : RosCall) : Decidable c.Positive := by
  cases c <;> unfold RosCall.Positive <;> infer_instance

theorem speaks_RosCall {c : RosCall} (hc : c.Sound) (hs : c.Positive) (New storage : Nat)
    (now : UInt32) : SpeaksTask Tidy (c.task New storage now) := by
  have htake : SpeaksTask Tidy xSemaphoreTake := speaks_take betweenFrames_tidy
  have hgive : SpeaksTask Tidy xSemaphoreGive := speaks_give betweenFrames_tidy
  cases c with
  | Servo_Add_Action r =>
    exact speaks_Servo_Add_Action betweenFrames_tidy New storage now ⟨r.id, r.value⟩ r.time
      fun s s' => enqueue_tidy hc
  | Is_Servo_Idle =>
    apply speaks_bind
    · apply speaks_bind htake
      intro _
      apply speaks_bind (speaks_read _)
      intro Current
      exact speaks_bind hgive fun _ => speaks_pure _
    · exact fun _ => speaks_pure ()
  | last_mode_servo value => exact speaks_pure ()
  | change_servo_speed id speed =>
    rw [RosCall.task]
    cases id.toUInt32 with
    | none => exact speaks_undefined
    | some id =>
      apply speaks_bind htake
      intro _
      apply speaks_bind
      · have heq (s s' : Servo) (ha : (if h : (get_array_seq id).toNat < 10 then
            some { s with servo_speed := Function.update s.servo_speed ⟨_, h⟩ speed.toRat }
          else none) = some s') :
            ∃ i, s' = { s with servo_speed := Function.update s.servo_speed i speed.toRat } := by
          split at ha
          · exact ⟨_, (Option.some.inj ha).symm⟩
          · cases ha
        apply speaks_await fun _ _ => rfl
        · intro s s' ha ht
          obtain ⟨i, rfl⟩ := heq s s' ha
          refine ⟨ht.wBuf, fun j hj => ?_, ht.lastvalues⟩
          dsimp only
          by_cases he : j = i
          · rw [he, Function.update_self]
            exact hs
          · rw [Function.update_of_ne he]
            exact ht.speeds j hj
        · intro s s' ha
          obtain ⟨i, rfl⟩ := heq s s' ha
          rfl
      · exact fun _ => hgive

theorem start_tidy {c : StartCall} (hc : c.Sound) {r r' : Servo × ServoHistory Unit}
    (hlock : r.1.Servo_Lock = false) (hrun : runCall c.task r = some r') (ht : Tidy r.1) :
    Tidy r'.1 ∧ r'.2 = r.2 := by
  obtain ⟨s, h⟩ := r
  have haxis {t : Task AxisAccess Steppers Unit} (hn : t.NeverWaits)
      (hrun : runCall (t.zoom .axis Servo.steppersPart) (s, h) = some r') :
      Tidy r'.1 ∧ r'.2 = h := by
    have hw (l : AxisAccess) (s : Servo) (h : ServoHistory Unit) :
        ServoHistory.watch () (.axis l) s h = h := rfl
    obtain ⟨a, b, hr⟩ := Task.run_history_zoom_of_neverWaits hn ServoAccess.axis
      Servo.steppersPart hw s h
    rw [runCall_eq hr] at hrun
    cases hrun
    exact ⟨⟨ht.wBuf, ht.speeds, ht.lastvalues⟩, rfl⟩
  have hbus {t : Task BusAccess Bus Int} {a : Int} {b' : Bus} (hs : t.run s.bus = some (a, b'))
      (hb : b'.wBuf.bytes = [])
      (hrun : runCall (do let _ ← t.zoom .scs Servo.busPart) (s, h) = some r') :
      Tidy r'.1 ∧ r'.2 = h := by
    rw [runCall_eq (run_scs h hs)] at hrun
    cases hrun
    exact ⟨⟨hb, ht.speeds, ht.lastvalues⟩, rfl⟩
  cases c with
  | set_stepper_1 steps => exact haxis ((neverWaits_set_stepper steps).zoom id _) hrun
  | set_stepper_2 steps => exact haxis ((neverWaits_set_stepper steps).zoom id _) hrun
  | WritePosSCS ID Position Time Speed =>
    obtain ⟨a, b', frame, hr, hb, -⟩ := WritePosSCS_sends ID Position Time Speed ht.wBuf
    exact hbus hr hb hrun
  | WritePosSTS ID Position Speed ACC =>
    obtain ⟨a, b', frame, hr, hb, -⟩ := WritePosSTS_sends ID Position Speed ACC ht.wBuf
    exact hbus hr hb hrun
  | update_Servo_state id value =>
    obtain ⟨hid, hlow, hhigh⟩ := hc
    obtain ⟨h₁, h₂, hlt⟩ := servo_id hid
    rw [StartCall.task, update_Servo_state, runCall_locked hlock, if_neg h₁, if_neg h₂,
      dif_pos hlt] at hrun
    cases hrun
    refine ⟨⟨ht.wBuf, ht.speeds, fun i => ?_⟩, rfl⟩
    dsimp only
    by_cases he : i = ⟨_, hlt⟩
    · rw [he, Function.update_self]
      exact ⟨hlow, hhigh⟩
    · rw [Function.update_of_ne he]
      exact ht.lastvalues i

/-! ### The history of a run -/

/-- A servo action, with what the tables say when it is enqueued. -/
structure Birth where
  action : act
  lastvalue : Int
  speed : ℚ
  deriving DecidableEq, Repr

/-- The servo actions that were enqueued, and the frames that were sent for commands. -/
structure TellHistory where
  births : List Birth := []
  frames : List (List UInt8) := []

namespace Told

def birth (s : Servo) (r : Request) : Birth :=
  ⟨⟨r.id, r.value⟩, s.servo_lastvalue (entry r.id), s.servo_speed (entry r.id)⟩

/-- What the next call of the ROS task enqueues for a servo. -/
def born (s : Arm) (New storage : Nat) (now : UInt32) : List Birth :=
  match s.ros with
  | .Servo_Add_Action r :: _ =>
    if IsServo ⟨r.id, r.value⟩ ∧
        (runCall (Servo_Add_Action New storage now r.id r.value r.time) s.queue).isSome then
      [birth s.queue.1 r]
    else []
  | _ => []

def sent (s s' : Arm) : List (List UInt8) := s'.queue.1.bus.sent.drop s.queue.1.bus.sent.length

/-- What the servo task sends at its start is no command. -/
def watch (s : Arm) (e : ArmEvent) (h : TellHistory) : TellHistory :=
  match e with
  | .ros New storage now =>
    ⟨h.births ++ born s New storage now, h.frames ++ sent s (s.step e)⟩
  | .servo _ _ =>
    match s.servo with
    | [] => { h with frames := h.frames ++ sent s (s.step e) }
    | _ :: _ => h
  | .KEY2 => {}
  | _ => h

def step (r : Arm × TellHistory) (e : ArmEvent) : Arm × TellHistory :=
  (r.1.step e, watch r.1 e r.2)

/-- A call of `change_servo_speed` sets a positive speed. -/
def SetsPositive (r : Arm × TellHistory) : ArmEvent → Prop
  | .ros _ _ _ => ∀ c ∈ r.1.ros.head?, c.Positive
  | _ => True

instance (r : Arm × TellHistory) : (e : ArmEvent) → Decidable (SetsPositive r e)
  | .ros _ _ _ => inferInstanceAs (Decidable (∀ c ∈ r.1.ros.head?, c.Positive))
  | .recv _ | .KEY1 | .KEY2 | .servo _ _ | .hardware _ _ => instDecidableTrue

end Told

/-- The time that is waited for a servo action. -/
def Birth.wait (b : Birth) : UInt32 :=
  UInt32.ofInt (servo_time b.action.value.toInt32.toInt b.lastvalue b.speed + 1)

structure Birth.Sound (b : Birth) : Prop where
  id : b.action.id ∈ [1, 2, 3, 4, 5]
  value : b.action.value.toNat < 32768
  lastvalue : 0 ≤ b.lastvalue ∧ b.lastvalue < 32768
  speed : 0 < b.speed

/-- The actions of the queue with their times, from the first that was dispatched to the last
that waits. -/
def Fifo.timed (q : Fifo τ) : List (act × UInt32) :=
  (q.history.issued.map fun i => (i.action, i.time)) ++ q.waiting.map fun w => (w.1, w.2.time)

theorem Fifo.timed_add {q : Fifo τ} (h : q.Exact) (tag : τ) (now : UInt32) (action : act)
    (pace : Pace) : (q.add tag now action pace).timed = q.timed ++ [(action, pace.time)] := by
  cases hq : q.head with
  | none =>
    rw [Fifo.add_of_idle hq, Fifo.timed, Fifo.timed, h.idle hq]
    dsimp only
    rw [List.map_append, List.map_nil, List.append_nil, List.append_nil]
    rfl
  | some head =>
    rw [Fifo.add_of_busy hq, Fifo.timed, Fifo.timed]
    dsimp only
    rw [List.map_append, List.append_assoc]
    rfl

theorem Fifo.timed_serve (q : Fifo τ) (tag : τ) (now now' : UInt32) :
    (q.serve tag now now').timed = q.timed := by
  cases hq : q.head with
  | none => rw [Fifo.serve_of_idle hq]
  | some pace =>
    by_cases hdue : now - q.time_start ≥ pace.time
    · cases hw : q.waiting with
      | nil =>
        rw [Fifo.serve_last hq hdue hw]
        rfl
      | cons w waiting =>
        rw [Fifo.serve_next hq hdue hw, Fifo.timed, Fifo.timed, hw]
        dsimp only
        rw [List.map_append, List.append_assoc]
        rfl
    · rw [Fifo.serve_of_not_due hq hdue]

/-- What the history says about the state. -/
structure Wired (r : Arm × TellHistory) (q : Fifo Unit) : Prop where
  queued : Queued r.1.queue q
  ros : ∀ c ∈ r.1.ros, c.Sound
  servo : ∀ c ∈ r.1.servo, c.Sound
  tidy : Tidy r.1.queue.1
  order : r.2.births.map (fun b => (b.action, b.wait)) = q.timed.filter fun a => IsServo a.1
  births : ∀ b ∈ r.2.births, b.Sound
  frames : List.Forall₂ Tells (r.1.queue.2.issued.filter fun i => IsServo i.action) r.2.frames

theorem wired_start : Wired ({}, {}) {} := by
  have htidy : Tidy ({} : Servo) := by
    refine ⟨rfl, fun i hi => ?_, fun _ => ⟨le_rfl, ?_⟩⟩
    · change 0 < if i = 0 then (0 : ℚ) else 1
      rw [if_neg hi]
      exact one_pos
    · exact (by decide : (0 : Int) < 32768)
  exact ⟨queued_start, fun _ hc => absurd hc List.not_mem_nil, startup_sound, htidy, rfl,
    fun _ hb => absurd hb List.not_mem_nil, .nil⟩

theorem Wired.callback {r : Arm × TellHistory} (h : Wired r q) (hcalls : ∀ c ∈ calls, c.Sound)
    (started : Bool) : Wired ({ r.1 with ros := calls, started := started }, r.2) q :=
  ⟨h.queued, hcalls, h.servo, h.tidy, h.order, h.births, h.frames⟩

namespace Told

/-- The frames of a call belong to the commands that it issues. -/
theorem frames_speak {s s' : Arm} (h : Speaks Tidy s.queue s'.queue) (ht : Tidy s.queue.1)
    (hf : List.Forall₂ Tells (s.queue.2.issued.filter fun i => IsServo i.action) frames) :
    Tidy s'.queue.1 ∧ List.Forall₂ Tells (s'.queue.2.issued.filter fun i => IsServo i.action)
      (frames ++ sent s s') := by
  obtain ⟨ht', issues, frames', hi, hs, hf'⟩ := h ht
  have hsent : sent s s' = frames' := by
    rw [sent, hs, List.drop_left]
  refine ⟨ht', ?_⟩
  rw [hsent, hi, List.filter_append]
  exact List.rel_append hf (hf'.imp fun _ _ h => h.tells)

theorem runCall_speaks {t : Task ServoAccess Servo Unit} (ht : SpeaksTask Tidy t)
    (hrun : runCall t r = some r') : Speaks Tidy r r' := by
  obtain ⟨⟨a, r''⟩, hr, rfl⟩ := Option.map_eq_some_iff.1 hrun
  exact ht r a r'' hr

theorem birth_sound {s : Servo} (ht : Tidy s) {r : Request} (hid : r.id ∈ [1, 2, 3, 4, 5])
    (hvalue : r.value.toNat < 32768) : (birth s r).Sound := by
  obtain ⟨hpos, hlt⟩ := servo_toNat hid
  have hne : entry r.id ≠ 0 := by
    intro he
    have hmod : r.id.toNat % 10 = 0 := congrArg Fin.val he
    omega
  exact ⟨hid, hvalue, ht.lastvalues _, ht.speeds _ hne⟩

/-- A new servo action is born with the time that its node gets. -/
theorem birth_wait {r : Request} (hid : r.id ∈ [1, 2, 3, 4, 5]) (htime : r.time = -1) {s : Servo}
    (hnew : New_action r.id r.value r.time { s with Servo_Lock := true } = some (node, s₂)) :
    (birth s r).wait = node.pace.time := by
  rw [New_action_servo hid, if_pos htime] at hnew
  cases hnew
  rfl

theorem born_Servo_Add_Action {s : Arm} (ht : Tidy s.queue.1) {r : Request} (hr : r.Sound)
    (hros : s.ros = .Servo_Add_Action r :: cs)
    (hrun : runCall (Servo_Add_Action New storage now r.id r.value r.time) s.queue = some queue)
    (hnew : New_action r.id r.value r.time { s.queue.1 with Servo_Lock := true } =
      some (node, s₂)) :
    (born s New storage now).map (fun b => (b.action, b.wait)) =
        [((⟨r.id, r.value⟩ : act), node.pace.time)].filter (fun a => IsServo a.1) ∧
      ∀ b ∈ born s New storage now, b.Sound := by
  rw [born, hros]
  dsimp only
  rcases hr with ⟨hid, hvalue, htime⟩ | hid
  · have hservo : IsServo ⟨r.id, r.value⟩ := by
      have hlt : r.id.toNat < 0xFFF0 := (servo_toNat hid).2.trans (by decide)
      exact decide_eq_true (UInt32.lt_iff_toNat_lt.2 hlt)
    have hfilter : [((⟨r.id, r.value⟩ : act), node.pace.time)].filter (fun a => IsServo a.1) =
        [(⟨r.id, r.value⟩, node.pace.time)] := List.filter_cons_of_pos hservo
    rw [if_pos ⟨hservo, by rw [hrun]; rfl⟩, hfilter, ← birth_wait hid htime hnew]
    refine ⟨rfl, fun b hb => ?_⟩
    rw [List.mem_singleton.1 hb]
    exact birth_sound ht hid hvalue
  · have hn : ¬IsServo ⟨r.id, r.value⟩ := by
      rcases hid with hid | hid <;> simp [IsServo, hid]
    have hfilter : [((⟨r.id, r.value⟩ : act), node.pace.time)].filter (fun a => IsServo a.1) =
        [] := List.filter_cons_of_neg hn
    rw [if_neg fun h => hn h.1, hfilter]
    exact ⟨rfl, fun b hb => absurd hb List.not_mem_nil⟩

theorem born_other {s : Arm} (hros : s.ros = c :: cs) (hc : ∀ a, c ≠ .Servo_Add_Action a)
    (New storage : Nat) (now : UInt32) : born s New storage now = [] := by
  rw [born, hros]
  split
  · rename_i a _ he
    exact absurd (List.cons.inj he).1 (hc a)
  · rfl

theorem step_ros_eq {s : Arm} (hros : s.ros = c :: cs)
    (hrun : runCall (c.task New storage now) s.queue = some queue) :
    (s.step (.ros New storage now)).queue = queue ∧ (s.step (.ros New storage now)).ros = cs ∧
      (s.step (.ros New storage now)).servo = s.servo := by
  rw [Arm.step, Arm.step_ros, hros]
  dsimp only
  rw [hrun]
  exact ⟨rfl, rfl, rfl⟩

theorem wired_call {r : Arm × TellHistory} {q q' : Fifo Unit} (h : Wired r q)
    (hros : r.1.ros = c :: cs) (hs : c.Positive)
    (hrun : runCall (c.task New storage now) r.1.queue = some queue) (hq : Queued queue q')
    (hborn : q'.timed.filter (fun a => IsServo a.1) = q.timed.filter (fun a => IsServo a.1) ++
      (born r.1 New storage now).map fun b => (b.action, b.wait))
    (hsound : ∀ b ∈ born r.1 New storage now, b.Sound) :
    Wired (step r (.ros New storage now)) q' := by
  have hc : c.Sound := h.ros c (hros ▸ List.mem_cons_self)
  obtain ⟨hqueue, hros', hservo⟩ := step_ros_eq hros hrun
  have hspeaks : Speaks Tidy r.1.queue (r.1.step (.ros New storage now)).queue := by
    rw [hqueue]
    exact runCall_speaks (speaks_RosCall hc hs New storage now) hrun
  obtain ⟨htidy, hframes⟩ := frames_speak hspeaks h.tidy h.frames
  refine ⟨?_, ?_, ?_, htidy, ?_, ?_, hframes⟩
  · change Queued (r.1.step _).queue _
    rw [hqueue]
    exact hq
  · change ∀ c ∈ (r.1.step _).ros, c.Sound
    rw [hros']
    exact fun c hc => h.ros c (hros ▸ List.mem_cons_of_mem _ hc)
  · change ∀ c ∈ (r.1.step _).servo, c.Sound
    rw [hservo]
    exact h.servo
  · change (r.2.births ++ born r.1 New storage now).map _ = _
    rw [List.map_append, h.order, hborn]
  · intro b hb
    rcases List.mem_append.1 hb with hb | hb
    · exact h.births b hb
    · exact hsound b hb

theorem wired_ros {r : Arm × TellHistory} {q : Fifo Unit} (h : Wired r q)
    (hs : ∀ c ∈ r.1.ros.head?, c.Positive) (New storage : Nat) (now : UInt32) :
    ∃ q', Wired (step r (.ros New storage now)) q' := by
  have hstuck (hstep : r.1.step (.ros New storage now) = r.1)
      (hborn : born r.1 New storage now = []) : Wired (step r (.ros New storage now)) q := by
    have heq : step r (.ros New storage now) = r := by
      change (r.1.step _, TellHistory.mk (r.2.births ++ _) (r.2.frames ++ sent r.1 _)) = r
      have hsent : sent r.1 r.1 = [] := List.drop_length
      rw [hstep, hborn, hsent, List.append_nil, List.append_nil]
    rw [heq]
    exact h
  cases hros : r.1.ros with
  | nil =>
    refine ⟨q, hstuck ?_ ?_⟩
    · rw [Arm.step, Arm.step_ros, hros]
    · rw [born, hros]
  | cons c cs =>
    have hpos : c.Positive := hs c (hros ▸ rfl)
    cases hrun : runCall (c.task New storage now) r.1.queue with
    | none =>
      refine ⟨q, hstuck ?_ ?_⟩
      · rw [Arm.step, Arm.step_ros, hros]
        dsimp only
        rw [hrun]
      · rw [born, hros]
        split
        · rename_i a _ he
          obtain rfl := (List.cons.inj he).1
          change runCall (Servo_Add_Action New storage now a.id a.value a.time) _ = _ at hrun
          rw [hrun]
          exact if_neg fun h => Bool.false_ne_true h.2
        · rfl
    | some queue =>
      by_cases hc : ∃ a, c = .Servo_Add_Action a
      · obtain ⟨a, rfl⟩ := hc
        obtain ⟨s₂, node, hnew, hqueued⟩ := h.queued.step_Servo_Add_Action a hrun
        have hsound : a.Sound := h.ros (.Servo_Add_Action a) (hros ▸ List.mem_cons_self)
        obtain ⟨hborn, hbirths⟩ := born_Servo_Add_Action h.tidy hsound hros hrun hnew
        refine ⟨_, wired_call h hros hpos hrun hqueued ?_ hbirths⟩
        rw [Fifo.timed_add h.queued.exact, List.filter_append, hborn]
      · have hother : ∀ a, c ≠ .Servo_Add_Action a := fun a he => hc ⟨a, he⟩
        have hborn := born_other hros hother New storage now
        refine ⟨_, wired_call h hros hpos hrun (h.queued.step_other hother hrun) ?_ ?_⟩
        · rw [hborn, List.map_nil, List.append_nil]
          rfl
        · rw [hborn]
          exact fun b hb => absurd hb List.not_mem_nil

theorem wired_servo {r : Arm × TellHistory} {q : Fifo Unit} (h : Wired r q)
    (now now' : UInt32) : ∃ q', Wired (step r (.servo now now')) q' := by
  cases hservo : r.1.servo with
  | nil =>
    obtain ⟨queue, hrun, hq⟩ := h.queued.step_Servo_Server now now'
    have hstep : r.1.step (.servo now now') = { r.1 with queue := queue } := by
      rw [Arm.step, Arm.step_servo, hservo]
      dsimp only
      rw [hrun, hservo]
      rfl
    have hhistory : (step r (.servo now now')).2 =
        { r.2 with frames := r.2.frames ++ sent r.1 (r.1.step (.servo now now')) } := by
      rw [step, watch, hservo]
    have hspeaks : Speaks Tidy r.1.queue (r.1.step (.servo now now')).queue := by
      rw [hstep]
      exact runCall_speaks (speaks_Servo_Server betweenFrames_tidy now now') hrun
    obtain ⟨htidy, hframes⟩ := frames_speak hspeaks h.tidy h.frames
    refine ⟨q.serve () now now', ?_, ?_, ?_, htidy, ?_, ?_, ?_⟩
    · change Queued (r.1.step _).queue _
      rw [hstep]
      exact hq
    · change ∀ c ∈ (r.1.step _).ros, c.Sound
      rw [hstep]
      exact h.ros
    · change ∀ c ∈ (r.1.step _).servo, c.Sound
      rw [hstep]
      exact h.servo
    · rw [hhistory, Fifo.timed_serve]
      exact h.order
    · rw [hhistory]
      exact h.births
    · rw [hhistory]
      exact hframes
  | cons c cs =>
    have hc : c.Sound := h.servo c (hservo ▸ List.mem_cons_self)
    obtain ⟨queue, hrun, hq⟩ := h.queued.step_start hc
    have hstep : step r (.servo now now') = ({ r.1 with queue := queue, servo := cs }, r.2) := by
      rw [step, watch, Arm.step, Arm.step_servo, hservo]
      dsimp only
      rw [hrun]
    obtain ⟨htidy, hissued⟩ := start_tidy hc h.queued.represents.unlocked hrun h.tidy
    refine ⟨{ q with steppers := queue.1.steppers }, ?_⟩
    rw [hstep]
    refine ⟨hq, h.ros, fun c hc => ?_, htidy, h.order, h.births, ?_⟩
    · exact h.servo c (hservo ▸ List.mem_cons_of_mem _ hc)
    · dsimp only
      rw [hissued]
      exact h.frames

theorem wired_step (r : Arm × TellHistory) (e : ArmEvent) (h : ∃ q, Wired r q)
    (hs : SetsPositive r e) : ∃ q, Wired (step r e) q := by
  obtain ⟨q, h⟩ := h
  cases e with
  | recv m =>
    refine ⟨q, ?_⟩
    rw [step, Arm.step]
    split
    · exact h.callback (callback_arm_sound m) r.1.started
    · exact h
  | KEY1 =>
    refine ⟨q, ?_⟩
    rw [step, Arm.step]
    split
    · exact h.callback (Routine.Sound.calls (by decide : Servo_InitPos.Sound)) true
    · exact h
  | KEY2 => exact ⟨{}, wired_start⟩
  | ros New storage now => exact wired_ros h hs New storage now
  | servo now now' => exact wired_servo h now now'
  | hardware steppers rx =>
    refine ⟨{ q with steppers := steppers }, ?_, h.ros, h.servo, ?_, h.order, h.births, h.frames⟩
    · exact h.queued.congr rfl rfl rfl rfl h.queued.represents.unlocked
    · exact ⟨h.tidy.wBuf, h.tidy.speeds, h.tidy.lastvalues⟩

theorem wired_run {es : List ArmEvent} (hs : StepsMeet step SetsPositive ({}, {}) es) :
    ∃ q, Wired (run step ({}, {}) es) q :=
  run_invariant_of_meet wired_step ⟨{}, wired_start⟩ hs

end Told

/-! ### The wait and the goal time -/

theorem servo_time_eq {value lastvalue : Int}
    (hwrap : wrap32 (value - lastvalue) = value - lastvalue) (hs : speed ≠ 0)
    (hq : 0 ≤ ((|value - lastvalue| : Int) : ℚ) / speed) :
    servo_time value lastvalue speed =
      min 2147483647 ⌊toDouble (((|value - lastvalue| : Int) : ℚ) / speed)⌋ := by
  have hround : 0 ≤ toDouble (((|value - lastvalue| : Int) : ℚ) / speed) := roundTo_nonneg 53 hq
  have hfloor := Int.floor_nonneg.2 hround
  rw [servo_time, hwrap, quotientToInt32, if_pos hs, toInt32, trunc, if_pos hround]
  omega

/-- The frame agrees with the queue about the position, and for the servos that have a goal time
about the time. -/
def Agrees (i : Issue Unit) (frame : List UInt8) : Prop :=
  ∃ g ∈ goal frame, g.ID = i.action.id.toUInt8 ∧ g.position = i.action.value.toNat ∧
    (is_STS (entry i.action.id) = false → g.time = some i.time.toNat)

instance (i : Issue Unit) (frame : List UInt8) : Decidable (Agrees i frame) :=
  inferInstanceAs (Decidable (∃ g ∈ goal frame, _))

namespace Birth

/-- The servo has no goal time, or it is near enough for its speed. -/
def Fits (b : Birth) : Prop :=
  is_STS (entry b.action.id) = true ∨
    |(b.action.value.toNat : ℚ) - b.lastvalue| < (65535 - 1 / 2 ^ 38) * b.speed

variable {b : Birth}

theorem wait_toNat (h : b.Sound) : (b.wait.toNat : Int) =
    min 2147483647 ⌊toDouble (|(b.action.value.toNat : ℚ) - b.lastvalue| / b.speed)⌋ + 1 := by
  have hv : b.action.value.toInt32.toInt = b.action.value.toNat := toNat_toInt32 h.value
  have hvalue := h.value
  have hlastvalue := h.lastvalue
  have hwrap : wrap32 ((b.action.value.toNat : Int) - b.lastvalue) =
      b.action.value.toNat - b.lastvalue := wrap32_eq_self_iff.2 (by omega)
  have hcast : ((|(b.action.value.toNat : Int) - b.lastvalue| : Int) : ℚ) =
      |(b.action.value.toNat : ℚ) - b.lastvalue| := by
    rw [Int.cast_abs, Int.cast_sub, Int.cast_natCast]
  have hq : 0 ≤ |(b.action.value.toNat : ℚ) - b.lastvalue| / b.speed :=
    div_nonneg (abs_nonneg _) h.speed.le
  have hfloor : 0 ≤ ⌊toDouble (|(b.action.value.toNat : ℚ) - b.lastvalue| / b.speed)⌋ :=
    Int.floor_nonneg.2 (roundTo_nonneg 53 hq)
  rw [wait, hv, servo_time_eq hwrap h.speed.ne' (by rwa [hcast]), hcast, UInt32.ofInt,
    UInt32.toNat_ofNat']
  omega

/-- The wait fits into the 16 bits of the goal time. What is within half a last place of 65535 is
rounded up to it. -/
theorem wait_lt_iff (h : b.Sound) : b.wait.toNat < 65536 ↔
    |(b.action.value.toNat : ℚ) - b.lastvalue| < (65535 - 1 / 2 ^ 38) * b.speed := by
  have hwait := wait_toNat h
  have hq : 0 ≤ |(b.action.value.toNat : ℚ) - b.lastvalue| / b.speed :=
    div_nonneg (abs_nonneg _) h.speed.le
  have hround := roundTo_lt_intCast_iff_of_le (p := 53) (q := 15) (n := 65535) hq (by decide)
    (by decide) (by decide)
  have hplace : (65535 : Int) - (2 : ℚ) ^ (((15 : Nat) : Int) - (53 : Nat)) =
      65535 - 1 / 2 ^ 38 := by
    norm_num
  rw [hplace, div_lt_iff₀ h.speed] at hround
  have hfloor : ⌊toDouble (|(b.action.value.toNat : ℚ) - b.lastvalue| / b.speed)⌋ < 65535 ↔ _ :=
    Int.floor_lt.trans hround
  rw [← hfloor]
  omega

/-- A sound action is told its position, and it is told its time exactly when that fits. -/
theorem told_iff (h : b.Sound) {i : Issue Unit} (haction : i.action = b.action)
    (htime : i.time = b.wait) (htells : Tells i frame) :
    (∃ g ∈ goal frame, g.ID = b.action.id.toUInt8 ∧ g.position = b.action.value.toNat) ∧
      (Agrees i frame ↔ b.Fits) := by
  have hid : i.action.id.toNat < 10 := by
    have hlt : b.action.id.toNat < 10 := (servo_toNat h.id).2.trans (by decide)
    exact haction ▸ hlt
  have hgoal := htells hid (haction ▸ h.value)
  rw [Agrees, Fits, ← wait_lt_iff h, ← haction, ← htime, hgoal]
  refine ⟨⟨_, rfl, rfl, rfl⟩, ?_⟩
  by_cases hsts : is_STS (entry i.action.id)
  · rw [if_pos hsts]
    have hno : ¬is_STS (entry i.action.id) = false := fun hf => Bool.false_ne_true (hf ▸ hsts)
    exact iff_of_true ⟨_, rfl, rfl, rfl, fun hf => absurd hf hno⟩ (.inl hsts)
  · rw [if_neg hsts]
    constructor
    · rintro ⟨g, hg, -, -, ht⟩
      obtain rfl := Option.some.inj hg
      have hmod : i.time.toNat % 65536 = i.time.toNat :=
        Option.some.inj (ht (Bool.eq_false_iff.2 hsts))
      exact .inr (hmod ▸ Nat.mod_lt _ (by decide))
    · rintro (hf | hlt)
      · exact absurd hf hsts
      · exact ⟨_, rfl, rfl, rfl, fun _ => congrArg some (Nat.mod_eq_of_lt hlt)⟩

end Birth

/-! ### The commands and their frames -/

def Told.commands (r : Arm × TellHistory) : List (Issue Unit) :=
  r.1.queue.2.issued.filter fun i => IsServo i.action

/-- The dispatched commands are the first of the actions that were enqueued. -/
theorem Wired.commands_prefix {r : Arm × TellHistory} (h : Wired r q) :
    (Told.commands r).map (fun i => (i.action, i.time)) <+:
      r.2.births.map fun b => (b.action, b.wait) := by
  have hissued : r.1.queue.2.issued = q.history.issued := by rw [h.queued.represents.history]
  rw [h.order, Fifo.timed, List.filter_append, List.filter_map, Told.commands, hissued]
  exact List.prefix_append _ _

/-- Each servo is told the position that was enqueued, in order, and also the time that is waited
exactly if the servo has no goal time or the wait fits into its 16 bits. -/
theorem servo_told (es : List ArmEvent)
    (hspeeds : StepsMeet Told.step Told.SetsPositive ({}, {}) es) :
    let r := run Told.step ({}, {}) es
    (Told.commands r).length = r.2.frames.length ∧
      (Told.commands r).length ≤ r.2.births.length ∧
      ∀ (k : Nat) (b : Birth) (i : Issue Unit) (frame : List UInt8), r.2.births[k]? = some b →
        (Told.commands r)[k]? = some i → r.2.frames[k]? = some frame →
        i.action = b.action ∧ b.action.id ∈ [1, 2, 3, 4, 5] ∧
          (∃ g ∈ goal frame, g.ID = b.action.id.toUInt8 ∧
            g.position = b.action.value.toNat) ∧
          (Agrees i frame ↔ b.Fits) := by
  obtain ⟨q, hw⟩ := Told.wired_run hspeeds
  have hprefix := hw.commands_prefix
  have hlength := hprefix.length_le
  rw [List.length_map, List.length_map] at hlength
  refine ⟨hw.frames.length_eq, hlength, ?_⟩
  intro k b i frame hb hi hframe
  have hborn : b.Sound := hw.births b (List.mem_of_getElem? hb)
  obtain ⟨hlt, rfl⟩ := List.getElem?_eq_some_iff.1 hi
  obtain ⟨hlt', rfl⟩ := List.getElem?_eq_some_iff.1 hframe
  have hget := List.prefix_iff_getElem?.1 hprefix k (by rwa [List.length_map])
  rw [List.getElem?_map, hb, List.getElem_map] at hget
  obtain ⟨haction, htime⟩ := Prod.mk.inj (Option.some.inj hget)
  have htells := hw.frames.get hlt hlt'
  exact ⟨haction.symm, hborn.id, Birth.told_iff hborn haction.symm htime.symm htells⟩

/-- After the start of the servo task, servo 2 is made slow and moves to the third disk. -/
def slowMove : List ArmEvent :=
  List.replicate 9 (.servo 0 0) ++
    [.recv (.servo_speed ⟨.finite 2, .finite (1 / 128), .finite 0⟩), .ros 1 2 0,
      .recv (.servo 2), .ros 1 2 0]

def slowFrame : List UInt8 := [255, 255, 2, 9, 3, 42, 3, 172, 129, 1, 0, 0, 150]

theorem slowMove_told :
    (∃ g ∈ goal slowFrame, g.ID = 2 ∧ g.position = 940) ∧
      (Agrees ⟨⟨2, 940⟩, 98561, ()⟩ slowFrame ↔ (Birth.mk ⟨2, 940⟩ 170 (1 / 128)).Fits) :=
  ((servo_told slowMove (by decide +kernel)).2.2 0 ⟨⟨2, 940⟩, 170, 1 / 128⟩ ⟨⟨2, 940⟩, 98561, ()⟩
    slowFrame (by decide +kernel) (by decide +kernel) (by decide +kernel)).2.2

/-- The queue waits 98561 ms, and the servo is told to take 33025 ms. -/
theorem slowMove_truncated :
    ¬∀ es, StepsMeet Told.step Told.SetsPositive ({}, {}) es →
      ∀ (k : Nat) (i : Issue Unit) (frame : List UInt8),
        (Told.commands (run Told.step ({}, {}) es))[k]? = some i →
        (run Told.step ({}, {}) es).2.frames[k]? = some frame → Agrees i frame := by
  intro h
  have hagrees : Agrees ⟨⟨2, 940⟩, 98561, ()⟩ slowFrame :=
    h slowMove (by decide +kernel) 0 _ _ (by decide +kernel) (by decide +kernel)
  revert hagrees
  decide

end RobotCar

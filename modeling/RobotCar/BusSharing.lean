import RobotCar.Lib.Pool
import RobotCar.ScsFrames
import RobotCar.ServoRule

namespace RobotCar
open Concurrent Bytes
set_option autoImplicit true

/-! ### The two tasks on the bus -/

inductive BusTask where
  | servo
  | ros
  deriving DecidableEq, Repr

/-- What each task calls again and again. -/
inductive BusJob : BusTask → Type where
  | Servo_Server (now now' : UInt32) : BusJob .servo
  | Servo_Add_Action (New storage : Nat) (now : UInt32) (action : act) (time : Int) : BusJob .ros

def BusJob.task : BusJob w → Task ServoAccess Servo Unit
  | .Servo_Server now now' => RobotCar.Servo_Server now now'
  | .Servo_Add_Action New storage now action time =>
    RobotCar.Servo_Add_Action New storage now action.id action.value time

structure BusHistory where
  /-- the servo task has not called `Servo_Server` yet -/
  startup : Bool := true
  /-- who holds `Servo_Lock` -/
  holder : Option BusTask := none
  /-- whose frame has been begun and is not complete -/
  writing : Option BusTask := none
  /-- how many complete frames of a task wait for its flush -/
  waiting : BusTask → Nat := fun _ => 0

namespace BusHistory

def watch (w : BusTask) (l : ServoAccess) (_ : Servo) (h : BusHistory) : BusHistory :=
  match l with
  | .xSemaphoreTake => { h with holder := some w }
  | .xSemaphoreGive => { h with holder := none }
  | .scs .writeSCS => { h with writing := some w }
  | .scs .writeSCS_CheckSum =>
    { h with writing := none, waiting := Function.update h.waiting w (h.waiting w + 1) }
  | .scs .wFlushSCS => { h with waiting := Function.update h.waiting w 0 }
  | _ => h

def watchJob : (w : BusTask) → BusJob w → Servo → BusHistory → BusHistory
  | .servo, _, _, h => { h with startup := false }
  | .ros, _, _, h => h

end BusHistory

def servoBus : Pool BusTask ServoAccess Servo BusJob where
  job _ j := j.task

def recordedBus : Pool BusTask ServoAccess (Servo × BusHistory) BusJob :=
  servoBus.history BusHistory.watch BusHistory.watchJob

def startBus (s : Servo) : Pool.Config BusTask ServoAccess (Servo × BusHistory) where
  shared := (s, {})
  current
    | .servo => StartServoTask.history (BusHistory.watch .servo)
    | .ros => .ret ()

/-- The access changes the transmit buffer. -/
def ServoAccess.writes : ServoAccess → Bool
  | .scs .writeSCS => true
  | .scs .writeSCS_CheckSum => true
  | .scs .wFlushSCS => true
  | _ => false

/-- Until the servo task calls `Servo_Server` for the first time, no task writes to the bus or
flushes it while a frame of the other one is incomplete. -/
def Undisturbed (w : BusTask) (l : ServoAccess) (r : Servo × BusHistory) : Prop :=
  l.writes = true → r.2.startup = true → r.2.writing = none ∨ r.2.writing = some w

instance (w : BusTask) (l : ServoAccess) (r : Servo × BusHistory) :
    Decidable (Undisturbed w l r) :=
  inferInstanceAs (Decidable (l.writes = true → r.2.startup = true → _ ∨ _))

/-- A complete instruction frame, as `writeBuf` builds it. -/
def Built (bytes : List UInt8) : Prop :=
  ∃ ID MemAddr nDat nLen Fun, nDat.length = nLen.toNat ∧ 7 + nLen.toNat ≤ 128 ∧
    Writes (writeBuf ID MemAddr (some nDat) nLen Fun) {} () bytes

theorem built_packet {nDat : List UInt8} {nLen : UInt8} (hlen : nDat.length = nLen.toNat)
    (hfit : 7 + nLen.toNat ≤ 128) : Built (Packet.bytes ⟨ID, Fun, MemAddr :: nDat⟩) := by
  have hw : Writes (writeBuf ID MemAddr (some nDat) nLen Fun) {} () _ :=
    writeBuf_some (by omega) (by
      change 0 + (7 + nLen.toNat) ≤ 128
      omega)
  rw [List.take_of_length_le hlen.le] at hw
  exact ⟨ID, MemAddr, nDat, nLen, Fun, hlen, hfit, hw⟩

theorem Built.frame (h : Built bytes) : Frame bytes := by
  obtain ⟨ID, MemAddr, nDat, nLen, Fun, hlen, hfit, w, hw, hrun⟩ := h
  have hwb : Writes (writeBuf ID MemAddr (some nDat) nLen Fun) {} () _ :=
    writeBuf_some hlen.ge (by
      change 0 + (7 + nLen.toNat) ≤ 128
      omega)
  obtain ⟨w', hw', hrun'⟩ := hwb
  rw [hrun] at hrun'
  cases hrun'
  have hb : bytes = Packet.bytes ⟨ID, Fun, MemAddr :: nDat.take nLen.toNat⟩ :=
    List.append_cancel_left (hw.symm.trans hw')
  rw [hb]
  apply frame_bytes
  rw [List.length_cons, List.length_take]
  omega

def Whole (bytes : List UInt8) : Prop :=
  ∃ frames : List (List UInt8), (∀ f ∈ frames, Built f) ∧ bytes = frames.flatten

/-! ### What holds at every moment -/

/-- Complete frames wait in the buffer, and this beginning of one behind them. -/
def Buffered (r : Servo × BusHistory) (part : List UInt8) : Prop :=
  ∃ frames : List (List UInt8), (∀ f ∈ frames, Built f ∧ f.length ≤ 14) ∧
    r.1.bus.wBuf.bytes = frames.flatten ++ part ∧
    frames.length ≤ r.2.waiting .servo + r.2.waiting .ros

/-- What allows a task to write to the bus. -/
inductive Title where
  | lock
  | startup

def Title.Holds : Title → BusTask → BusHistory → Prop
  | .lock, w, h => h.holder = some w
  | .startup, w, h => w = .servo ∧ h.startup = true

structure BusInv (r : Servo × BusHistory) : Prop where
  lock : r.1.Servo_Lock = false → r.2.holder = none
  sent : Whole r.1.bus.sent.flatten
  buffer : r.2.writing = none → Buffered r []
  title : ∀ w, r.2.writing = some w → ∃ e : Title, e.Holds w r.2
  waiting : ∀ w, r.2.waiting w ≤ 1

structure Leaves (w : BusTask) (r r' : Servo × BusHistory) : Prop where
  holder : r.2.holder = some w → r'.2.holder = some w
  startup : w = .servo → r'.2.startup = r.2.startup
  waiting : r'.2.waiting w = r.2.waiting w
  writing : r'.2.writing = some w ↔ r.2.writing = some w
  buffer : r.2.writing = some w → r'.1.bus.wBuf = r.1.bus.wBuf ∧ r'.2.waiting = r.2.waiting

def BusGuarantee (w : BusTask) (r r' : Servo × BusHistory) : Prop :=
  BusInv r' ∧ ∀ w', w' ≠ w → Leaves w' r r'

structure Resting (w : BusTask) (r : Servo × BusHistory) : Prop where
  inv : BusInv r
  writing : r.2.writing ≠ some w
  waiting : r.2.waiting w = 0

/-- Allowed to write, between two frames. -/
structure AtRest (e : Title) (w : BusTask) (r : Servo × BusHistory) : Prop extends Resting w r where
  title : e.Holds w r.2

structure Building (e : Title) (w : BusTask) (part : List UInt8) (r : Servo × BusHistory) :
    Prop where
  inv : BusInv r
  title : e.Holds w r.2
  writing : r.2.writing = some w
  waiting : r.2.waiting w = 0
  buffer : Buffered r part

/-- The frame is complete and has not been flushed by the task that wrote it. -/
structure Complete (e : Title) (w : BusTask) (r : Servo × BusHistory) : Prop where
  inv : BusInv r
  title : e.Holds w r.2
  writing : r.2.writing ≠ some w

section Stable
variable {r r' : Servo × BusHistory}

theorem Title.Holds.leaves {e : Title} (h : e.Holds w r.2) (hl : Leaves w r r') :
    e.Holds w r'.2 := by
  cases e with
  | lock => exact hl.holder h
  | startup => exact ⟨h.1, (hl.startup h.1).trans h.2⟩

theorem rely_leaves (h : Pool.Rely BusGuarantee w r r') : BusInv r' ∧ Leaves w r r' := by
  obtain ⟨w', hw, hi, hl⟩ := h
  exact ⟨hi, hl w (Ne.symm hw)⟩

theorem Resting.stable (h : Resting w r) (hr : Pool.Rely BusGuarantee w r r') : Resting w r' := by
  obtain ⟨hi, hl⟩ := rely_leaves hr
  exact ⟨hi, fun hw => h.writing (hl.writing.1 hw), hl.waiting.trans h.waiting⟩

theorem AtRest.stable (h : AtRest e w r) (hr : Pool.Rely BusGuarantee w r r') : AtRest e w r' :=
  ⟨h.toResting.stable hr, h.title.leaves (rely_leaves hr).2⟩

theorem Building.stable (h : Building e w part r) (hr : Pool.Rely BusGuarantee w r r') :
    Building e w part r' := by
  obtain ⟨hi, hl⟩ := rely_leaves hr
  obtain ⟨hbuf, hwait⟩ := hl.buffer h.writing
  obtain ⟨frames, hf, hb, hn⟩ := h.buffer
  refine ⟨hi, h.title.leaves hl, hl.writing.2 h.writing, hl.waiting.trans h.waiting,
    frames, hf, ?_, ?_⟩
  · rw [hbuf, hb]
  · rw [hwait]
    exact hn

theorem Complete.stable (h : Complete e w r) (hr : Pool.Rely BusGuarantee w r r') :
    Complete e w r' := by
  obtain ⟨hi, hl⟩ := rely_leaves hr
  exact ⟨hi, h.title.leaves hl, fun hw => h.writing (hl.writing.1 hw)⟩

end Stable

/-! ### The steps of a task -/

section Steps
variable {r : Servo × BusHistory} {w : BusTask}

/-- No frame of the other task is incomplete when a task may write. -/
theorem unopposed {e : Title} (hi : BusInv r) (ht : e.Holds w r.2)
    (hC : r.2.startup = true → r.2.writing = none ∨ r.2.writing = some w) :
    r.2.writing = none ∨ r.2.writing = some w := by
  cases hw : r.2.writing with
  | none => exact .inl rfl
  | some w' =>
    rw [← hw]
    obtain ⟨e', ht'⟩ := hi.title w' hw
    cases e with
    | startup => exact hC ht.2
    | lock =>
      cases e' with
      | startup => exact hC ht'.2
      | lock =>
        have hww : some w' = some w := ht'.symm.trans ht
        exact .inr (hw.trans hww)

theorem leaves_of {r' : Servo × BusHistory} (hww : w' ≠ w)
    (hwr : r.2.writing = none ∨ r.2.writing = some w)
    (hwr' : r'.2.writing = none ∨ r'.2.writing = some w) (hh : r'.2.holder = r.2.holder)
    (hs : r'.2.startup = r.2.startup) (hwait : r'.2.waiting w' = r.2.waiting w') :
    Leaves w' r r' := by
  have hne (o : Option BusTask) (ho : o = none ∨ o = some w) : o ≠ some w' := by
    rintro rfl
    rcases ho with ho | ho
    · exact absurd ho (Option.some_ne_none w')
    · exact hww (Option.some.inj ho)
  have h₁ := hne _ hwr
  have h₂ := hne _ hwr'
  exact ⟨fun h => hh.trans h, fun _ => hs, hwait, ⟨fun h => absurd h h₂, fun h => absurd h h₁⟩,
    fun h => absurd h h₁⟩

theorem BusInv.waiting_le (h : BusInv r) (hw : r.2.waiting w = 0) :
    r.2.waiting .servo + r.2.waiting .ros ≤ 1 := by
  have h₁ := h.waiting .servo
  have h₂ := h.waiting .ros
  cases w <;> omega

theorem buffered_write {part : List UInt8} (nDat : List UInt8) (hi : BusInv r)
    (hw : r.2.waiting w = 0) (hb : Buffered r part) (hfit : part.length + nDat.length ≤ 14)
    (h : BusHistory) (hh : h.waiting = r.2.waiting) :
    Buffered ({ r.1 with bus := r.1.bus.write nDat }, h) (part ++ nDat) := by
  obtain ⟨frames, hf, hbytes, hn⟩ := hb
  have hlen := length_flatten_le fun f hm => (hf f hm).2
  have hle := hi.waiting_le hw
  have hbuf : r.1.bus.wBuf.bytes.length ≤ 28 - nDat.length := by
    rw [hbytes, List.length_append]
    omega
  refine ⟨frames, hf, ?_, ?_⟩
  · change (r.1.bus.wBuf.write nDat).bytes = _
    rw [write_bytes (by omega), hbytes, List.append_assoc]
  · dsimp only
    rw [hh]
    exact hn

theorem write_step {e : Title} {part : List UInt8} (nDat : List UInt8) (hi : BusInv r)
    (ht : e.Holds w r.2) (hwait : r.2.waiting w = 0)
    (hw : r.2.writing = none ∨ r.2.writing = some w)
    (hb : Buffered r part) (hfit : part.length + nDat.length ≤ 14) :
    BusGuarantee w r
      ({ r.1 with bus := r.1.bus.write nDat }, { r.2 with writing := some w }) ∧
    Building e w (part ++ nDat)
      ({ r.1 with bus := r.1.bus.write nDat }, { r.2 with writing := some w }) := by
  have hb' := buffered_write nDat hi hwait hb hfit { r.2 with writing := some w } rfl
  have ht' : e.Holds w { r.2 with writing := some w } := by cases e <;> exact ht
  have hi' : BusInv ({ r.1 with bus := r.1.bus.write nDat }, { r.2 with writing := some w }) := by
    refine ⟨hi.lock, hi.sent, ?_, ?_, hi.waiting⟩
    · intro hn
      exact absurd hn (Option.some_ne_none w)
    · intro w' hw'
      cases hw'
      exact ⟨e, ht'⟩
  exact ⟨⟨hi', fun w' hww => leaves_of hww hw (.inr rfl) rfl rfl rfl⟩,
    hi', ht', rfl, hwait, hb'⟩

theorem sum_waiting_succ (waiting : BusTask → Nat) (w : BusTask) :
    Function.update waiting w (waiting w + 1) .servo +
      Function.update waiting w (waiting w + 1) .ros = waiting .servo + waiting .ros + 1 := by
  cases w <;> simp [Function.update] <;> omega

theorem checkSum_step {e : Title} {part : List UInt8} (h : Building e w part r)
    (hf : Built (part ++ [CheckSum])) (hfit : part.length + 1 ≤ 14) :
    BusGuarantee w r ({ r.1 with bus := r.1.bus.write [CheckSum] },
      { r.2 with
        writing := none
        waiting := Function.update r.2.waiting w (r.2.waiting w + 1) }) ∧
    Complete e w ({ r.1 with bus := r.1.bus.write [CheckSum] },
      { r.2 with
        writing := none
        waiting := Function.update r.2.waiting w (r.2.waiting w + 1) }) := by
  obtain ⟨hi, ht, hw, hwait, hb⟩ := h
  obtain ⟨frames, hfs, hbytes, hn⟩ := buffered_write [CheckSum] hi hwait hb hfit r.2 rfl
  have hi' : BusInv ({ r.1 with bus := r.1.bus.write [CheckSum] },
      { r.2 with
        writing := none
        waiting := Function.update r.2.waiting w (r.2.waiting w + 1) }) := by
    refine ⟨hi.lock, hi.sent, fun _ => ?_, ?_, ?_⟩
    · refine ⟨frames ++ [part ++ [CheckSum]], ?_, ?_, ?_⟩
      · intro f hm
        rcases List.mem_append.1 hm with hm | hm
        · exact hfs f hm
        · rw [List.mem_singleton.1 hm, List.length_append]
          exact ⟨hf, hfit⟩
      · rw [List.flatten_append, List.flatten_singleton, List.append_nil]
        exact hbytes
      · rw [List.length_append, sum_waiting_succ]
        exact Nat.succ_le_succ hn
    · intro w' hw'
      exact absurd hw'.symm (Option.some_ne_none w')
    · intro w'
      by_cases hww : w' = w
      · subst hww
        simp only [Function.update_self, hwait]
        exact le_rfl
      · simp only [Function.update_of_ne hww]
        exact hi.waiting w'
  refine ⟨⟨hi', fun w' hww => ?_⟩, hi', ?_, ?_⟩
  · exact leaves_of hww (.inr hw) (.inl rfl) rfl rfl (Function.update_of_ne hww _ _)
  · cases e <;> exact ht
  · exact (Option.some_ne_none w).symm

theorem flush_step {e : Title} (h : Complete e w r)
    (hw : r.2.writing = none ∨ r.2.writing = some w) :
    BusGuarantee w r ({ r.1 with bus := r.1.bus.flush },
      { r.2 with waiting := Function.update r.2.waiting w 0 }) ∧
    AtRest e w ({ r.1 with bus := r.1.bus.flush },
      { r.2 with waiting := Function.update r.2.waiting w 0 }) := by
  obtain ⟨hi, ht, hnw⟩ := h
  have hnone : r.2.writing = none := by
    rcases hw with hw | hw
    · exact hw
    · exact absurd hw hnw
  obtain ⟨frames, hfs, hbytes, -⟩ := hi.buffer hnone
  obtain ⟨sent, hs, hsent⟩ := hi.sent
  rw [List.append_nil] at hbytes
  have hflush : r.1.bus.flush.wBuf.bytes = [] ∧
      r.1.bus.flush.sent.flatten = (sent ++ frames).flatten := by
    rw [List.flatten_append, ← hbytes, ← hsent, Bus.flush]
    split
    · rename_i hnil
      rw [hnil, List.append_nil]
      exact ⟨rfl, rfl⟩
    · rw [List.flatten_append, List.flatten_singleton]
      exact ⟨rfl, rfl⟩
  have hi' : BusInv ({ r.1 with bus := r.1.bus.flush },
      { r.2 with waiting := Function.update r.2.waiting w 0 }) := by
    refine ⟨hi.lock, ⟨sent ++ frames, ?_, hflush.2⟩, fun _ => ?_, ?_, ?_⟩
    · intro f hm
      rcases List.mem_append.1 hm with hm | hm
      · exact hs f hm
      · exact (hfs f hm).1
    · exact ⟨[], List.forall_mem_nil _, hflush.1, Nat.zero_le _⟩
    · intro w' hw'
      exact absurd (hnone.symm.trans hw').symm (Option.some_ne_none w')
    · intro w'
      by_cases hww : w' = w
      · subst hww
        simp only [Function.update_self]
        exact Nat.zero_le _
      · simp only [Function.update_of_ne hww]
        exact hi.waiting w'
  refine ⟨⟨hi', fun w' hww => ?_⟩, ⟨hi', hnw, Function.update_self ..⟩, ?_⟩
  · exact leaves_of hww hw hw rfl rfl (Function.update_of_ne hww _ _)
  · cases e <;> exact ht

/-- A step that has nothing to do with the bus and the lock. -/
def Harmless (l : ServoAccess) (s s' : Servo) : Prop :=
  (∀ w h, BusHistory.watch w l s h = h) ∧ s'.bus.wBuf = s.bus.wBuf ∧ s'.bus.sent = s.bus.sent ∧
    s'.Servo_Lock = s.Servo_Lock

theorem BusInv.congr {s : Servo} (hi : BusInv r) (hwBuf : s.bus.wBuf = r.1.bus.wBuf)
    (hsent : s.bus.sent = r.1.bus.sent) (hlock : s.Servo_Lock = false → r.2.holder = none) :
    BusInv (s, r.2) := by
  refine ⟨hlock, ?_, ?_, hi.title, hi.waiting⟩
  · rw [hsent]
    exact hi.sent
  · intro hw
    obtain ⟨frames, hf, hb, hn⟩ := hi.buffer hw
    exact ⟨frames, hf, hwBuf ▸ hb, hn⟩

theorem harmless_step {e : Title} {s : Servo} (h : AtRest e w r) (hT : Harmless l r.1 s) :
    BusGuarantee w r (s, r.2) ∧ AtRest e w (s, r.2) := by
  obtain ⟨-, hwBuf, hsent, hlock⟩ := hT
  have hi' := h.inv.congr hwBuf hsent fun hl => h.inv.lock (hlock ▸ hl)
  exact ⟨⟨hi', fun _ _ => ⟨id, fun _ => rfl, rfl, Iff.rfl, fun _ => ⟨hwBuf, rfl⟩⟩⟩,
    ⟨⟨hi', h.writing, h.waiting⟩, h.title⟩⟩

theorem take_step (h : Resting w r) (hl : r.1.Servo_Lock = false) :
    BusGuarantee w r ({ r.1 with Servo_Lock := true }, { r.2 with holder := some w }) ∧
    AtRest .lock w ({ r.1 with Servo_Lock := true }, { r.2 with holder := some w }) := by
  obtain ⟨hi, hw, hwait⟩ := h
  have hnone := hi.lock hl
  have hi' : BusInv ({ r.1 with Servo_Lock := true }, { r.2 with holder := some w }) := by
    refine ⟨fun ht => Bool.noConfusion ht, hi.sent, hi.buffer, ?_, hi.waiting⟩
    intro w' hw'
    obtain ⟨e, he⟩ := hi.title w' hw'
    cases e with
    | lock => exact absurd (hnone.symm.trans he).symm (Option.some_ne_none w')
    | startup => exact ⟨.startup, he⟩
  refine ⟨⟨hi', fun w' _ => ⟨?_, fun _ => rfl, rfl, Iff.rfl, fun _ => ⟨rfl, rfl⟩⟩⟩,
    ⟨hi', hw, hwait⟩, rfl⟩
  intro hh
  exact absurd (hnone.symm.trans hh).symm (Option.some_ne_none w')

theorem give_step (h : AtRest .lock w r) :
    BusGuarantee w r ({ r.1 with Servo_Lock := false }, { r.2 with holder := none }) ∧
    Resting w ({ r.1 with Servo_Lock := false }, { r.2 with holder := none }) := by
  obtain ⟨⟨hi, hw, hwait⟩, hh⟩ := h
  have hh : r.2.holder = some w := hh
  have hi' : BusInv ({ r.1 with Servo_Lock := false }, { r.2 with holder := none }) := by
    refine ⟨fun _ => rfl, hi.sent, hi.buffer, ?_, hi.waiting⟩
    intro w' hw'
    obtain ⟨e, he⟩ := hi.title w' hw'
    cases e with
    | lock =>
      have hww : some w' = some w := he.symm.trans hh
      cases hww
      exact absurd hw' hw
    | startup => exact ⟨.startup, he⟩
  refine ⟨⟨hi', fun w' hww => ⟨?_, fun _ => rfl, rfl, Iff.rfl, fun _ => ⟨rfl, rfl⟩⟩⟩,
    hi', hw, hwait⟩
  intro hh'
  exact absurd (Option.some.inj (hh'.symm.trans hh)) hww

end Steps

/-! ### The functions -/

/-- A function that may be called by a task that is allowed to write, between two frames. -/
def Good (e : Title) (w : BusTask) (t : Task ServoAccess Servo α) : Prop :=
  ∀ r, AtRest e w r →
    Guarantees (Pool.Rely BusGuarantee w) (BusGuarantee w) (Undisturbed w) BusInv
      (fun _ => AtRest e w) (t.history (BusHistory.watch w)) r

section Functions
variable {e : Title} {w : BusTask}

theorem good_pure (a : α) : Good e w (pure a) := by
  intro r hr
  exact Guarantees.ret (fun _ _ h => h.stable) hr fun r h => ⟨h.inv, h⟩

theorem good_bind {t : Task ServoAccess Servo α} {f : α → Task ServoAccess Servo β}
    (ht : Good e w t) (hf : ∀ a, Good e w (f a)) : Good e w (t >>= f) := by
  intro r hr
  rw [Task.history_bind]
  apply Guarantees.bind
  exact (ht r hr).mono (fun _ h => h) fun a r h => hf a r h

theorem good_of_harmless {t : Task ServoAccess Servo α} (ht : t.Only Harmless) : Good e w t := by
  intro r hr
  have h := Guarantees.of_only (R := Pool.Rely BusGuarantee w) (G := BusGuarantee w)
    (C := Undisturbed w) (P := AtRest e w) (fun _ _ h => h.stable)
    (ht.history (BusHistory.watch w)) ?_ hr
  · exact h.mono (fun _ h => h.inv) fun _ _ h => h
  · rintro l r ⟨s, h⟩ hr ⟨hT, hh⟩
    obtain ⟨hG, hr'⟩ := harmless_step hr hT
    rw [hT.1] at hh
    cases hh
    exact ⟨hG, hr'⟩

theorem harmless_queue {s s' : Servo} (hbus : s'.bus = s.bus)
    (hlock : s'.Servo_Lock = s.Servo_Lock) : Harmless .queue s s' :=
  ⟨fun _ _ => rfl, hbus ▸ rfl, hbus ▸ rfl, hlock⟩

theorem good_read (g : Servo → α) : Good e w (Task.read .queue g) :=
  good_of_harmless (Task.only_access _ fun _ => harmless_queue rfl rfl)

theorem good_undefined : Good e w undefinedBehavior := by
  apply good_of_harmless
  apply Task.only_await
  intro s s' h
  exact absurd h.symm (Option.some_ne_none s')

theorem good_axis (t : Task AxisAccess Steppers α) :
    Good e w (t.zoom .axis Servo.steppersPart) := by
  apply good_of_harmless
  have ht := t.only_true.zoom ServoAccess.axis Servo.steppersPart
  refine ht.mono ?_
  rintro l s s' ⟨l', a, rfl, rfl, -⟩
  exact ⟨fun _ _ => rfl, rfl, rfl, rfl⟩

theorem good_reads {t : Task BusAccess Bus α} (ht : t.Only Reads) :
    Good e w (t.zoom .scs Servo.busPart) := by
  apply good_of_harmless
  refine (ht.zoom ServoAccess.scs Servo.busPart).mono ?_
  rintro l s s' ⟨l', b, rfl, rfl, rfl, hwBuf, hsent⟩
  exact ⟨fun _ _ => rfl, hwBuf, hsent, rfl⟩

theorem good_genWrite {nDat : List UInt8} {nLen : UInt8} (hlen : nDat.length = nLen.toNat)
    (hfit : nLen.toNat ≤ 7) :
    Good e w ((genWrite ID MemAddr nDat nLen).zoom .scs Servo.busPart) := by
  have hbytes := packet_bytes ID INST_WRITE MemAddr hlen.ge
  have hbuilt : Built (Packet.bytes ⟨ID, INST_WRITE, MemAddr :: nDat.take nLen.toNat⟩) := by
    rw [List.take_of_length_le hlen.le]
    exact built_packet hlen (by omega)
  rw [hbytes, ← List.append_assoc] at hbuilt
  have htake : (nDat.take nLen.toNat).length ≤ 7 := by
    rw [List.length_take]
    omega
  intro r hr
  apply Guarantees.atomic (P := AtRest e w) (fun _ _ h => h.stable) hr fun r h => h.inv
  intro r r' hr hC ha
  cases ha
  have hwr := unopposed hr.inv hr.title (hC rfl)
  have hnone : r.2.writing = none := by
    rcases hwr with hwr | hwr
    · exact hwr
    · exact absurd hwr hr.writing
  obtain ⟨hG, hb⟩ := write_step [0xff, 0xff, ID, 2 + (nLen + 1), INST_WRITE, MemAddr]
    hr.inv hr.title hr.waiting hwr (hr.inv.buffer hnone) (by
      simp only [List.length_cons, List.length_nil]
      omega)
  refine ⟨hG, ?_⟩
  apply Guarantees.atomic (fun _ _ h => h.stable) hb fun r h => h.inv
  intro r r' hr hC ha
  cases ha
  obtain ⟨hG, hb⟩ := write_step (nDat.take nLen.toNat) hr.inv hr.title hr.waiting
    (.inr hr.writing) hr.buffer (by
      simp only [List.nil_append, List.length_cons, List.length_nil]
      omega)
  refine ⟨hG, ?_⟩
  apply Guarantees.atomic (fun _ _ h => h.stable) hb fun r h => h.inv
  intro r r' hr hC ha
  cases ha
  obtain ⟨hG, hc⟩ := checkSum_step hr hbuilt (by
    simp only [List.nil_append, List.length_append, List.length_cons, List.length_nil]
    omega)
  refine ⟨hG, ?_⟩
  apply Guarantees.atomic (fun _ _ h => h.stable) hc fun r h => h.inv
  intro r r' hr hC ha
  cases ha
  obtain ⟨hG, hr'⟩ := flush_step hr (unopposed hr.inv hr.title (hC rfl))
  exact ⟨hG, good_reads (quiet_Ack ID).2 _ hr'⟩

theorem good_WritePosSCS :
    Good e w ((WritePosSCS ID Position Time Speed).zoom .scs Servo.busPart) :=
  good_genWrite rfl (by decide)

theorem good_WritePosSTS : Good e w ((WritePosSTS ID Pos Speed ACC).zoom .scs Servo.busPart) :=
  good_genWrite rfl (by decide)

theorem good_queue : QueueRule fun _ t => Good e w t := by
  apply ActuatorRule.queue
  · constructor
    · exact ⟨good_pure, good_bind, good_read, good_undefined⟩
    · intro action time
      apply good_of_harmless
      exact Task.only_access _ fun s => ⟨fun _ _ => rfl, rfl, rfl, rfl⟩
    · exact good_axis
    · exact fun _ _ _ _ => good_WritePosSCS
    · exact fun _ _ _ _ => good_WritePosSTS
  · intro f hf
    apply good_of_harmless
    apply Task.only_access
    intro s
    exact harmless_queue (hf s).bus (hf s).Servo_Lock

theorem good_Servo_Server_body (now now' : UInt32) : Good e w (Servo_Server_body now now') :=
  good_queue.Servo_Server_body now now'

theorem good_Servo_Add_Action_body (New storage : Nat) (now : UInt32) (action : act)
    (time : Int) :
    Good e w (Servo_Add_Action_body New storage now action.id action.value time) := by
  apply good_queue.Servo_Add_Action_body
  apply good_of_harmless
  apply Task.only_await
  intro s s' h
  rw [enqueue_frame h]
  exact ⟨fun _ _ => rfl, rfl, rfl, rfl⟩

/-- What a task does under the lock. -/
theorem locked_resting {t : Task ServoAccess Servo Unit} (ht : Good .lock w t)
    {r : Servo × BusHistory} (hr : Resting w r) :
    Guarantees (Pool.Rely BusGuarantee w) (BusGuarantee w) (Undisturbed w) BusInv
      (fun _ => Resting w)
      ((do xSemaphoreTake; t; xSemaphoreGive : Task ServoAccess Servo Unit).history
        (BusHistory.watch w)) r := by
  apply Guarantees.atomic (fun _ _ h => h.stable) hr fun r h => h.inv
  intro r r' hr hC ha
  cases hl : r.1.Servo_Lock with
  | true => simp [hl] at ha
  | false =>
    simp only [hl] at ha
    cases ha
    obtain ⟨hG, hr'⟩ := take_step hr hl
    refine ⟨hG, ?_⟩
    change Guarantees _ _ _ _ _
      (Task.history (BusHistory.watch w) (t >>= fun _ => xSemaphoreGive)) _
    rw [Task.history_bind]
    apply Guarantees.bind
    refine (ht _ hr').mono (fun _ h => h) fun _ r hr => ?_
    apply Guarantees.atomic (fun _ _ h => h.stable) hr fun r h => h.inv
    intro r r' hr hC ha
    cases ha
    obtain ⟨hG, hr'⟩ := give_step hr
    exact ⟨hG, Guarantees.ret (fun _ _ h => h.stable) hr' fun r h => ⟨h.inv, h⟩⟩

theorem good_update_Servo_state (id : UInt32) (value : Int) :
    Good .startup w (update_Servo_state id value) := by
  intro r hr
  apply Guarantees.atomic (fun _ _ h => h.stable) hr fun r h => h.inv
  intro r r' hr hC ha
  cases hl : r.1.Servo_Lock with
  | true => simp [hl] at ha
  | false =>
    simp only [hl] at ha
    cases ha
    obtain ⟨hG, hr'⟩ := take_step hr.toResting hl
    refine ⟨hG, ?_⟩
    apply Guarantees.atomic (P := fun r => AtRest .lock w r ∧ Title.startup.Holds w r.2)
      (fun _ _ h hR => ⟨h.1.stable hR, h.2.leaves (rely_leaves hR).2⟩) ⟨hr', hr.title⟩
      fun r h => h.1.inv
    rintro r r' ⟨hr, ht⟩ hC ha
    obtain ⟨s, hs, rfl⟩ := Option.map_eq_some_iff.1 ha
    have hT : Harmless .queue r.1 s := by
      split at hs
      · cases hs
        exact harmless_queue rfl rfl
      split at hs
      · cases hs
        exact harmless_queue rfl rfl
      split at hs
      · cases hs
        exact harmless_queue rfl rfl
      · cases hs
    obtain ⟨hG, hr'⟩ := harmless_step hr hT
    refine ⟨hG, ?_⟩
    apply Guarantees.atomic (P := fun r => AtRest .lock w r ∧ Title.startup.Holds w r.2)
      (fun _ _ h hR => ⟨h.1.stable hR, h.2.leaves (rely_leaves hR).2⟩) ⟨hr', ht⟩
      fun r h => h.1.inv
    rintro r r' ⟨hr, ht⟩ hC ha
    cases ha
    obtain ⟨hG, hr'⟩ := give_step hr
    exact ⟨hG, Guarantees.ret (fun _ _ h => h.stable) ⟨hr', ht⟩ fun r h => ⟨h.inv, h⟩⟩

theorem good_StartServoTask : Good .startup w StartServoTask := by
  apply good_bind (good_axis _)
  intro _
  apply good_bind (good_axis _)
  intro _
  apply good_bind (good_update_Servo_state 1 3300)
  intro _
  apply good_bind (good_update_Servo_state 2 170)
  intro _
  apply good_bind (good_update_Servo_state 3 470)
  intro _
  apply good_bind (good_update_Servo_state 4 300)
  intro _
  apply good_bind (good_update_Servo_state 5 580)
  intro _
  apply good_bind good_WritePosSCS
  intro _
  exact good_bind good_WritePosSTS good_pure

end Functions

/-! ### Runs -/

theorem job_guaranteed (w : BusTask) (j : BusJob w) (r : Servo × BusHistory)
    (hr : Resting w r) : BusGuarantee w r (recordedBus.arrive w j r) ∧
      Guarantees (Pool.Rely BusGuarantee w) (BusGuarantee w) (Undisturbed w) BusInv
        (fun _ => Resting w) (recordedBus.job w j) (recordedBus.arrive w j r) := by
  cases j with
  | Servo_Server now now' =>
    have hi' : BusInv (r.1, { r.2 with startup := false }) := by
      refine ⟨hr.inv.lock, hr.inv.sent, hr.inv.buffer, ?_, hr.inv.waiting⟩
      intro w' hw'
      obtain ⟨e, he⟩ := hr.inv.title w' hw'
      cases e with
      | lock => exact ⟨.lock, he⟩
      | startup =>
        cases he.1
        exact absurd hw' hr.writing
    have hr' : Resting .servo (r.1, { r.2 with startup := false }) := ⟨hi', hr.writing, hr.waiting⟩
    refine ⟨⟨hi', fun w' hw => ?_⟩, locked_resting (good_Servo_Server_body now now') hr'⟩
    exact ⟨id, fun hs => absurd hs hw, rfl, Iff.rfl, fun _ => ⟨rfl, rfl⟩⟩
  | Servo_Add_Action New storage now action time =>
    have hG : BusGuarantee .ros r r :=
      ⟨hr.inv, fun _ _ => ⟨id, fun _ => rfl, rfl, Iff.rfl, fun _ => ⟨rfl, rfl⟩⟩⟩
    exact ⟨hG, locked_resting (good_Servo_Add_Action_body New storage now action time) hr⟩

theorem startBus_guaranteed (s : Servo) (rx : List (Option UInt8)) :
    Pool.Guaranteed BusGuarantee Undisturbed BusInv Resting
      (startBus { s with Servo_Lock := false, bus := { rx := rx } }) := by
  have hi : BusInv ({ s with Servo_Lock := false, bus := { rx := rx } }, {}) := by
    refine ⟨fun _ => rfl, ⟨[], List.forall_mem_nil _, rfl⟩, fun _ => ?_, ?_, fun _ => Nat.zero_le _⟩
    · exact ⟨[], List.forall_mem_nil _, rfl, Nat.zero_le _⟩
    · intro w hw
      exact absurd hw.symm (Option.some_ne_none w)
  intro w
  have hr : Resting w ({ s with Servo_Lock := false, bus := { rx := rx } }, {}) :=
    ⟨hi, (Option.some_ne_none w).symm, rfl⟩
  cases w with
  | servo =>
    have h := good_StartServoTask (w := .servo) _ ⟨hr, rfl, rfl⟩
    exact h.mono (fun _ h => h) fun _ _ h => h.toResting
  | ros => exact Guarantees.ret (fun _ _ h => h.stable) hr fun r h => ⟨h.inv, h⟩

/-- While no task disturbs an incomplete frame before the first `Servo_Server`, what was sent
is at every moment a sequence of complete frames. -/
theorem frames_never_interleave (s : Servo) (rx : List (Option UInt8))
    (es : List (Pool.Event BusTask BusJob))
    (h : Transition.StepsMeet recordedBus.step (Pool.Meets Undisturbed)
      (startBus { s with Servo_Lock := false, bus := { rx := rx } }) es) :
    Whole (recordedBus.run (startBus { s with Servo_Lock := false, bus := { rx := rx } })
      es).shared.1.bus.sent.flatten := by
  have hg := recordedBus.run_guaranteed job_guaranteed (startBus_guaranteed s rx) h
  exact (hg .servo).holds.sent

/-- The ROS task adds an action while the servo task writes its first frame, and writes its own
after it. -/
def frameAfterFrame : List (Pool.Event BusTask BusJob) :=
  List.replicate 20 (.step .servo) ++
    .recv .ros (.Servo_Add_Action 8 16 0 ⟨2, 170⟩ 100) :: List.replicate 6 (.step .ros) ++
    List.replicate 3 (.step .servo) ++ List.replicate 4 (.step .ros)

theorem frameAfterFrame_whole :
    Whole (recordedBus.run (startBus { ({} : Servo) with Servo_Lock := false, bus := { rx := [] } })
      frameAfterFrame).shared.1.bus.sent.flatten :=
  frames_never_interleave {} [] frameAfterFrame (by decide)

def startupHeader : List (Pool.Event BusTask BusJob) := List.replicate 20 (.step .servo)

def rosFrame : List (Pool.Event BusTask BusJob) :=
  .recv .ros (.Servo_Add_Action 8 16 0 ⟨2, 170⟩ 100) :: List.replicate 10 (.step .ros)

def interleaved : List UInt8 :=
  [0xff, 0xff, 100, 9, 3, 42, 0xff, 0xff, 2, 9, 3, 42, 0, 170, 0, 100, 0, 0, 0xb9]

/-- The ROS task completes and flushes its frame behind the header of a start-up frame. -/
theorem startup_frame_interleaved :
    ¬∀ (s : Servo) (rx : List (Option UInt8)) (es : List (Pool.Event BusTask BusJob)),
      Whole (recordedBus.run (startBus { s with Servo_Lock := false, bus := { rx := rx } })
        es).shared.1.bus.sent.flatten := by
  intro h
  obtain ⟨frames, hf, hsent⟩ := h {} [] (startupHeader ++ rosFrame)
  have hbytes : (recordedBus.run (startBus { ({} : Servo) with Servo_Lock := false, bus := {} })
      (startupHeader ++ rosFrame)).shared.1.bus.sent.flatten = interleaved := by decide
  rw [hbytes] at hsent
  cases frames with
  | nil => exact absurd hsent (by decide)
  | cons f frames =>
    -- the first frame would have to end after the 13 bytes that its length byte says
    have hframe : Frame f := (hf f List.mem_cons_self).frame
    have htake := hframe.take_append frames.flatten
    rw [← List.flatten_cons, ← hsent] at htake
    have hsum := hframe.CHK
    rw [← htake] at hsum
    exact absurd hsum (by decide)

end RobotCar

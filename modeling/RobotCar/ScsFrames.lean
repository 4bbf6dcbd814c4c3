import RobotCar.Lib.Bytes
import RobotCar.Scs

namespace RobotCar
open Concurrent Bytes
set_option autoImplicit true

/-! ### The frame format -/

structure Packet where
  ID : UInt8
  INST : UInt8
  params : List UInt8
  deriving DecidableEq, Repr

def Packet.body (p : Packet) : List UInt8 :=
  p.ID :: UInt8.ofNat (p.params.length + 2) :: p.INST :: p.params

/-- The bytes `FF FF ID LEN INST ... CHK`. -/
def Packet.bytes (p : Packet) : List UInt8 := 0xff :: 0xff :: (p.body ++ [complement p.body])

/-- `LEN` is the number of bytes after it, and the bytes from `ID` to `CHK` sum to `FF`. -/
structure Frame (bytes : List UInt8) : Prop where
  head : bytes.take 2 = [0xff, 0xff]
  complete : 6 ≤ bytes.length
  LEN : (bytes.getD 3 0).toNat = (bytes.drop 4).length
  CHK : (bytes.drop 2).sum = 0xff

/-- The reference parser of the format. -/
def parse : List UInt8 → Option Packet
  | 0xff :: 0xff :: ID :: LEN :: INST :: rest =>
    if rest ≠ [] ∧ LEN.toNat = rest.length + 1 ∧ (ID :: LEN :: INST :: rest).sum = 0xff then
      some ⟨ID, INST, rest.dropLast⟩
    else none
  | _ => none

/-- What an instruction frame asks of a servo. -/
inductive Instruction where
  | ping
  | read (MemAddr nLen : UInt8)
  | write (MemAddr : UInt8) (nDat : List UInt8)
  | regWrite (MemAddr : UInt8) (nDat : List UInt8)
  | regAction
  | syncWrite (MemAddr nLen : UInt8) (table : List (UInt8 × List UInt8))
  deriving DecidableEq, Repr

def Packet.instruction (p : Packet) : Option Instruction :=
  if p.INST = INST_PING ∧ p.params = [] then some .ping
  else if p.INST = INST_REG_ACTION ∧ p.params = [] then some .regAction
  else match p.params with
    | [] => none
    | MemAddr :: nDat =>
      if p.INST = INST_WRITE then some (.write MemAddr nDat)
      else if p.INST = INST_REG_WRITE then some (.regWrite MemAddr nDat)
      else match nDat with
        | [] => none
        | nLen :: data =>
          if p.INST = INST_READ ∧ data = [] then some (.read MemAddr nLen)
          else if p.INST = INST_SYNC_WRITE ∧ data.length % (nLen.toNat + 1) = 0 then
            some (.syncWrite MemAddr nLen
              (rows nLen.toNat (data.length / (nLen.toNat + 1)) data))
          else none

def decode (bytes : List UInt8) : Option (UInt8 × Instruction) :=
  (parse bytes).bind fun p => p.instruction.map fun i => (p.ID, i)

theorem frame_bytes {p : Packet} (h : p.params.length + 2 < 256) : Frame p.bytes := by
  constructor
  · rfl
  · simp [Packet.bytes, Packet.body]
  · simp only [Packet.bytes, Packet.body, List.cons_append, List.getD_cons_succ,
      List.getD_cons_zero, List.drop_succ_cons, List.drop_zero, List.length_cons,
      List.length_append, List.length_nil, UInt8.toNat_ofNat']
    omega
  · exact sum_concat_complement p.body

/-- The length byte says where a frame ends. -/
theorem Frame.take_append (h : Frame bytes) (rest : List UInt8) :
    (bytes ++ rest).take (((bytes ++ rest).getD 3 0).toNat + 4) = bytes := by
  have hc := h.complete
  have hget : (bytes ++ rest).getD 3 0 = bytes.getD 3 0 := by
    rw [List.getD_eq_getElem?_getD, List.getD_eq_getElem?_getD,
      List.getElem?_append_left (by omega)]
  have hlen : (bytes.getD 3 0).toNat + 4 = bytes.length := by
    rw [h.LEN, List.length_drop]
    omega
  rw [hget, hlen, List.take_left]

theorem parse_bytes {p : Packet} (h : p.params.length + 2 < 256) : parse p.bytes = some p := by
  have hb : p.bytes = 0xff :: 0xff :: p.ID :: UInt8.ofNat (p.params.length + 2) :: p.INST ::
      (p.params ++ [complement p.body]) := rfl
  have hlen : (UInt8.ofNat (p.params.length + 2)).toNat =
      (p.params ++ [complement p.body]).length + 1 := by
    rw [UInt8.toNat_ofNat', List.length_append, List.length_singleton]
    omega
  have hsum : (p.ID :: UInt8.ofNat (p.params.length + 2) :: p.INST ::
      (p.params ++ [complement p.body])).sum = 0xff := sum_concat_complement p.body
  have hne : p.params ++ [complement p.body] ≠ [] := List.concat_ne_nil _ _
  rw [hb, parse, if_pos ⟨hne, hlen, hsum⟩, List.dropLast_concat]

/-! ### What a call asks for -/

/-- The packet that a call builds. -/
def Instruction.packet (ID : UInt8) : Instruction → Packet
  | .ping => ⟨ID, INST_PING, []⟩
  | .read MemAddr nLen => ⟨ID, INST_READ, [MemAddr, nLen]⟩
  | .write MemAddr nDat => ⟨ID, INST_WRITE, MemAddr :: nDat⟩
  | .regWrite MemAddr nDat => ⟨ID, INST_REG_WRITE, MemAddr :: nDat⟩
  | .regAction => ⟨ID, INST_REG_ACTION, []⟩
  | .syncWrite MemAddr nLen table => ⟨ID, INST_SYNC_WRITE, MemAddr :: nLen :: unrows table⟩

/-- The rows of a synchronous write have the length that it announces. -/
def Instruction.Regular : Instruction → Prop
  | .syncWrite _ nLen table => ∀ r ∈ table, r.2.length = nLen.toNat
  | _ => True

theorem instruction_packet {i : Instruction} (ID : UInt8) (h : i.Regular) :
    (i.packet ID).instruction = some i := by
  cases i with
  | ping => rfl
  | read MemAddr nLen => rfl
  | write MemAddr nDat => rfl
  | regWrite MemAddr nDat => rfl
  | regAction => rfl
  | syncWrite MemAddr nLen table =>
    have hlen := length_unrows h
    have hmod : (unrows table).length % (nLen.toNat + 1) = 0 := by
      rw [hlen, Nat.mul_mod_left]
    have hdiv : (unrows table).length / (nLen.toNat + 1) = table.length := by
      rw [hlen, Nat.mul_div_cancel _ (Nat.succ_pos _)]
    have hi : (Instruction.packet ID (.syncWrite MemAddr nLen table)).instruction =
        if (unrows table).length % (nLen.toNat + 1) = 0 then
          some (.syncWrite MemAddr nLen
            (rows nLen.toNat ((unrows table).length / (nLen.toNat + 1)) (unrows table)))
        else none := by
      simp [Instruction.packet, Packet.instruction, INST_PING, INST_READ, INST_WRITE,
        INST_REG_WRITE, INST_REG_ACTION, INST_SYNC_WRITE]
    rw [hi, if_pos hmod, hdiv, rows_unrows h]

theorem decode_packet {i : Instruction} {ID : UInt8} (h : i.Regular)
    (hlen : (i.packet ID).params.length + 2 < 256) :
    decode (i.packet ID).bytes = some (ID, i) := by
  have hID : (i.packet ID).ID = ID := by cases i <;> rfl
  rw [decode, parse_bytes hlen, Option.bind_some, instruction_packet ID h, Option.map_some, hID]

/-! ### What the calls write -/

theorem bytes_write (w : WBuf) (nDat : List UInt8) :
    (w.write nDat).bytes = (w.bytes ++ nDat).take 128 := by
  rw [List.take_append, List.take_of_length_le w.wLen_le]
  rfl

theorem write_bytes {w : WBuf} {nDat : List UInt8} (h : w.bytes.length + nDat.length ≤ 128) :
    (w.write nDat).bytes = w.bytes ++ nDat := by
  rw [bytes_write, List.take_of_length_le]
  rw [List.length_append]
  exact h

/-- The task ends, and leaves the bus with these bytes more in the transmit buffer. -/
def Writes (t : Task BusAccess Bus α) (b : Bus) (a : α) (bytes : List UInt8) : Prop :=
  ∃ w : WBuf, w.bytes = b.wBuf.bytes ++ bytes ∧ t.run b = some (a, { b with wBuf := w })

/-- The task ends, and writes these bytes to the transmit buffer, which keeps 128. -/
def Emits (t : Task BusAccess Bus α) (b : Bus) (a : α) (bytes : List UInt8) : Prop :=
  ∃ w : WBuf, w.bytes = (b.wBuf.bytes ++ bytes).take 128 ∧
    t.run b = some (a, { b with wBuf := w })

theorem Emits.writes {t : Task BusAccess Bus α} (h : Emits t b a bytes)
    (hfit : b.wBuf.bytes.length + bytes.length ≤ 128) : Writes t b a bytes := by
  obtain ⟨w, hw, hrun⟩ := h
  rw [List.take_of_length_le (by rw [List.length_append]; exact hfit)] at hw
  exact ⟨w, hw, hrun⟩

theorem emits_writeSCS (nDat : List UInt8) (b : Bus) : Emits (writeSCS nDat) b () nDat :=
  ⟨b.wBuf.write nDat, bytes_write b.wBuf nDat, rfl⟩

theorem emits_CheckSum (CheckSum : UInt8) (b : Bus) :
    Emits (writeSCS_CheckSum CheckSum) b () [CheckSum] :=
  ⟨b.wBuf.write [CheckSum], bytes_write b.wBuf [CheckSum], rfl⟩

theorem Emits.bind {t : Task BusAccess Bus α} {f : α → Task BusAccess Bus β}
    (ht : Emits t b a bytes) (hf : ∀ w : WBuf, Emits (f a) { b with wBuf := w } c bytes') :
    Emits (t >>= f) b c (bytes ++ bytes') := by
  obtain ⟨w, hw, ht⟩ := ht
  obtain ⟨w', hw', hf⟩ := hf w
  refine ⟨w', ?_, ?_⟩
  · rw [hw', ← List.append_assoc, ← take_take_append _ (_ ++ bytes), ← hw]
  · rw [Task.run_bind, ht, Option.bind_some, hf]

theorem packet_bytes (ID Fun MemAddr : UInt8) {nDat : List UInt8}
    (hlen : nLen.toNat ≤ nDat.length) :
    Packet.bytes ⟨ID, Fun, MemAddr :: nDat.take nLen.toNat⟩ =
      [0xff, 0xff, ID, 2 + (nLen + 1), Fun, MemAddr] ++ (nDat.take nLen.toNat ++
        [~~~((nDat.take nLen.toNat).foldl (· + ·) (ID + (2 + (nLen + 1)) + Fun + MemAddr))]) := by
  have htake : (nDat.take nLen.toNat).length = nLen.toNat := by
    rw [List.length_take]
    omega
  have hmsg : UInt8.ofNat ((MemAddr :: nDat.take nLen.toNat).length + 2) = 2 + (nLen + 1) := by
    rw [List.length_cons, htake, UInt8.ofNat_add, UInt8.ofNat_add, UInt8.ofNat_toNat]
    exact UInt8.add_comm _ _
  have hsum : ~~~((nDat.take nLen.toNat).foldl (· + ·) (ID + (2 + (nLen + 1)) + Fun + MemAddr)) =
      complement (Packet.body ⟨ID, Fun, MemAddr :: nDat.take nLen.toNat⟩) := by
    rw [foldl_add, complement, Packet.body, hmsg]
    simp only [List.sum_cons, UInt8.add_assoc]
  rw [hsum, Packet.bytes, Packet.body, hmsg]
  rfl

theorem writeBuf_some_emits (ID MemAddr Fun : UInt8) {nDat : List UInt8}
    (hlen : nLen.toNat ≤ nDat.length) (b : Bus) :
    Emits (writeBuf ID MemAddr (some nDat) nLen Fun) b ()
      (Packet.bytes ⟨ID, Fun, MemAddr :: nDat.take nLen.toNat⟩) := by
  rw [packet_bytes ID Fun MemAddr hlen, writeBuf]
  apply (emits_writeSCS _ b).bind
  intro w
  apply (emits_writeSCS _ _).bind
  intro w'
  exact emits_CheckSum _ _

theorem writeBuf_none_emits (ID Fun nLen : UInt8) (b : Bus) :
    Emits (writeBuf ID 0 none nLen Fun) b () (Packet.bytes ⟨ID, Fun, []⟩) := by
  have hsum : ~~~(ID + 2 + Fun + 0) = complement (Packet.body ⟨ID, Fun, []⟩) := by
    rw [complement, Packet.body]
    simp only [List.sum_cons, List.sum_nil, UInt8.add_assoc]
    rfl
  have hb : Packet.bytes ⟨ID, Fun, []⟩ =
      [0xff, 0xff, ID, 2, Fun] ++ [complement (Packet.body ⟨ID, Fun, []⟩)] := rfl
  rw [hb, ← hsum, writeBuf]
  apply (emits_writeSCS _ b).bind
  intro w
  exact emits_CheckSum _ _

theorem length_bytes (p : Packet) : p.bytes.length = p.params.length + 6 := by
  simp only [Packet.bytes, Packet.body, List.length_cons, List.length_append, List.length_nil]

theorem writeBuf_some {nDat : List UInt8} (hlen : nLen.toNat ≤ nDat.length)
    (hfit : b.wBuf.bytes.length + (7 + nLen.toNat) ≤ 128) :
    Writes (writeBuf ID MemAddr (some nDat) nLen Fun) b ()
      (Packet.bytes ⟨ID, Fun, MemAddr :: nDat.take nLen.toNat⟩) := by
  apply (writeBuf_some_emits ID MemAddr Fun hlen b).writes
  rw [length_bytes, List.length_cons, List.length_take]
  omega

/-! ### What the calls send -/

/-- The task ends, and has handed `Uart_Send` the bytes that waited in the transmit buffer and
these after them, in one piece. -/
def Sends (t : Task BusAccess Bus α) (b : Bus) (bytes : List UInt8) : Prop :=
  ∃ a b', t.run b = some (a, b') ∧ b'.wBuf.bytes = [] ∧
    b'.sent = b.sent ++ [b.wBuf.bytes ++ bytes]

/-- The task ends, and has handed `Uart_Send` what the transmit buffer keeps of these bytes. -/
def Hands (t : Task BusAccess Bus α) (b : Bus) (bytes : List UInt8) : Prop :=
  ∃ a b', t.run b = some (a, b') ∧ b'.wBuf.bytes = [] ∧
    b'.sent = b.sent ++ [(b.wBuf.bytes ++ bytes).take 128]

theorem Hands.sends {t : Task BusAccess Bus α} (h : Hands t b bytes)
    (hfit : b.wBuf.bytes.length + bytes.length ≤ 128) : Sends t b bytes := by
  obtain ⟨a, b', hrun, hb', hsent⟩ := h
  rw [List.take_of_length_le (by rw [List.length_append]; exact hfit)] at hsent
  exact ⟨a, b', hrun, hb', hsent⟩

theorem Emits.hands {t : Task BusAccess Bus α} {f : α → Task BusAccess Bus β}
    (ht : Emits t b a bytes)
    (hf : ∀ w : WBuf, w.bytes = (b.wBuf.bytes ++ bytes).take 128 →
      Hands (f a) { b with wBuf := w } bytes') :
    Hands (t >>= f) b (bytes ++ bytes') := by
  obtain ⟨w, hw, ht⟩ := ht
  obtain ⟨c, b', hf, hb', hsent⟩ := hf w hw
  refine ⟨c, b', ?_, hb', ?_⟩
  · rw [Task.run_bind, ht, Option.bind_some, hf]
  · rw [hsent, ← List.append_assoc, ← take_take_append _ (_ ++ bytes), ← hw]

def Reads (l : BusAccess) (b b' : Bus) : Prop :=
  l = .readSCS ∧ b'.wBuf = b.wBuf ∧ b'.sent = b.sent

/-- The task only reads, and never waits. -/
def Quiet (t : Task BusAccess Bus α) : Prop := t.NeverWaits ∧ t.Only Reads

theorem quiet_pure (a : α) : Quiet (pure a) := ⟨trivial, trivial⟩

theorem quiet_readSCS (nLen : Nat) : Quiet (readSCS nLen) :=
  ⟨Task.neverWaits_access _ _ _, Task.only_access _ fun _ => ⟨rfl, rfl, rfl⟩⟩

theorem quiet_bind {t : Task BusAccess Bus α} {f : α → Task BusAccess Bus β} (ht : Quiet t)
    (hf : ∀ a, Quiet (f a)) : Quiet (t >>= f) :=
  ⟨Task.neverWaits_bind ht.1 fun a => (hf a).1, Task.only_bind ht.2 fun a => (hf a).2⟩

theorem Quiet.preserves {t : Task BusAccess Bus α} (h : Quiet t) (w : WBuf)
    (sent : List (List UInt8)) : t.Preserves fun b => b.wBuf = w ∧ b.sent = sent := by
  apply h.2.preserves
  rintro l b b' ⟨hw, hs⟩ ⟨-, hw', hs'⟩
  exact ⟨hw'.trans hw, hs'.trans hs⟩

theorem quiet_checkHead_loop (n : Nat) (last : UInt8) : Quiet (checkHead_loop n last) := by
  induction n generalizing last with
  | zero => exact quiet_pure false
  | succ n ih =>
    apply quiet_bind (quiet_readSCS 1)
    intro bytes
    split
    · split
      · exact quiet_pure true
      · exact ih _
    · exact quiet_pure false

theorem quiet_reply (nLen : Nat) {found : Option (List UInt8) → Task BusAccess Bus α} {a : α}
    (hf : ∀ bytes, Quiet (found bytes)) :
    Quiet (do if ← checkHead then found (← readSCS nLen) else pure a) := by
  apply quiet_bind (quiet_checkHead_loop 11 0)
  intro head
  split
  · exact quiet_bind (quiet_readSCS nLen) hf
  · exact quiet_pure a

theorem quiet_Ack (ID : UInt8) : Quiet (Ack ID) := by
  unfold Ack
  split
  · apply quiet_reply 4
    intro bytes
    cases bytes with
    | none => exact quiet_pure 0
    | some bBuf => exact quiet_pure _
  · exact quiet_pure 1

theorem neverWaits_writeBuf (ID MemAddr : UInt8) (nDat : List UInt8) (nLen Fun : UInt8) :
    (writeBuf ID MemAddr (some nDat) nLen Fun).NeverWaits := by
  apply Task.neverWaits_bind (Task.neverWaits_access _ _ _)
  intro _
  apply Task.neverWaits_bind (Task.neverWaits_access _ _ _)
  intro _
  exact Task.neverWaits_access _ _ _

theorem neverWaits_genWrite (ID MemAddr : UInt8) (nDat : List UInt8) (nLen : UInt8) :
    (genWrite ID MemAddr nDat nLen).NeverWaits := by
  apply Task.neverWaits_bind (neverWaits_writeBuf ID MemAddr nDat nLen INST_WRITE)
  intro _
  apply Task.neverWaits_bind (Task.neverWaits_access _ _ _)
  intro _
  exact (quiet_Ack ID).1

theorem quiet_Ping (ID : UInt8) : Quiet (Ping_reply ID) := by
  apply quiet_reply 4
  intro bytes
  cases bytes with
  | none => exact quiet_pure (-1)
  | some bBuf => exact quiet_pure _

theorem quiet_Read (nLen : UInt8) : Quiet (Read_reply nLen) := by
  apply quiet_reply 3
  intro bytes
  cases bytes with
  | none => exact quiet_pure (0, [])
  | some bBuf =>
    apply quiet_bind (quiet_readSCS nLen.toNat)
    intro bytes
    cases bytes with
    | none => exact quiet_pure (0, [])
    | some nData =>
      apply quiet_bind (quiet_readSCS 1)
      intro bytes
      split
      · dsimp only
        split
        · exact quiet_pure (0, nData)
        · exact quiet_pure ((nLen.toNat : Int), nData)
      · exact quiet_pure (0, nData)

theorem hands_flush {reply : Task BusAccess Bus α} (hne : b.wBuf.bytes ≠ []) (hr : Quiet reply) :
    Hands (do wFlushSCS; reply) b [] := by
  obtain ⟨a, b', hrun⟩ :=
    Task.run_of_neverWaits hr.1 { b with sent := b.sent ++ [b.wBuf.bytes], wBuf := {} }
  obtain ⟨hwb, hsent⟩ :=
    Task.run_of_preserves (hr.preserves {} (b.sent ++ [b.wBuf.bytes])) ⟨rfl, rfl⟩ hrun
  refine ⟨a, b', ?_, ?_, ?_⟩
  · rw [Task.run_bind, wFlushSCS, Task.run_update, Option.bind_some, Bus.flush, if_neg hne]
    exact hrun
  · rw [hwb]
  · rw [hsent, List.append_nil, List.take_of_length_le b.wBuf.wLen_le]

theorem take_concat_ne_nil (bytes : List UInt8) (x : UInt8) : (bytes ++ [x]).take 128 ≠ [] := by
  intro h
  rcases List.take_eq_nil_iff.1 h with h | h
  · exact absurd h (by decide)
  · exact List.concat_ne_nil x bytes h

theorem hands_frame {t : Task BusAccess Bus Unit} {p : Packet} {reply : Task BusAccess Bus α}
    (ht : Emits t b () p.bytes) (hr : Quiet reply) :
    Hands (do t; wFlushSCS; reply) b p.bytes := by
  rw [← List.append_nil p.bytes]
  apply ht.hands
  intro w hw
  apply hands_flush _ hr
  change w.bytes ≠ []
  rw [hw, Packet.bytes, ← List.cons_append, ← List.cons_append, ← List.append_assoc]
  exact take_concat_ne_nil _ _

def syncTable (ID nDat : List UInt8) (nLen : UInt8) (i n : Nat) : List (UInt8 × List UInt8) :=
  (List.range' i n).map fun i => (ID.getD i 0, (nDat.drop (i * nLen.toNat)).take nLen.toNat)

theorem length_syncTable (ID nDat : List UInt8) (nLen : UInt8) (i n : Nat) :
    (syncTable ID nDat nLen i n).length = n := by
  rw [syncTable, List.length_map, List.length_range']

theorem length_slice {nDat : List UInt8} (h : (i + 1) * n ≤ nDat.length) :
    ((nDat.drop (i * n)).take n).length = n := by
  rw [List.length_take, List.length_drop]
  rw [Nat.succ_mul] at h
  omega

theorem syncTable_regular {nDat : List UInt8} (h : (i + n) * nLen.toNat ≤ nDat.length) :
    ∀ r ∈ syncTable ID nDat nLen i n, r.2.length = nLen.toNat := by
  intro r hr
  obtain ⟨j, hj, rfl⟩ := List.mem_map.1 hr
  obtain ⟨-, hjn⟩ := List.mem_range'_1.1 hj
  apply length_slice
  exact (Nat.mul_le_mul_right _ hjn).trans h

theorem syncWrite_loop_emits (ID nDat : List UInt8) (nLen : UInt8) (i n : Nat) (Sum : UInt8)
    (b : Bus) :
    Emits (syncWrite_loop ID nDat nLen n i Sum) b
      (Sum + (unrows (syncTable ID nDat nLen i n)).sum) (unrows (syncTable ID nDat nLen i n)) := by
  induction n generalizing i Sum b with
  | zero =>
    have hb : (b.wBuf.bytes ++ []).take 128 = b.wBuf.bytes := by
      rw [List.append_nil, List.take_of_length_le b.wBuf.wLen_le]
    refine ⟨b.wBuf, hb.symm, ?_⟩
    rw [syncWrite_loop, Task.run_pure]
    exact congrArg (fun x => some (x, b)) (UInt8.add_zero Sum).symm
  | succ n ih =>
    have hb : unrows (syncTable ID nDat nLen i (n + 1)) =
        [ID.getD i 0] ++ ((nDat.drop (i * nLen.toNat)).take nLen.toNat ++
          unrows (syncTable ID nDat nLen (i + 1) n)) := rfl
    have hs : Sum + (unrows (syncTable ID nDat nLen i (n + 1))).sum =
        ((nDat.drop (i * nLen.toNat)).take nLen.toNat).foldl (· + ·) (Sum + ID.getD i 0) +
          (unrows (syncTable ID nDat nLen (i + 1) n)).sum := by
      rw [hb, foldl_add]
      simp only [List.sum_append, List.sum_singleton, UInt8.add_assoc]
    rw [hs, hb, syncWrite_loop]
    apply (emits_writeSCS _ b).bind
    intro w
    apply (emits_writeSCS _ _).bind
    intro w'
    exact ih (i + 1) _ _

theorem hands_syncWrite (ID : List UInt8) (MemAddr : UInt8) {nDat : List UInt8}
    (hdat : IDN.toNat * nLen.toNat ≤ nDat.length) (b : Bus) :
    Hands (syncWrite ID IDN MemAddr nDat nLen) b
      (Instruction.packet 0xfe
        (.syncWrite MemAddr nLen (syncTable ID nDat nLen 0 IDN.toNat))).bytes := by
  have hdat' : (0 + IDN.toNat) * nLen.toNat ≤ nDat.length := by
    rw [Nat.zero_add]
    exact hdat
  let table := syncTable ID nDat nLen 0 IDN.toNat
  let p : Packet := ⟨0xfe, INST_SYNC_WRITE, MemAddr :: nLen :: unrows table⟩
  have hrows : (unrows table).length = IDN.toNat * (nLen.toNat + 1) := by
    rw [length_unrows (syncTable_regular hdat'), length_syncTable]
  have hmes : UInt8.ofNat (p.params.length + 2) = (nLen + 1) * IDN + 4 := by
    rw [List.length_cons, List.length_cons, hrows]
    simp only [UInt8.ofNat_add, UInt8.ofNat_mul, UInt8.ofNat_toNat]
    rw [UInt8.mul_comm, UInt8.add_assoc, UInt8.add_assoc]
    rfl
  have hsum : ~~~(0xfe + ((nLen + 1) * IDN + 4) + INST_SYNC_WRITE + MemAddr + nLen +
      (unrows table).sum) = complement p.body := by
    rw [complement, Packet.body, hmes]
    simp only [List.sum_cons, UInt8.add_assoc]
    rfl
  have hb : p.bytes = [0xff, 0xff, 0xfe, (nLen + 1) * IDN + 4, INST_SYNC_WRITE, MemAddr, nLen] ++
      (unrows table ++ ([complement p.body] ++ [])) := by
    rw [Packet.bytes, Packet.body, hmes]
    rfl
  change Hands _ b p.bytes
  rw [hb, ← hsum, syncWrite]
  apply (emits_writeSCS _ b).hands
  intro w hw
  apply (syncWrite_loop_emits ID nDat nLen 0 IDN.toNat _ _).hands
  intro w' hw'
  apply (emits_CheckSum _ _).hands
  intro w'' hw''
  apply hands_flush _ (quiet_pure ())
  change w''.bytes ≠ []
  rw [hw'']
  exact take_concat_ne_nil _ _

/-! ### Sequences of calls -/

inductive Call where
  | genWrite (ID MemAddr : UInt8) (nDat : List UInt8) (nLen : UInt8)
  | regWrite (ID MemAddr : UInt8) (nDat : List UInt8) (nLen : UInt8)
  | regAction (ID : UInt8)
  | Ping (ID : UInt8)
  | Read (ID MemAddr nLen : UInt8)
  | writeByte (ID MemAddr bDat : UInt8)
  | writeWord (ID MemAddr : UInt8) (wDat : UInt16) (End : UInt8)
  | syncWrite (ID : List UInt8) (IDN MemAddr : UInt8) (nDat : List UInt8) (nLen : UInt8)

namespace Call

/-- What the call does; its result is left out. -/
def task : Call → Task BusAccess Bus Unit
  | .genWrite ID MemAddr nDat nLen => do let _ ← RobotCar.genWrite ID MemAddr nDat nLen
  | .regWrite ID MemAddr nDat nLen => do let _ ← RobotCar.regWrite ID MemAddr nDat nLen
  | .regAction ID => do let _ ← RobotCar.regAction ID
  | .Ping ID => do let _ ← RobotCar.Ping ID
  | .Read ID MemAddr nLen => do let _ ← RobotCar.Read ID MemAddr nLen
  | .writeByte ID MemAddr bDat => do let _ ← RobotCar.writeByte ID MemAddr bDat
  | .writeWord ID MemAddr wDat End => do let _ ← RobotCar.writeWord ID MemAddr wDat End
  | .syncWrite ID IDN MemAddr nDat nLen => RobotCar.syncWrite ID IDN MemAddr nDat nLen

/-- The arrays are as long as the call says, and the frame fits the transmit buffer. -/
def Fits : Call → Prop
  | .genWrite _ _ nDat nLen => nLen.toNat ≤ nDat.length ∧ 7 + nLen.toNat ≤ 128
  | .regWrite _ _ nDat nLen => nLen.toNat ≤ nDat.length ∧ 7 + nLen.toNat ≤ 128
  | .syncWrite ID IDN _ nDat nLen =>
    IDN.toNat ≤ ID.length ∧ IDN.toNat * nLen.toNat ≤ nDat.length ∧
      8 + IDN.toNat * (nLen.toNat + 1) ≤ 128
  | _ => True

instance (c : Call) : Decidable c.Fits := by
  cases c <;> unfold Fits <;> infer_instance

def request : Call → UInt8 × Instruction
  | .genWrite ID MemAddr nDat nLen => (ID, .write MemAddr (nDat.take nLen.toNat))
  | .regWrite ID MemAddr nDat nLen => (ID, .regWrite MemAddr (nDat.take nLen.toNat))
  | .regAction ID => (ID, .regAction)
  | .Ping ID => (ID, .ping)
  | .Read ID MemAddr nLen => (ID, .read MemAddr nLen)
  | .writeByte ID MemAddr bDat => (ID, .write MemAddr [bDat])
  | .writeWord ID MemAddr wDat End =>
    let low := UInt8.ofNat wDat.toNat
    let high := UInt8.ofNat (wDat.toNat / 256)
    (ID, .write MemAddr (if End = 0 then [low, high] else [high, low]))
  | .syncWrite ID IDN MemAddr nDat nLen =>
    (0xfe, .syncWrite MemAddr nLen ((List.range IDN.toNat).map fun i =>
      (ID.getD i 0, (nDat.drop (i * nLen.toNat)).take nLen.toNat)))

def bytes (c : Call) : List UInt8 := (c.request.2.packet c.request.1).bytes

theorem request_syncWrite (ID : List UInt8) (IDN MemAddr : UInt8) (nDat : List UInt8)
    (nLen : UInt8) : (request (.syncWrite ID IDN MemAddr nDat nLen)).2 =
      .syncWrite MemAddr nLen (syncTable ID nDat nLen 0 IDN.toNat) := by
  rw [request, List.range_eq_range']
  rfl

/-- The arrays are as long as the call says. -/
def Sized : Call → Prop
  | .genWrite _ _ nDat nLen => nLen.toNat ≤ nDat.length
  | .regWrite _ _ nDat nLen => nLen.toNat ≤ nDat.length
  | .syncWrite ID IDN _ nDat nLen =>
    IDN.toNat ≤ ID.length ∧ IDN.toNat * nLen.toNat ≤ nDat.length
  | _ => True

instance (c : Call) : Decidable c.Sized := by
  cases c <;> unfold Sized <;> infer_instance

theorem Fits.sized {c : Call} (h : c.Fits) : c.Sized := by
  cases c with
  | genWrite ID MemAddr nDat nLen => exact h.1
  | regWrite ID MemAddr nDat nLen => exact h.1
  | syncWrite ID IDN MemAddr nDat nLen => exact ⟨h.1, h.2.1⟩
  | _ => trivial

theorem request_regular {c : Call} (h : c.Sized) : c.request.2.Regular := by
  cases c with
  | syncWrite ID IDN MemAddr nDat nLen =>
    obtain ⟨-, hdat⟩ := h
    intro r hr
    obtain ⟨i, hi, rfl⟩ := List.mem_map.1 hr
    apply length_slice
    exact (Nat.mul_le_mul_right _ (List.mem_range.1 hi)).trans hdat
  | _ => trivial

theorem length_bytes_le {c : Call} (h : c.Fits) : c.bytes.length ≤ 128 := by
  have htake (nDat : List UInt8) (nLen : UInt8) (h : 7 + nLen.toNat ≤ 128) :
      (nDat.take nLen.toNat).length + 1 + 6 ≤ 128 := by
    rw [List.length_take]
    omega
  rw [bytes, length_bytes]
  cases c with
  | genWrite ID MemAddr nDat nLen => exact htake nDat nLen h.2
  | regWrite ID MemAddr nDat nLen => exact htake nDat nLen h.2
  | writeWord ID MemAddr wDat End =>
    by_cases he : End = 0
    · simp [request, Instruction.packet, he]
    · simp [request, Instruction.packet, he]
  | syncWrite ID IDN MemAddr nDat nLen =>
    have hrows := length_unrows (request_regular h.sized)
    obtain ⟨-, -, hfit⟩ := h
    rw [List.length_map, List.length_range] at hrows
    simp only [request, Instruction.packet, List.length_cons]
    omega
  | regAction ID => exact Nat.le_of_ble_eq_true rfl
  | Ping ID => exact Nat.le_of_ble_eq_true rfl
  | Read ID MemAddr nLen => exact Nat.le_of_ble_eq_true rfl
  | writeByte ID MemAddr bDat => exact Nat.le_of_ble_eq_true rfl

theorem host2SCS_nat (n : Nat) (End : UInt8) :
    Host2SCS n End = if End = 0 then (UInt8.ofNat n, UInt8.ofNat (n / 256))
      else (UInt8.ofNat (n / 256), UInt8.ofNat n) := by
  have hlow : UInt8.ofInt n = UInt8.ofNat n := ofInt_natCast n
  have hhigh : UInt8.ofInt ((n : Int) >>> (8 : Nat)) = UInt8.ofNat (n / 256) := by
    have hdiv : (n : Int) >>> (8 : Nat) = ((n / 256 : Nat) : Int) := Int.shiftRight_eq_div_pow _ 8
    rw [hdiv]
    exact ofInt_natCast _
  rw [Host2SCS, hlow, hhigh]
  by_cases h : End = 0
  · rw [if_pos h, if_neg (not_not.2 h)]
  · rw [if_neg h, if_pos h]

theorem discard {t : Task BusAccess Bus α} {l : List UInt8} (h : Hands t b l) :
    Hands (do let _ ← t) b l := by
  obtain ⟨a, b', hrun, hb', hsent⟩ := h
  refine ⟨(), b', ?_, hb', hsent⟩
  rw [Task.run_bind, hrun, Option.bind_some, Task.run_pure]

/-- Every call hands over what the transmit buffer keeps of its packet. -/
theorem hands {c : Call} (h : c.Sized) (b : Bus) : Hands c.task b c.bytes := by
  cases c with
  | genWrite ID MemAddr nDat nLen =>
    exact discard (hands_frame (writeBuf_some_emits ID MemAddr INST_WRITE h b) (quiet_Ack ID))
  | regWrite ID MemAddr nDat nLen =>
    exact discard (hands_frame (writeBuf_some_emits ID MemAddr INST_REG_WRITE h b) (quiet_Ack ID))
  | regAction ID =>
    exact discard (hands_frame (writeBuf_none_emits ID INST_REG_ACTION 0 b) (quiet_Ack ID))
  | Ping ID =>
    exact discard (hands_frame (writeBuf_none_emits ID INST_PING 0 b) (quiet_Ping ID))
  | Read ID MemAddr nLen =>
    have hw : Emits (writeBuf ID MemAddr (some [nLen]) 1 INST_READ) b () _ :=
      writeBuf_some_emits ID MemAddr INST_READ le_rfl b
    exact discard (hands_frame hw (quiet_Read nLen))
  | writeByte ID MemAddr bDat =>
    have hw : Emits (writeBuf ID MemAddr (some [bDat]) 1 INST_WRITE) b () _ :=
      writeBuf_some_emits ID MemAddr INST_WRITE le_rfl b
    exact discard (hands_frame hw (quiet_Ack ID))
  | writeWord ID MemAddr wDat End =>
    have hw : Emits (writeBuf ID MemAddr (some [(Host2SCS wDat.toNat End).1,
        (Host2SCS wDat.toNat End).2]) 2 INST_WRITE) b () _ :=
      writeBuf_some_emits ID MemAddr INST_WRITE le_rfl b
    have hr : (request (.writeWord ID MemAddr wDat End)).2 =
        .write MemAddr [(Host2SCS wDat.toNat End).1, (Host2SCS wDat.toNat End).2] := by
      rw [host2SCS_nat, request]
      split <;> rfl
    rw [bytes, hr]
    exact discard (hands_frame hw (quiet_Ack ID))
  | syncWrite ID IDN MemAddr nDat nLen =>
    rw [bytes, request_syncWrite]
    exact hands_syncWrite ID MemAddr h.2 b

end Call

def runCalls : Bus → List (Call × List (Option UInt8)) → Option Bus
  | b, [] => some b
  | b, (c, reply) :: cs => (c.task.run { b with rx := reply }).bind fun r => runCalls r.2 cs

theorem runCalls_hands {cs : List (Call × List (Option UInt8))} (h : ∀ c ∈ cs, c.1.Sized)
    (b : Bus) (hb : b.wBuf.bytes = []) :
    ∃ b', runCalls b cs = some b' ∧ b'.wBuf.bytes = [] ∧
      b'.sent = b.sent ++ cs.map fun c => c.1.bytes.take 128 := by
  induction cs generalizing b with
  | nil => exact ⟨b, rfl, hb, (List.append_nil _).symm⟩
  | cons c cs ih =>
    obtain ⟨c, reply⟩ := c
    have hc : c.Sized := h (c, reply) List.mem_cons_self
    have hcs : ∀ c ∈ cs, c.1.Sized := fun c hc => h c (List.mem_cons_of_mem _ hc)
    obtain ⟨u, b₁, hrun, hb₁, hsent⟩ := c.hands hc { b with rx := reply }
    obtain ⟨b', hruns, hb', hsents⟩ := ih hcs b₁ hb₁
    rw [hb, List.nil_append] at hsent
    refine ⟨b', ?_, hb', ?_⟩
    · rw [runCalls, hrun, Option.bind_some, hruns]
    · rw [hsents, hsent, List.append_assoc]
      rfl

theorem sent_of_runCalls {cs : List (Call × List (Option UInt8))} (h : ∀ c ∈ cs, c.1.Sized)
    {R : Call × List (Option UInt8) → List UInt8 → Prop}
    (hR : ∀ c ∈ cs, R c (c.1.bytes.take 128)) :
    ∃ b, runCalls {} cs = some b ∧ b.wBuf.bytes = [] ∧ List.Forall₂ R cs b.sent := by
  obtain ⟨b, hrun, hb, hsent⟩ := runCalls_hands h {} rfl
  rw [List.nil_append] at hsent
  refine ⟨b, hrun, hb, ?_⟩
  rw [hsent, List.forall₂_map_right_iff, List.forall₂_same]
  exact hR

/-- Every call hands `Uart_Send` one frame, and the frame says what the call asked for. -/
theorem frames_decodable (cs : List (Call × List (Option UInt8))) (h : ∀ c ∈ cs, c.1.Fits) :
    ∃ b, runCalls {} cs = some b ∧ b.wBuf.bytes = [] ∧
      List.Forall₂ (fun c bytes => Frame bytes ∧ decode bytes = some c.1.request) cs b.sent := by
  apply sent_of_runCalls fun c hc => (h c hc).sized
  intro c hc
  have hle := Call.length_bytes_le (h c hc)
  rw [List.take_of_length_le hle]
  rw [Call.bytes, length_bytes] at hle
  have hlen : (c.1.request.2.packet c.1.request.1).params.length + 2 < 256 := by omega
  exact ⟨frame_bytes hlen, decode_packet (Call.request_regular (h c hc).sized) hlen⟩

/-- A synchronous write, and a ping whose reply breaks off. -/
def syncAndPing : List (Call × List (Option UInt8)) :=
  [(.syncWrite [1, 2] 2 42 [10, 11, 20, 21] 2, []),
    (.Ping 3, [some 0xff, some 0xff, some 3, none])]

theorem syncAndPing_decodable :
    ∃ b, runCalls {} syncAndPing = some b ∧ b.wBuf.bytes = [] ∧
      List.Forall₂ (fun c bytes => Frame bytes ∧ decode bytes = some c.1.request)
        syncAndPing b.sent :=
  frames_decodable syncAndPing (by decide)

end RobotCar

import RobotCar.ScsFrames

namespace RobotCar
open Concurrent Bytes
set_option autoImplicit true

/-- The last byte of a frame is the checksum of the bytes from `ID` on. -/
theorem frame_iff {bytes : List UInt8} : Frame bytes ↔
    bytes.take 2 = [0xff, 0xff] ∧ 6 ≤ bytes.length ∧
      (bytes.getD 3 0).toNat = (bytes.drop 4).length ∧
        bytes.getLast? = some (complement (bytes.drop 2).dropLast) := by
  have hCHK (h : 6 ≤ bytes.length) :
      (bytes.drop 2).sum = 0xff ↔ bytes.getLast? = some (complement (bytes.drop 2).dropLast) := by
    have hlen : (bytes.drop 2).length = bytes.length - 2 := List.length_drop
    rcases List.eq_nil_or_concat (bytes.drop 2) with hnil | ⟨body, x, hbody⟩
    · rw [hnil, List.length_nil] at hlen
      omega
    · have hlast : bytes.getLast? = some x := by
        rw [← List.take_append_drop 2 bytes, hbody, List.concat_eq_append, ← List.append_assoc,
          List.getLast?_concat]
      rw [hlast, hbody, List.concat_eq_append, List.dropLast_concat, sum_concat_eq_iff,
        Option.some.injEq]
  constructor
  · rintro ⟨head, complete, LEN, CHK⟩
    exact ⟨head, complete, LEN, (hCHK complete).1 CHK⟩
  · rintro ⟨head, complete, LEN, CHK⟩
    exact ⟨head, complete, LEN, (hCHK complete).2 CHK⟩

/-- What the transmit buffer keeps of a packet is a frame if that is all of it, or if by chance
its length byte and its sum are right. -/
theorem frame_take_iff {p : Packet} : Frame (p.bytes.take 128) ↔
    p.params.length ≤ 122 ∨
      (p.params.length + 2) % 256 = 124 ∧ ((p.bytes.take 128).drop 2).sum = 0xff := by
  have hlen := length_bytes p
  by_cases h : p.params.length ≤ 122
  · rw [List.take_of_length_le (by omega)]
    exact iff_of_true (frame_bytes (by omega)) (.inl h)
  · have htake : (p.bytes.take 128).length = 128 := by
      rw [List.length_take]
      omega
    have hget : ((p.bytes.take 128).getD 3 0).toNat = (p.params.length + 2) % 256 := by
      simp [Packet.bytes, Packet.body]
    rw [or_iff_right h]
    constructor
    · rintro ⟨-, -, LEN, CHK⟩
      rw [hget, List.length_drop, htake] at LEN
      exact ⟨LEN, CHK⟩
    · rintro ⟨LEN, CHK⟩
      refine ⟨rfl, ?_, ?_, CHK⟩
      · omega
      · rw [hget, LEN, List.length_drop, htake]

namespace Call

/-- The frame fits the transmit buffer, or the buffer keeps a part of it whose length byte and sum
are right. -/
def Framed : Call → Prop
  | .genWrite _ _ _ nLen => nLen.toNat ≤ 121
  | .regWrite _ _ _ nLen => nLen.toNat ≤ 121
  | .syncWrite ID IDN MemAddr nDat nLen =>
    IDN.toNat * (nLen.toNat + 1) ≤ 120 ∨
      IDN.toNat * (nLen.toNat + 1) % 256 = 120 ∧
        ([0xfe, 124, INST_SYNC_WRITE, MemAddr, nLen] ++
          (unrows (syncTable ID nDat nLen 0 IDN.toNat)).take 121).sum = 0xff
  | _ => True

theorem frame_write_iff (ID MemAddr INST : UInt8) {nLen : UInt8} {nDat : List UInt8}
    (h : nLen.toNat ≤ nDat.length) :
    Frame ((Packet.bytes ⟨ID, INST, MemAddr :: nDat.take nLen.toNat⟩).take 128) ↔
      nLen.toNat ≤ 121 := by
  have hparams : (MemAddr :: nDat.take nLen.toNat).length = nLen.toNat + 1 := by
    rw [List.length_cons, List.length_take]
    omega
  have hlt := nLen.toNat_lt
  rw [frame_take_iff, hparams]
  constructor
  · rintro (hle | ⟨hmod, -⟩)
    · omega
    · omega
  · intro hle
    exact .inl (by omega)

theorem frame_syncWrite_iff (ID : List UInt8) (MemAddr : UInt8) {nDat : List UInt8}
    (h : IDN.toNat * nLen.toNat ≤ nDat.length) :
    Frame ((Instruction.packet 0xfe
        (.syncWrite MemAddr nLen (syncTable ID nDat nLen 0 IDN.toNat))).bytes.take 128) ↔
      (Call.syncWrite ID IDN MemAddr nDat nLen).Framed := by
  let table := syncTable ID nDat nLen 0 IDN.toNat
  let p : Packet := ⟨0xfe, INST_SYNC_WRITE, MemAddr :: nLen :: unrows table⟩
  have hrows : (unrows table).length = IDN.toNat * (nLen.toNat + 1) := by
    rw [length_unrows (syncTable_regular (by rw [Nat.zero_add]; exact h)), length_syncTable]
  have hparams : p.params.length = IDN.toNat * (nLen.toNat + 1) + 2 := by
    rw [List.length_cons, List.length_cons, hrows]
  change Frame (p.bytes.take 128) ↔ _
  rw [frame_take_iff, hparams, Framed]
  by_cases hfit : IDN.toNat * (nLen.toNat + 1) ≤ 120
  · exact iff_of_true (.inl (by omega)) (.inl hfit)
  · rw [or_iff_right (by omega), or_iff_right hfit]
    have hmod : (IDN.toNat * (nLen.toNat + 1) + 2 + 2) % 256 = 124 ↔
        IDN.toNat * (nLen.toNat + 1) % 256 = 120 := by omega
    rw [hmod]
    apply and_congr_right
    intro hm
    have hLEN : UInt8.ofNat (p.params.length + 2) = 124 := by
      apply UInt8.toNat_inj.1
      rw [UInt8.toNat_ofNat', hparams, hmod.2 hm]
      rfl
    have hkept : (p.bytes.take 128).drop 2 =
        [0xfe, 124, INST_SYNC_WRITE, MemAddr, nLen] ++ (unrows table).take 121 := by
      have htable : (unrows table ++ [complement p.body]).take 121 = (unrows table).take 121 :=
        List.take_append_of_le_length (by omega)
      rw [← hLEN, ← htable]
      rfl
    rw [hkept]

theorem frame_iff_framed {c : Call} (h : c.Sized) : Frame (c.bytes.take 128) ↔ c.Framed := by
  have hfit (h : c.Fits) (hf : c.Framed) : Frame (c.bytes.take 128) ↔ c.Framed := by
    have hle := length_bytes_le h
    rw [bytes, length_bytes] at hle
    exact iff_of_true (frame_take_iff.2 (.inl (by omega))) hf
  cases c with
  | genWrite ID MemAddr nDat nLen => exact frame_write_iff ID MemAddr INST_WRITE h
  | regWrite ID MemAddr nDat nLen => exact frame_write_iff ID MemAddr INST_REG_WRITE h
  | syncWrite ID IDN MemAddr nDat nLen =>
    rw [bytes, request_syncWrite]
    exact frame_syncWrite_iff ID MemAddr h.2
  | _ => exact hfit trivial trivial

end Call

/-- Every call hands `Uart_Send` one piece, which is a frame exactly if the call is `Framed`. -/
theorem sent_frames_iff (cs : List (Call × List (Option UInt8))) (h : ∀ c ∈ cs, c.1.Sized) :
    ∃ b, runCalls {} cs = some b ∧ b.wBuf.bytes = [] ∧
      List.Forall₂ (fun c bytes => Frame bytes ↔ c.1.Framed) cs b.sent := by
  apply sent_of_runCalls h
  intro c hc
  exact Call.frame_iff_framed (h c hc)

def longWrites : List (Call × List (Option UInt8)) :=
  [(.syncWrite [1, 2] 2 42 [10, 11, 20, 21] 2, []),
    (.genWrite 1 42 (List.replicate 121 7) 121, []),
    (.regWrite 1 42 (List.replicate 122 7) 122, [])]

theorem longWrites_sent :
    ∃ b, runCalls {} longWrites = some b ∧ b.wBuf.bytes = [] ∧
      List.Forall₂ (fun c bytes => Frame bytes ↔ c.1.Framed) longWrites b.sent :=
  sent_frames_iff longWrites (by decide +kernel)

/-- One byte more than fits. -/
theorem truncated_frame_sent :
    ¬∀ r b, (genWrite 1 42 (List.replicate 122 7) 122).run {} = some (r, b) →
      ∀ bytes ∈ b.sent, Frame bytes := by
  intro h
  have hdat : (122 : UInt8).toNat ≤ (List.replicate 122 (7 : UInt8)).length := by
    rw [List.length_replicate]
    rfl
  obtain ⟨r, b, hrun, -, hsent⟩ :=
    hands_frame (writeBuf_some_emits 1 42 INST_WRITE hdat {}) (quiet_Ack 1)
  rw [List.nil_append] at hsent
  have hframe := h r b hrun _ (hsent ▸ List.mem_singleton_self _)
  exact absurd ((Call.frame_write_iff 1 42 INST_WRITE hdat).1 hframe) (by decide)

end RobotCar

import Mathlib.Logic.Function.Basic
import RobotCar.Hal
import RobotCar.Lib.Client

namespace RobotCar
open Concurrent
set_option autoImplicit true

open HAL_StatusTypeDef HAL_DMA_StateTypeDef

/-- The transmitter of `USART1` and its DMA stream, with the memory that the stream reads. -/
structure Sender where
  memory : Nat → UInt8 := fun _ => 0
  gState : HAL_UART_StateTypeDef := .READY
  pTxBuffPtr : Nat := 0
  TxXferSize : UInt16 := 0
  /-- the state of the DMA handle -/
  State : HAL_DMA_StateTypeDef := HAL_DMA_STATE_READY
  /-- the registers of the stream -/
  EN : Bool := false
  M0AR : Nat := 0
  NDTR : Nat := 0
  TCIF : Bool := false
  /-- the bits of the transmitter -/
  DMAT : Bool := false
  TCIE : Bool := false
  TC : Bool := true
  TDR : Option UInt8 := none
  shift : Option UInt8 := none
  line : List UInt8 := []

/-- What happens beside the task of the ROS client. -/
inductive SenderEvent where
  /-- the stream moves a byte to `TDR` -/
  | transfer
  /-- the byte in `TDR` is shifted out -/
  | load
  /-- its last bit is on the line -/
  | sent
  | DMA1_Stream1_IRQHandler
  | USART1_IRQHandler
  /-- another task writes to the memory -/
  | store (address : Nat) (byte : UInt8)

namespace Sender

/-- The end of a DMA transfer in normal mode: `EN` is cleared by the hardware. -/
def transfer (u : Sender) : Sender :=
  if u.EN = true ∧ u.DMAT = true ∧ u.TDR = none then
    { u with
      TDR := some (u.memory u.M0AR)
      TC := false
      M0AR := u.M0AR + 1
      NDTR := u.NDTR - 1
      EN := decide (u.NDTR ≠ 1)
      TCIF := decide (u.NDTR = 1) }
  else u

def load (u : Sender) : Sender :=
  if u.shift = none ∧ u.TDR ≠ none then { u with shift := u.TDR, TDR := none } else u

def sent (u : Sender) : Sender :=
  match u.shift with
  | some byte =>
    { u with line := u.line ++ [byte], shift := none, TC := if u.TDR = none then true else u.TC }
  | none => u

def UART_DMATransmitCplt (u : Sender) : Sender := { u with DMAT := false, TCIE := true }

def UART_EndTransmit_IT (u : Sender) : Sender :=
  { u with TCIE := false, gState := .READY }

def event (u : Sender) : SenderEvent → Sender
  | .transfer => u.transfer
  | .load => u.load
  | .sent => u.sent
  | .DMA1_Stream1_IRQHandler =>
    if u.TCIF then { u with TCIF := false, State := HAL_DMA_STATE_READY }.UART_DMATransmitCplt
    else u
  | .USART1_IRQHandler => if u.TC && u.TCIE then u.UART_EndTransmit_IT else u
  | .store address byte => { u with memory := Function.update u.memory address byte }

def bytes (u : Sender) (address count : Nat) : List UInt8 :=
  (List.range count).map fun i => u.memory (address + i)

end Sender

/-- The accesses of the write functions. -/
inductive SenderAccess where
  | gState
  | begin (pData : Nat) (Size : UInt16)
  | HAL_DMA_Start_IT
  | HAL_DMA_Abort
  | TCCF
  | DMAT
  | EndTxTransfer
  | ready
  | returned (buf len result : Nat)

def HAL_DMA_Start_IT (SrcAddress DataLength : Nat) :
    Task SenderAccess Sender HAL_StatusTypeDef :=
  Task.access .HAL_DMA_Start_IT
    (fun u =>
      if u.State = HAL_DMA_STATE_READY then
        { u with
          State := HAL_DMA_STATE_BUSY
          EN := true
          M0AR := SrcAddress
          NDTR := DataLength
          TCIF := false }
      else u)
    fun u => if u.State = HAL_DMA_STATE_READY then HAL_OK else HAL_BUSY

def HAL_UART_Transmit_DMA (pData : Nat) (Size : UInt16) :
    Task SenderAccess Sender HAL_StatusTypeDef := do
  if (← Task.read .gState Sender.gState) = .READY then
    if pData = 0 ∨ Size = 0 then pure HAL_ERROR
    else
      Task.update (.begin pData Size) fun u =>
        { u with pTxBuffPtr := pData, TxXferSize := Size, gState := .BUSY_TX }
      if (← HAL_DMA_Start_IT pData Size.toNat) ≠ HAL_OK then
        Task.update .gState fun u => { u with gState := .READY }
        pure HAL_ERROR
      else
        Task.update .TCCF fun u => { u with TC := false }
        Task.update .DMAT fun u => { u with DMAT := true }
        pure HAL_OK
  else pure HAL_BUSY

/-- `Size` has 16 bits. The loop waits until the interrupts have ended the transmission. -/
def cubemx_transport_write (buf len : Nat) : Task SenderAccess Sender Nat := do
  if (← Task.read .gState Sender.gState) = .READY then
    if (← HAL_UART_Transmit_DMA buf (UInt16.ofNat len)) = HAL_OK then
      Task.await .ready fun u => if u.gState = .READY then some u else none
      pure len
    else pure 0
  else pure 0

/-- A stream that moves data is stopped, and the flags that its interrupts have not served are
cleared. -/
def Sender.HAL_DMA_Abort (u : Sender) : Sender :=
  if u.State = HAL_DMA_STATE_BUSY then
    { u with EN := false, TCIF := false, State := HAL_DMA_STATE_READY }
  else u

/-- What `HAL_UART_DMAStop` does to a transmission. -/
def transmit_DMAStop : Task SenderAccess Sender Unit := do
  let gstate ← Task.read .gState Sender.gState
  let CR3 ← Task.read .DMAT Sender.DMAT
  if CR3 = true ∧ gstate = .BUSY_TX then
    Task.update .DMAT fun u => { u with DMAT := false }
    Task.update .HAL_DMA_Abort Sender.HAL_DMA_Abort
    Task.update .EndTxTransfer Sender.UART_EndTransmit_IT

inductive SenderCall where
  | write (buf len : Nat)
  | close

/-- The task of the ROS client makes one call after another. -/
def senderClient : Client SenderAccess Sender SenderCall SenderEvent where
  handler
    | .write buf len => do
      let result ← cubemx_transport_write buf len
      Task.read (.returned buf len result) fun _ => ()
    | .close => transmit_DMAStop
  env e u := u.event e

/-! ### What has been written -/

/-- A call that has returned, with the bytes that its buffer held when the transmission began. -/
structure WriteCall where
  buf : Nat
  len : Nat
  bytes : List UInt8
  result : Nat

/-- The result is the number of bytes that are sent, which are all of them. -/
def WriteCall.Kept (c : WriteCall) : Prop :=
  c.result = c.bytes.length ∧ (c.buf ≠ 0 → c.bytes.length = c.len)

structure Written where
  calls : List WriteCall := []
  /-- the bytes of the transmission at hand -/
  part : List UInt8 := []

namespace Written

def all (h : Written) : List UInt8 := (h.calls.map WriteCall.bytes).flatten

def watch : SenderAccess → Sender → Written → Written
  | .begin pData Size, u, h => { h with part := u.bytes pData Size.toNat }
  | .returned buf len result, _, h =>
    { calls := h.calls ++ [⟨buf, len, h.part, result⟩], part := [] }
  | .gState, _, h | .HAL_DMA_Start_IT, _, h | .HAL_DMA_Abort, _, h | .TCCF, _, h | .DMAT, _, h
  | .EndTxTransfer, _, h | .ready, _, h => h

end Written

def recordedSender : Client SenderAccess (Sender × Written) SenderCall SenderEvent :=
  senderClient.history Written.watch (fun _ _ h => h) fun _ _ h => h

/-- During a transmission no task writes to its buffer. -/
def Unshared (r : Sender × Written) : SenderEvent → Prop
  | .store address _ => r.1.gState = .READY ∨ address < r.1.pTxBuffPtr ∨
    r.1.pTxBuffPtr + r.1.TxXferSize.toNat ≤ address
  | _ => True

instance (r : Sender × Written) : (e : SenderEvent) → Decidable (Unshared r e)
  | .store _ _ => inferInstanceAs (Decidable (_ ∨ _ ∨ _))
  | .transfer | .load | .sent | .DMA1_Stream1_IRQHandler | .USART1_IRQHandler => instDecidableTrue

/-- The length fits into the 16 bits of `Size`. -/
def SenderCall.Short : SenderCall → Prop
  | .write _ len => len < 65536
  | .close => True

instance : (c : SenderCall) → Decidable c.Short
  | .write _ len => inferInstanceAs (Decidable (len < 65536))
  | .close => instDecidableTrue

/-! ### Bytes on their way -/

namespace Sender

variable {u : Sender}

theorem bytes_length (u : Sender) (a n : Nat) : (u.bytes a n).length = n := by
  rw [bytes, List.length_map, List.length_range]

theorem bytes_succ (u : Sender) (a n : Nat) :
    u.bytes a (n + 1) = u.memory a :: u.bytes (a + 1) n := by
  rw [bytes, List.range_succ_eq_map, List.map_cons, List.map_map, bytes]
  refine congrArg _ (List.map_congr_left fun i _ => ?_)
  change u.memory (a + (i + 1)) = u.memory (a + 1 + i)
  rw [Nat.add_right_comm, Nat.add_assoc]

theorem bytes_store {address : Nat} (h : address < a ∨ a + n ≤ address) (byte : UInt8) :
    (u.event (.store address byte)).bytes a n = u.bytes a n := by
  refine List.map_congr_left fun i hi => Function.update_of_ne ?_ _ _
  have hlt := List.mem_range.1 hi
  omega

/-- Nothing is on its way, and no interrupt is due. -/
structure Silent (u : Sender) : Prop where
  DMAT : u.DMAT = false
  TCIF : u.TCIF = false
  TCIE : u.TCIE = false
  TDR : u.TDR = none
  shift : u.shift = none

theorem Silent.event_cases (h : u.Silent) (e : SenderEvent) :
    u.event e = u ∨ ∃ address byte, e = .store address byte := by
  cases e with
  | transfer =>
    refine .inl (if_neg fun he => ?_)
    rw [h.DMAT] at he
    exact absurd he.2.1 Bool.false_ne_true
  | load =>
    refine .inl (if_neg fun he => ?_)
    exact he.2 h.TDR
  | sent =>
    left
    rw [event, sent, h.shift]
  | DMA1_Stream1_IRQHandler =>
    left
    rw [event, h.TCIF]
    rfl
  | USART1_IRQHandler =>
    left
    rw [event, h.TCIE, Bool.and_false]
    rfl
  | store address byte => exact .inr ⟨address, byte, rfl⟩

/-- The stream still has bytes to move, or its interrupt is due. -/
structure Transmits (u : Sender) : Prop where
  gState : u.gState = .BUSY_TX
  EN : u.EN = decide (u.NDTR ≠ 0)
  TCIF : u.TCIF = decide (u.NDTR = 0)
  DMAT : u.DMAT = true
  TCIE : u.TCIE = false

/-- The last byte is on its way. -/
structure Finishes (u : Sender) : Prop where
  gState : u.gState = .BUSY_TX
  State : u.State = HAL_DMA_STATE_READY
  NDTR : u.NDTR = 0
  TCIF : u.TCIF = false
  DMAT : u.DMAT = false
  TCIE : u.TCIE = true

theorem phase_congr {u' : Sender} (h : u.Transmits ∨ u.Finishes) (hgState : u'.gState = u.gState)
    (hState : u'.State = u.State) (hEN : u'.EN = u.EN) (hNDTR : u'.NDTR = u.NDTR)
    (hTCIF : u'.TCIF = u.TCIF) (hDMAT : u'.DMAT = u.DMAT) (hTCIE : u'.TCIE = u.TCIE) :
    u'.Transmits ∨ u'.Finishes := by
  rcases h with h | h
  · refine .inl ⟨hgState.trans h.gState, ?_, ?_, hDMAT.trans h.DMAT, hTCIE.trans h.TCIE⟩
    · rw [hEN, hNDTR, h.EN]
    · rw [hTCIF, hNDTR, h.TCIF]
  · exact .inr ⟨hgState.trans h.gState, hState.trans h.State, hNDTR.trans h.NDTR,
      hTCIF.trans h.TCIF, hDMAT.trans h.DMAT, hTCIE.trans h.TCIE⟩

end Sender

/-- What holds at each moment. -/
structure Writing (r : Sender × Written) : Prop where
  line : r.1.line <+: r.2.all ++ r.2.part
  calls : ∀ c ∈ r.2.calls, c.Kept

structure Finished (r : Sender × Written) : Prop where
  silent : r.1.Silent
  gState : r.1.gState = .READY
  State : r.1.State = HAL_DMA_STATE_READY
  line : r.1.line = r.2.all ++ r.2.part
  calls : ∀ c ∈ r.2.calls, c.Kept

/-- Between two calls. -/
structure BetweenCalls (r : Sender × Written) : Prop extends Finished r where
  part : r.2.part = []

/-- The transmission has begun, and the stream does not get requests yet. -/
structure Armed (st : HAL_DMA_StateTypeDef) (r : Sender × Written) : Prop where
  silent : r.1.Silent
  gState : r.1.gState = .BUSY_TX
  State : r.1.State = st
  stream : st = HAL_DMA_STATE_BUSY → r.1.EN = true ∧ r.1.M0AR = r.1.pTxBuffPtr ∧
    r.1.NDTR = r.1.TxXferSize.toNat
  TxXferSize : r.1.TxXferSize.toNat ≠ 0
  line : r.1.line = r.2.all
  part : r.2.part = r.1.bytes r.1.pTxBuffPtr r.1.TxXferSize.toNat
  calls : ∀ c ∈ r.2.calls, c.Kept

/-- The bytes are in the buffer, in the transmitter, or on the line. -/
structure Sending (r : Sender × Written) : Prop where
  bytes : r.1.line ++ r.1.shift.toList ++ r.1.TDR.toList ++ r.1.bytes r.1.M0AR r.1.NDTR =
    r.2.all ++ r.2.part
  within : r.1.pTxBuffPtr ≤ r.1.M0AR ∧
    r.1.M0AR + r.1.NDTR ≤ r.1.pTxBuffPtr + r.1.TxXferSize.toNat
  empty : r.1.TC = true → r.1.TDR = none ∧ r.1.shift = none
  phase : r.1.Transmits ∨ r.1.Finishes
  calls : ∀ c ∈ r.2.calls, c.Kept

variable {r r' : Sender × Written}

theorem Finished.writing (h : Finished r) : Writing r := ⟨h.line ▸ List.prefix_rfl, h.calls⟩

theorem Armed.writing (h : Armed st r) : Writing r := ⟨h.line ▸ List.prefix_append _ _, h.calls⟩

theorem Sending.writing (h : Sending r) : Writing r := by
  refine ⟨⟨r.1.shift.toList ++ r.1.TDR.toList ++ r.1.bytes r.1.M0AR r.1.NDTR, ?_⟩, h.calls⟩
  rw [← h.bytes, List.append_assoc, List.append_assoc, List.append_assoc]

theorem Sending.busy (h : Sending r) : r.1.gState = .BUSY_TX := by
  rcases h.phase with hp | hp
  · exact hp.gState
  · exact hp.gState

theorem Finished.event (h : Finished r) (e : SenderEvent) : Finished (r.1.event e, r.2) := by
  rcases h.silent.event_cases e with he | ⟨address, byte, rfl⟩
  · rw [he]
    exact h
  · exact ⟨⟨h.silent.DMAT, h.silent.TCIF, h.silent.TCIE, h.silent.TDR, h.silent.shift⟩, h.gState,
      h.State, h.line, h.calls⟩

theorem Armed.event (h : Armed st r) (e : SenderEvent) (he : Unshared r e) :
    Armed st (r.1.event e, r.2) := by
  rcases h.silent.event_cases e with hsame | ⟨address, byte, rfl⟩
  · rw [hsame]
    exact h
  · refine ⟨⟨h.silent.DMAT, h.silent.TCIF, h.silent.TCIE, h.silent.TDR, h.silent.shift⟩, h.gState,
      h.State, h.stream, h.TxXferSize, h.line, ?_, h.calls⟩
    have hout := he.resolve_left fun hready => by
      rw [h.gState] at hready
      cases hready
    exact h.part.trans (Sender.bytes_store hout byte).symm

/-- The stream moves a byte to `TDR`. -/
theorem Sending.transfer (h : Sending r) : Sending (r.1.transfer, r.2) := by
  rw [Sender.transfer]
  split
  · rename_i hmoves
    obtain ⟨hEN, hDMAT, hTDR⟩ := hmoves
    have hp : r.1.Transmits := h.phase.resolve_right fun hf => by
      rw [hf.DMAT] at hDMAT
      cases hDMAT
    have hne : r.1.NDTR ≠ 0 := of_decide_eq_true (hp.EN.symm.trans hEN)
    obtain ⟨n, hn⟩ := Nat.exists_eq_succ_of_ne_zero hne
    have hbytes := h.bytes
    have hwithin := h.within
    rw [hTDR, hn, Sender.bytes_succ] at hbytes
    rw [hn] at hwithin
    refine ⟨?_, ⟨Nat.le_succ_of_le hwithin.1, ?_⟩, nofun, .inl ⟨hp.gState, ?_, ?_, hDMAT, hp.TCIE⟩,
      h.calls⟩
    · rw [hn, ← hbytes]
      simp only [Option.toList, List.append_assoc, List.nil_append, List.cons_append]
      rfl
    · dsimp only
      rw [hn]
      omega
    · rw [hn]
      exact decide_eq_decide.2 (show n.succ ≠ 1 ↔ n.succ - 1 ≠ 0 by omega)
    · rw [hn]
      exact decide_eq_decide.2 (show n.succ = 1 ↔ n.succ - 1 = 0 by omega)
  · exact h

theorem Sending.load (h : Sending r) : Sending (r.1.load, r.2) := by
  rw [Sender.load]
  split
  · rename_i hmoves
    have hbytes := h.bytes
    rw [hmoves.1] at hbytes
    refine ⟨?_, h.within, fun hTC => absurd (h.empty hTC).1 hmoves.2,
      Sender.phase_congr h.phase rfl rfl rfl rfl rfl rfl rfl, h.calls⟩
    rw [← hbytes]
    simp only [Option.toList_none, List.append_nil]
    rfl
  · exact h

theorem Sending.sent (h : Sending r) : Sending (r.1.sent, r.2) := by
  rw [Sender.sent]
  cases hs : r.1.shift with
  | none => exact h
  | some byte =>
    have hbytes := h.bytes
    rw [hs] at hbytes
    refine ⟨?_, h.within, fun hTC => ?_, Sender.phase_congr h.phase rfl rfl rfl rfl rfl rfl rfl,
      h.calls⟩
    · rw [← hbytes]
      simp only [Option.toList_none, List.append_nil]
      rfl
    · dsimp only at hTC
      split at hTC
      · rename_i hTDR
        exact ⟨hTDR, rfl⟩
      · rename_i hTDR
        exact absurd (h.empty hTC).1 hTDR

theorem Sending.DMA1_Stream1_IRQHandler (h : Sending r) :
    Sending (r.1.event .DMA1_Stream1_IRQHandler, r.2) := by
  rw [Sender.event]
  split
  · rename_i hTCIF
    have hp : r.1.Transmits := h.phase.resolve_right fun hf => by
      rw [hf.TCIF] at hTCIF
      cases hTCIF
    have hNDTR : r.1.NDTR = 0 := of_decide_eq_true (hp.TCIF.symm.trans hTCIF)
    exact ⟨h.bytes, h.within, h.empty, .inr ⟨hp.gState, rfl, hNDTR, rfl, rfl, rfl⟩, h.calls⟩
  · exact h

/-- The transmission is complete only when the last byte has left the transmitter. -/
theorem Sending.USART1_IRQHandler (h : Sending r) :
    Sending (r.1.event .USART1_IRQHandler, r.2) ∨
      Finished (r.1.event .USART1_IRQHandler, r.2) := by
  rw [Sender.event]
  split
  · rename_i hdue
    rw [Bool.and_eq_true] at hdue
    have hp : r.1.Finishes := h.phase.resolve_left fun ht => by
      rw [ht.TCIE] at hdue
      cases hdue.2
    obtain ⟨hTDR, hshift⟩ := h.empty hdue.1
    have hbytes := h.bytes
    rw [hTDR, hshift, hp.NDTR] at hbytes
    simp only [Option.toList_none, List.append_nil] at hbytes
    have hline : r.1.line = r.2.all ++ r.2.part := (List.append_nil _).symm.trans hbytes
    exact .inr ⟨⟨hp.DMAT, hp.TCIF, rfl, hTDR, hshift⟩, rfl, hp.State, hline, h.calls⟩
  · exact .inl h

theorem Sending.event (h : Sending r) (e : SenderEvent) (he : Unshared r e) :
    Sending (r.1.event e, r.2) ∨ Finished (r.1.event e, r.2) := by
  cases e with
  | transfer => exact .inl h.transfer
  | load => exact .inl h.load
  | sent => exact .inl h.sent
  | DMA1_Stream1_IRQHandler => exact .inl h.DMA1_Stream1_IRQHandler
  | USART1_IRQHandler => exact h.USART1_IRQHandler
  | store address byte =>
    left
    have hout : address < r.1.M0AR ∨ r.1.M0AR + r.1.NDTR ≤ address := by
      have hwithin := h.within
      rcases he with hready | hlow | hhigh
      · rw [h.busy] at hready
        cases hready
      · exact .inl (Nat.lt_of_lt_of_le hlow hwithin.1)
      · exact .inr (Nat.le_trans hwithin.2 hhigh)
    refine ⟨?_, h.within, h.empty, Sender.phase_congr h.phase rfl rfl rfl rfl rfl rfl rfl, h.calls⟩
    rw [← h.bytes]
    exact congrArg _ (Sender.bytes_store hout byte)

/-! ### The calls -/

theorem finished_stable (r r' : Sender × Written) (h : Finished r)
    (he : recordedSender.Interference Unshared r r') : Finished r' := by
  obtain ⟨e, -, rfl⟩ := he
  exact h.event e

theorem betweenCalls_stable (r r' : Sender × Written) (h : BetweenCalls r)
    (he : recordedSender.Interference Unshared r r') : BetweenCalls r' := by
  have hf := finished_stable r r' h.toFinished he
  obtain ⟨e, -, rfl⟩ := he
  exact ⟨hf, h.part⟩

def Begins (st : HAL_DMA_StateTypeDef) (buf : Nat) (Size : UInt16) (r : Sender × Written) : Prop :=
  Armed st r ∧ r.1.pTxBuffPtr = buf ∧ r.1.TxXferSize = Size

theorem begins_stable (r r' : Sender × Written) (h : Begins st buf Size r)
    (he : recordedSender.Interference Unshared r r') : Begins st buf Size r' := by
  obtain ⟨e, hshared, rfl⟩ := he
  refine ⟨h.1.event e hshared, ?_⟩
  rcases h.1.silent.event_cases e with hsame | ⟨address, byte, rfl⟩
  · change (r.1.event e).pTxBuffPtr = buf ∧ (r.1.event e).TxXferSize = Size
    rw [hsame]
    exact h.2
  · exact h.2

/-- The transmission goes on, or is over. -/
def Proceeds (count : Nat) (r : Sender × Written) : Prop :=
  (Sending r ∨ Finished r) ∧ r.2.part.length = count

theorem proceeds_stable (r r' : Sender × Written) (h : Proceeds count r)
    (he : recordedSender.Interference Unshared r r') : Proceeds count r' := by
  obtain ⟨e, hshared, rfl⟩ := he
  refine ⟨?_, h.2⟩
  rcases h.1 with hs | hf
  · exact hs.event e hshared
  · exact .inr (hf.event e)

theorem Proceeds.writing (h : Proceeds count r) : Writing r := by
  rcases h.1 with hs | hf
  · exact hs.writing
  · exact hf.writing

theorem BetweenCalls.begin (h : BetweenCalls r) (buf : Nat) (hSize : Size.toNat ≠ 0) :
    Begins HAL_DMA_STATE_READY buf Size
      ({ r.1 with pTxBuffPtr := buf, TxXferSize := Size, gState := .BUSY_TX },
        Written.watch (.begin buf Size) r.1 r.2) := by
  have hline := h.line
  rw [h.part, List.append_nil] at hline
  exact ⟨⟨⟨h.silent.DMAT, h.silent.TCIF, h.silent.TCIE, h.silent.TDR, h.silent.shift⟩, rfl,
    h.State, nofun, hSize, hline, rfl, h.calls⟩, rfl, rfl⟩

theorem Begins.start (h : Begins HAL_DMA_STATE_READY buf Size r) :
    Begins HAL_DMA_STATE_BUSY buf Size ({ r.1 with
      State := HAL_DMA_STATE_BUSY
      EN := true
      M0AR := buf
      NDTR := Size.toNat
      TCIF := false }, r.2) := by
  obtain ⟨h, hbuf, hSize⟩ := h
  refine ⟨⟨⟨h.silent.DMAT, rfl, h.silent.TCIE, h.silent.TDR, h.silent.shift⟩, h.gState, rfl,
    fun _ => ⟨rfl, hbuf.symm, ?_⟩, h.TxXferSize, h.line, h.part, h.calls⟩, hbuf, hSize⟩
  exact congrArg UInt16.toNat hSize.symm

theorem Begins.clear (h : Begins st buf Size r) :
    Begins st buf Size ({ r.1 with TC := false }, r.2) := by
  obtain ⟨h, hbuf, hSize⟩ := h
  exact ⟨⟨⟨h.silent.DMAT, h.silent.TCIF, h.silent.TCIE, h.silent.TDR, h.silent.shift⟩, h.gState,
    h.State, h.stream, h.TxXferSize, h.line, h.part, h.calls⟩, hbuf, hSize⟩

theorem Begins.send (h : Begins HAL_DMA_STATE_BUSY buf Size r) :
    Proceeds Size.toNat ({ r.1 with DMAT := true }, r.2) := by
  obtain ⟨h, -, rfl⟩ := h
  obtain ⟨hEN, hM0AR, hNDTR⟩ := h.stream rfl
  have hne : r.1.NDTR ≠ 0 := hNDTR ▸ h.TxXferSize
  refine ⟨.inl ⟨?_, ⟨Nat.le_of_eq hM0AR.symm, ?_⟩, fun _ => ⟨h.silent.TDR, h.silent.shift⟩,
    .inl ⟨h.gState, ?_, ?_, rfl, h.silent.TCIE⟩, h.calls⟩, ?_⟩
  · dsimp only
    rw [h.silent.TDR, h.silent.shift, h.line, h.part, ← hM0AR, ← hNDTR]
    simp only [Option.toList_none, List.append_nil]
    rfl
  · exact Nat.le_of_eq (congrArg₂ (· + ·) hM0AR hNDTR)
  · exact hEN.trans (decide_eq_true hne).symm
  · exact h.silent.TCIF.trans (decide_eq_false hne).symm
  · rw [h.part, Sender.bytes_length]

def Transmitted (buf : Nat) (Size : UInt16) (ret : HAL_StatusTypeDef) (r : Sender × Written) :
    Prop :=
  ret = HAL_OK ∧ Proceeds Size.toNat r ∨
    ret = HAL_ERROR ∧ BetweenCalls r ∧ (buf = 0 ∨ Size = 0)

theorem HAL_UART_Transmit_DMA_safe (buf : Nat) (Size : UInt16) (h : BetweenCalls r) :
    Safe (recordedSender.Interference Unshared) Writing (Transmitted buf Size)
      ((HAL_UART_Transmit_DMA buf Size).history Written.watch) r := by
  rw [HAL_UART_Transmit_DMA, Task.history_bind]
  apply Safe.access betweenCalls_stable h fun _ h => h.writing
  intro r h
  rw [if_pos h.gState]
  split
  · rename_i hzero
    exact Safe.ret betweenCalls_stable h fun _ h => ⟨h.writing, .inr ⟨rfl, h, hzero⟩⟩
  rename_i hzero
  rw [not_or] at hzero
  have hSize : Size.toNat ≠ 0 := fun he => hzero.2 (UInt16.toNat_inj.1 he)
  rw [Task.history_bind]
  apply Safe.access betweenCalls_stable h fun _ h => h.writing
  intro r h
  rw [Task.history_bind]
  apply Safe.access begins_stable (h.begin buf hSize) fun _ h => h.1.writing
  intro r h
  have hState : r.1.State = HAL_DMA_STATE_READY := h.1.State
  have hret : ¬(if r.1.State = HAL_DMA_STATE_READY then HAL_OK else HAL_BUSY) ≠ HAL_OK :=
    not_not.2 (if_pos hState)
  rw [if_neg hret]
  dsimp only
  rw [if_pos hState, Task.history_bind]
  apply Safe.access begins_stable h.start fun _ h => h.1.writing
  intro r h
  rw [Task.history_bind]
  apply Safe.access begins_stable h.clear fun _ h => h.1.writing
  intro r h
  exact Safe.ret proceeds_stable h.send fun _ h => ⟨h.writing, .inl ⟨rfl, h⟩⟩

theorem Finished.return (h : Finished r) (hresult : result = r.2.part.length)
    (hlen : buf ≠ 0 → r.2.part.length = len) :
    BetweenCalls (r.1, Written.watch (.returned buf len result) r.1 r.2) := by
  refine ⟨⟨h.silent, h.gState, h.State, ?_, fun c hc => ?_⟩, rfl⟩
  · have hall : (Written.watch (.returned buf len result) r.1 r.2).all = r.2.all ++ r.2.part := by
      rw [Written.all, Written.watch, List.map_append, List.flatten_append]
      exact congrArg _ (List.append_nil _)
    dsimp only
    rw [hall]
    exact h.line.trans (List.append_nil _).symm
  · rcases List.mem_append.1 hc with hc | hc
    · exact h.calls c hc
    · rw [List.mem_singleton.1 hc]
      exact ⟨hresult, hlen⟩

/-- The task waits until the interrupts have ended the transmission. -/
theorem cubemx_transport_write_safe (buf : Nat) (hlen : len < 65536) (h : BetweenCalls r) :
    Safe (recordedSender.Interference Unshared) Writing
      (fun result r => Finished r ∧ result = r.2.part.length ∧ (buf ≠ 0 → r.2.part.length = len))
      ((cubemx_transport_write buf len).history Written.watch) r := by
  have hSize : (UInt16.ofNat len).toNat = len := UInt16.toNat_ofNat_of_lt' hlen
  have hnone (r : Sender × Written) (h : BetweenCalls r) (hzero : buf = 0 ∨ UInt16.ofNat len = 0) :
      Finished r ∧ 0 = r.2.part.length ∧ (buf ≠ 0 → r.2.part.length = len) := by
    refine ⟨h.toFinished, by rw [h.part]; rfl, fun hbuf => ?_⟩
    rw [h.part, ← hSize, hzero.resolve_left hbuf]
    rfl
  rw [cubemx_transport_write, Task.history_bind]
  apply Safe.access betweenCalls_stable h fun _ h => h.writing
  intro r h
  rw [if_pos h.gState, Task.history_bind]
  apply Safe.bind
  apply (HAL_UART_Transmit_DMA_safe buf (UInt16.ofNat len) h).mono fun _ h => h
  rintro ret r (⟨rfl, h⟩ | ⟨rfl, h, hzero⟩)
  · rw [if_pos rfl, Task.history_bind]
    apply Safe.atomic proceeds_stable h fun _ h => h.writing
    intro r r' h hready
    obtain ⟨u, hu, rfl⟩ := Option.map_eq_some_iff.1 hready
    dsimp only at hu
    split at hu
    · rename_i hidle
      cases hu
      have hf : Finished r := h.1.resolve_left fun hs => by
        rw [hs.busy] at hidle
        cases hidle
      have hlength : r.2.part.length = len := h.2.trans hSize
      refine Safe.ret (P := fun r => Finished r ∧ r.2.part.length = len) ?_ ⟨hf, hlength⟩ ?_
      · rintro r r' ⟨hf, hlength⟩ ⟨e, -, rfl⟩
        exact ⟨hf.event e, hlength⟩
      · exact fun r h => ⟨h.1.writing, h.1, h.2.symm, fun _ => h.2⟩
    · cases hu
  · rw [if_neg (nofun : HAL_ERROR ≠ HAL_OK)]
    exact Safe.ret betweenCalls_stable h fun r h => ⟨h.writing, hnone r h hzero⟩

theorem write_safe (buf : Nat) (hlen : len < 65536) (h : BetweenCalls r) :
    Safe (recordedSender.Interference Unshared) Writing (fun _ => BetweenCalls)
      (recordedSender.handler (.write buf len)) r := by
  change Safe _ _ _ (Task.history Written.watch (_ >>= _)) r
  rw [Task.history_bind]
  apply Safe.bind
  apply (cubemx_transport_write_safe buf hlen h).mono fun _ h => h
  rintro result r ⟨hf, hresult, hall⟩
  refine Safe.atomic (P := fun r => Finished r ∧ result = r.2.part.length ∧
    (buf ≠ 0 → r.2.part.length = len)) ?_ ⟨hf, hresult, hall⟩ (fun r h => h.1.writing) ?_
  · rintro r r' ⟨hf, hkept⟩ ⟨e, -, rfl⟩
    exact ⟨hf.event e, hkept⟩
  · rintro r r' ⟨hf, hresult, hall⟩ hr'
    cases hr'
    exact Safe.ret betweenCalls_stable (hf.return hresult hall) fun _ h => ⟨h.writing, h⟩

theorem transmit_DMAStop_safe (h : BetweenCalls r) :
    Safe (recordedSender.Interference Unshared) Writing (fun _ => BetweenCalls)
      (recordedSender.handler .close) r := by
  change Safe _ _ _ (Task.history Written.watch transmit_DMAStop) r
  rw [transmit_DMAStop, Task.history_bind]
  apply Safe.access betweenCalls_stable h fun _ h => h.writing
  intro r h
  rw [Task.history_bind]
  have hready : r.1.gState ≠ .BUSY_TX := by
    rw [h.gState]
    exact nofun
  apply Safe.access betweenCalls_stable h fun _ h => h.writing
  intro r' h
  rw [if_neg fun hbusy => hready hbusy.2]
  exact Safe.ret betweenCalls_stable h fun _ h => ⟨h.writing, h⟩

/-- Whatever the calls and the interrupts, the line has the bytes of the calls, one after another,
and all of them between two calls. A call returns the number of bytes that it has sent, which is its
length unless its buffer is null. -/
theorem all_written (es : List (Client.Event SenderCall SenderEvent))
    (hes : Transition.StepsMeet recordedSender.step (Client.Meets Unshared SenderCall.Short)
      (Client.start ({}, {})) es) :
    let k := recordedSender.run ({}, {}) es
    let u := k.shared.1
    let h := k.shared.2
    (∀ c ∈ h.calls, c.result = c.bytes.length ∧ (c.buf ≠ 0 → c.bytes.length = c.len)) ∧
      u.line <+: h.all ++ h.part ∧ (Client.Idle k → u.line = h.all) := by
  have hrecv (m : SenderCall) (r : Sender × Written) (hm : m.Short) (h : BetweenCalls r) :
      Safe (recordedSender.Interference Unshared) Writing (fun _ => BetweenCalls)
        (recordedSender.handler m) (recordedSender.arrive m r) := by
    cases m with
    | write buf len => exact write_safe buf hm h
    | close => exact transmit_DMAStop_safe h
  have hstart : BetweenCalls ({}, {}) := ⟨⟨⟨rfl, rfl, rfl, rfl, rfl⟩, rfl, rfl, rfl, nofun⟩, rfl⟩
  have hsafe := recordedSender.safe_of_meet
    (fun r e h he => betweenCalls_stable r _ h ⟨e, he, rfl⟩) (fun _ h => h.writing) hrecv hstart hes
  refine ⟨hsafe.holds.calls, hsafe.holds.line, ?_⟩
  rintro ⟨u, hu⟩
  rw [hu] at hsafe
  have hrests := (hsafe _ .refl).2
  rw [hrests.line, hrests.part, List.append_nil]

def oneCall : List (Client.Event SenderCall SenderEvent) :=
  [.env (.store 100 7), .env (.store 101 8), .recv (.write 100 2)] ++ List.replicate 6 .step ++
    [.env .transfer, .env .load, .step, .env .transfer, .env .sent, .env .DMA1_Stream1_IRQHandler,
      .env .USART1_IRQHandler, .env .load, .env .sent, .env .USART1_IRQHandler, .step, .step,
      .env (.store 100 9)]

theorem all_written_oneCall :
    let k := recordedSender.run ({}, {}) oneCall
    k.shared.1.line = [7, 8] ∧ k.shared.1.line = k.shared.2.all :=
  ⟨rfl, (all_written oneCall (by decide)).2.2 ⟨(), rfl⟩⟩

end RobotCar

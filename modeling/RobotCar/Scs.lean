import RobotCar.Lib.Task

namespace RobotCar
open Concurrent
set_option autoImplicit true

/-! ### The serial interface of the servo bus -/

theorem empty_fits : ([] : List UInt8).length ≤ 128 := by decide

/-- The first `wLen` bytes of the transmit buffer. -/
structure WBuf where
  bytes : List UInt8 := []
  wLen_le : bytes.length ≤ 128 := by exact empty_fits
  deriving DecidableEq

/-- What the bus functions share: the transmit buffer, what `Uart_Send` was handed, and the
bytes that arrive, where `none` is a time in which `Uart_Read` runs out of time. -/
structure Bus where
  wBuf : WBuf := {}
  sent : List (List UInt8) := []
  rx : List (Option UInt8) := []

/-- The single accesses to the bus. The write of a checksum ends a frame. -/
inductive BusAccess where
  | writeSCS
  | writeSCS_CheckSum
  | wFlushSCS
  | readSCS
  deriving DecidableEq, Repr

/-- Bytes beyond the end of the buffer are dropped. -/
def WBuf.write (w : WBuf) (nDat : List UInt8) : WBuf where
  bytes := w.bytes ++ nDat.take (128 - w.bytes.length)
  wLen_le := by
    have h := w.wLen_le
    rw [List.length_append, List.length_take]
    omega

def Bus.write (nDat : List UInt8) (b : Bus) : Bus := { b with wBuf := b.wBuf.write nDat }

def Bus.flush (b : Bus) : Bus :=
  if b.wBuf.bytes = [] then b else { b with sent := b.sent ++ [b.wBuf.bytes], wBuf := {} }

def writeSCS (nDat : List UInt8) : Task BusAccess Bus Unit := Task.update .writeSCS (Bus.write nDat)

def writeSCS_CheckSum (CheckSum : UInt8) : Task BusAccess Bus Unit :=
  Task.update .writeSCS_CheckSum (Bus.write [CheckSum])

def wFlushSCS : Task BusAccess Bus Unit := Task.update .wFlushSCS Bus.flush

/-- `len` bytes, or nothing when the time runs out before they have arrived. -/
def Uart_Read : Nat → List (Option UInt8) → Option (List UInt8) × List (Option UInt8)
  | 0, rx => (some [], rx)
  | _ + 1, [] => (none, [])
  | _ + 1, none :: rx => (none, rx)
  | len + 1, some b :: rx =>
    let (bytes, rx) := Uart_Read len rx
    (bytes.map (b :: ·), rx)

def readSCS (nLen : Nat) : Task BusAccess Bus (Option (List UInt8)) :=
  Task.access .readSCS (fun b => { b with rx := (Uart_Read nLen b.rx).2 })
    fun b => (Uart_Read nLen b.rx).1

/-! ### The servo protocol -/

def INST_PING : UInt8 := 0x01
def INST_READ : UInt8 := 0x02
def INST_WRITE : UInt8 := 0x03
def INST_REG_WRITE : UInt8 := 0x04
def INST_REG_ACTION : UInt8 := 0x05
def INST_SYNC_WRITE : UInt8 := 0x83

def Level : UInt8 := 1

def Host2SCS (Data : Int) (End : UInt8) : UInt8 × UInt8 :=
  if End ≠ 0 then (UInt8.ofInt (Data >>> (8 : Nat)), UInt8.ofInt Data)
  else (UInt8.ofInt Data, UInt8.ofInt (Data >>> (8 : Nat)))

/-- `nDat = none` is the null pointer. -/
def writeBuf (ID MemAddr : UInt8) (nDat : Option (List UInt8)) (nLen Fun : UInt8) :
    Task BusAccess Bus Unit :=
  match nDat with
  | some nDat => do
    let msgLen : UInt8 := 2 + (nLen + 1)
    writeSCS [0xff, 0xff, ID, msgLen, Fun, MemAddr]
    let CheckSum := (nDat.take nLen.toNat).foldl (· + ·) (ID + msgLen + Fun + MemAddr)
    writeSCS (nDat.take nLen.toNat)
    writeSCS_CheckSum (~~~CheckSum)
  | none => do
    let msgLen : UInt8 := 2
    writeSCS [0xff, 0xff, ID, msgLen, Fun]
    let CheckSum := ID + msgLen + Fun + MemAddr
    writeSCS_CheckSum (~~~CheckSum)

/-- At most so many bytes are read in search of two bytes `0xff`; `last` is the byte before. -/
def checkHead_loop : Nat → UInt8 → Task BusAccess Bus Bool
  | 0, _ => pure false
  | n + 1, last => do
    match ← readSCS 1 with
    | some [bDat] => if bDat = 0xff ∧ last = 0xff then pure true else checkHead_loop n bDat
    | _ => pure false

def checkHead : Task BusAccess Bus Bool := checkHead_loop 11 0

/-- The tests that `Ack` makes on the four bytes after the head. -/
def Ack_tests (ID : UInt8) : List UInt8 → Int
  | [b₀, b₁, b₂, b₃] =>
    if b₀ ≠ ID then 0 else if b₁ ≠ 2 then 0 else if ~~~(b₀ + b₁ + b₂) ≠ b₃ then 0 else 1
  | _ => 0

def Ack (ID : UInt8) : Task BusAccess Bus Int := do
  if ID ≠ 0xfe ∧ Level ≠ 0 then
    if ← checkHead then
      match ← readSCS 4 with
      | some bBuf => pure (Ack_tests ID bBuf)
      | none => pure 0
    else pure 0
  else pure 1

def genWrite (ID MemAddr : UInt8) (nDat : List UInt8) (nLen : UInt8) : Task BusAccess Bus Int := do
  writeBuf ID MemAddr (some nDat) nLen INST_WRITE
  wFlushSCS
  Ack ID

def regWrite (ID MemAddr : UInt8) (nDat : List UInt8) (nLen : UInt8) : Task BusAccess Bus Int := do
  writeBuf ID MemAddr (some nDat) nLen INST_REG_WRITE
  wFlushSCS
  Ack ID

def regAction (ID : UInt8) : Task BusAccess Bus Int := do
  writeBuf ID 0 none 0 INST_REG_ACTION
  wFlushSCS
  Ack ID

/-- The loop of `syncWrite` from servo `i` on, with `n` servos left. -/
def syncWrite_loop (ID nDat : List UInt8) (nLen : UInt8) : Nat → Nat → UInt8 →
    Task BusAccess Bus UInt8
  | 0, _, Sum => pure Sum
  | n + 1, i, Sum => do
    let slice := (nDat.drop (i * nLen.toNat)).take nLen.toNat
    writeSCS [ID.getD i 0]
    writeSCS slice
    syncWrite_loop ID nDat nLen n (i + 1) (slice.foldl (· + ·) (Sum + ID.getD i 0))

def syncWrite (ID : List UInt8) (IDN MemAddr : UInt8) (nDat : List UInt8) (nLen : UInt8) :
    Task BusAccess Bus Unit := do
  let mesLen := (nLen + 1) * IDN + 4
  writeSCS [0xff, 0xff, 0xfe, mesLen, INST_SYNC_WRITE, MemAddr, nLen]
  let Sum ← syncWrite_loop ID nDat nLen IDN.toNat 0
    (0xfe + mesLen + INST_SYNC_WRITE + MemAddr + nLen)
  writeSCS_CheckSum (~~~Sum)
  wFlushSCS

def writeByte (ID MemAddr bDat : UInt8) : Task BusAccess Bus Int := do
  writeBuf ID MemAddr (some [bDat]) 1 INST_WRITE
  wFlushSCS
  Ack ID

def writeWord (ID MemAddr : UInt8) (wDat : UInt16) (End : UInt8) : Task BusAccess Bus Int := do
  let buf := Host2SCS wDat.toNat End
  writeBuf ID MemAddr (some [buf.1, buf.2]) 2 INST_WRITE
  wFlushSCS
  Ack ID

/-- The second half of `Read`: the size that it returns, with the bytes it leaves in `nData`. -/
def Read_reply (nLen : UInt8) : Task BusAccess Bus (Int × List UInt8) := do
  if ← checkHead then
    match ← readSCS 3 with
    | none => pure (0, [])
    | some bBuf =>
      match ← readSCS nLen.toNat with
      | none => pure (0, [])
      | some nData =>
        match ← readSCS 1 with
        | some [check] =>
          let calSum := ~~~(nData.foldl (· + ·) (bBuf.foldl (· + ·) 0))
          if calSum ≠ check then pure (0, nData) else pure (nLen.toNat, nData)
        | _ => pure (0, nData)
  else pure (0, [])

def Read (ID MemAddr nLen : UInt8) : Task BusAccess Bus (Int × List UInt8) := do
  writeBuf ID MemAddr (some [nLen]) 1 INST_READ
  wFlushSCS
  Read_reply nLen

def readByte (ID MemAddr : UInt8) : Task BusAccess Bus Int := do
  let (Size, bDat) ← Read ID MemAddr 1
  if Size ≠ 1 then pure (-1) else pure (bDat.getD 0 0).toNat

def SCS2Host (DataL DataH End : UInt8) : Nat :=
  if End ≠ 0 then (DataL.toNat <<< 8) ||| DataH.toNat else (DataH.toNat <<< 8) ||| DataL.toNat

def readWord (ID MemAddr End : UInt8) : Task BusAccess Bus Int := do
  let (Size, nDat) ← Read ID MemAddr 2
  if Size ≠ 2 then pure (-1)
  else
    let wDat := UInt16.ofNat (SCS2Host (nDat.getD 0 0) (nDat.getD 1 0) End)
    pure wDat.toNat

/-- The tests that `Ping` makes on the four bytes after the head. -/
def Ping_tests (ID : UInt8) : List UInt8 → Int
  | [b₀, b₁, b₂, b₃] =>
    if b₀ ≠ ID ∧ ID ≠ 0xfe then -1
    else if b₁ ≠ 2 then -1 else if ~~~(b₀ + b₁ + b₂) ≠ b₃ then -1 else b₀.toNat
  | _ => -1

def Ping_reply (ID : UInt8) : Task BusAccess Bus Int := do
  if ← checkHead then
    match ← readSCS 4 with
    | some bBuf => pure (Ping_tests ID bBuf)
    | none => pure (-1)
  else pure (-1)

def Ping (ID : UInt8) : Task BusAccess Bus Int := do
  writeBuf ID 0 none 0 INST_PING
  wFlushSCS
  Ping_reply ID

/-! ### Position commands -/

def SCSCL_GOAL_POSITION_L : UInt8 := 42

def SMSBCL_ACC : UInt8 := 41

def WritePosSCS (ID : UInt8) (Position Time Speed : UInt16) : Task BusAccess Bus Int :=
  let position := Host2SCS Position.toNat 1
  let time := Host2SCS Time.toNat 1
  let speed := Host2SCS Speed.toNat 1
  genWrite ID SCSCL_GOAL_POSITION_L
    [position.1, position.2, time.1, time.2, speed.1, speed.2] 6

def WritePosSTS (ID : UInt8) (Position : Int16) (Speed : UInt16) (ACC : UInt8) :
    Task BusAccess Bus Int :=
  let Position := if Position < 0 then -Position ||| (1 : Int16) <<< 15 else Position
  let position := Host2SCS Position.toInt 0
  let zero := Host2SCS 0 0
  let speed := Host2SCS Speed.toNat 0
  genWrite ID SMSBCL_ACC [ACC, position.1, position.2, zero.1, zero.2, speed.1, speed.2] 7

end RobotCar

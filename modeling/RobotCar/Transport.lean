import RobotCar.Lib.Client
import RobotCar.Lib.Ring

namespace RobotCar
open Concurrent
set_option autoImplicit true

abbrev UART_DMA_BUFFER_SIZE : Nat := 2048

instance neZero_UART_DMA_BUFFER_SIZE : NeZero UART_DMA_BUFFER_SIZE := ⟨by decide⟩

/-- The accesses of the transport functions to the receiver and to their shared variables. -/
inductive TransportAccess where
  | open
  | close
  | sample
  | compare
  | load
  /-- The byte has been stored in the caller's buffer. -/
  | advance (byte : UInt8)
  | returned (len : Nat) (buf : List UInt8)

/-- The receive ring, and the receiver that fills it. -/
structure Transport where
  dma_buffer : Fin UART_DMA_BUFFER_SIZE → UInt8 := fun _ => 0
  dma_head : Fin UART_DMA_BUFFER_SIZE := 0
  dma_tail : Nat := 0
  /-- The receiver runs. -/
  running : Bool := false
  /-- The bytes received since it was started. -/
  received : Nat := 0

namespace Transport

def position (t : Transport) : Fin UART_DMA_BUFFER_SIZE :=
  Ring.slot UART_DMA_BUFFER_SIZE t.received

/-- The down-counter of the receiver. -/
def HAL_DMA_GET_COUNTER (t : Transport) : Nat :=
  UART_DMA_BUFFER_SIZE - t.received % UART_DMA_BUFFER_SIZE

/-- The receiver starts at the first cell of the ring. -/
def HAL_UART_Receive_DMA (t : Transport) : Transport := { t with running := true, received := 0 }

def HAL_UART_DMAStop (t : Transport) : Transport := { t with running := false }

/-- A byte arrives on the line. -/
def arrival (byte : UInt8) (t : Transport) : Transport :=
  if t.running then
    { t with
      dma_buffer := Function.update t.dma_buffer t.position byte
      received := t.received + 1 }
  else t

theorem tail_eq_position (t : Transport) :
    UART_DMA_BUFFER_SIZE - t.HAL_DMA_GET_COUNTER = t.position := by
  have hlt : t.received % UART_DMA_BUFFER_SIZE < UART_DMA_BUFFER_SIZE :=
    Nat.mod_lt _ (by decide)
  exact Nat.sub_sub_self (Nat.le_of_lt hlt)

end Transport

def cubemx_transport_open : Task TransportAccess Transport Unit :=
  Task.update .open Transport.HAL_UART_Receive_DMA

def cubemx_transport_close : Task TransportAccess Transport Unit :=
  Task.update .close Transport.HAL_UART_DMAStop

def sample_tail : Task TransportAccess Transport Unit :=
  Task.update .sample fun t => { t with dma_tail := UART_DMA_BUFFER_SIZE - t.HAL_DMA_GET_COUNTER }

def ring_empty : Task TransportAccess Transport Bool :=
  Task.read .compare fun t => t.dma_head.val = t.dma_tail

/-- The first loop of `cubemx_transport_read`, with the turns that `timeout` leaves after the one
at hand. -/
def wait_data : Nat → Task TransportAccess Transport Unit
  | 0 => do
    sample_tail
    -- the comparison of the last turn decides nothing: `ms_used` has come to `timeout`
    let _ ← ring_empty
  | turns + 1 => do
    sample_tail
    if ← ring_empty then wait_data turns

/-- The second one, with the room that `len` leaves in the buffer. -/
def copy_data : Nat → List UInt8 → Task TransportAccess Transport (List UInt8)
  | 0, buf => do
    let _ ← ring_empty
    pure buf
  | room + 1, buf => do
    if ← ring_empty then pure buf
    else
      let byte ← Task.read .load fun t => t.dma_buffer t.dma_head
      Task.update (.advance byte) fun t => { t with dma_head := t.dma_head + 1 }
      copy_data room (buf ++ [byte])

/-- The bytes in the caller's buffer; their number is the result of the function. -/
def cubemx_transport_read (len : Nat) (timeout : Int) :
    Task TransportAccess Transport (List UInt8) := do
  wait_data (timeout - 1).toNat
  copy_data len []

inductive TransportCall where
  | open
  | close
  | read (len : Nat) (timeout : Int)

/-- The task of the ROS client makes one call after another, while bytes keep arriving. -/
def transportClient : Client TransportAccess Transport TransportCall UInt8 where
  handler
    | .open => cubemx_transport_open
    | .close => cubemx_transport_close
    | .read len timeout => do
      let buf ← cubemx_transport_read len timeout
      Task.read (.returned len buf) fun _ => ()
  env := Transport.arrival

end RobotCar

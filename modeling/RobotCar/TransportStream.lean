import Mathlib.Data.List.Infix
import RobotCar.Transport

namespace RobotCar
open Concurrent
set_option autoImplicit true

/-! ### What a session has received and returned -/

structure Stream where
  bytes : List UInt8 := []
  /-- The calls that have returned, each with its `len` and its buffer. -/
  calls : List (Nat × List UInt8) := []
  /-- What the call at hand has stored in its buffer. -/
  copied : List UInt8 := []

namespace Stream

def returned (h : Stream) : List UInt8 := (h.calls.map Prod.snd).flatten

def taken (h : Stream) : List UInt8 := h.returned ++ h.copied

def watch : TransportAccess → Transport → Stream → Stream
  | .advance byte, _, h => { h with copied := h.copied ++ [byte] }
  | .returned len buf, _, h => { h with calls := h.calls ++ [(len, buf)], copied := [] }
  | .open, _, h | .close, _, h | .sample, _, h | .compare, _, h | .load, _, h => h

def arrival (byte : UInt8) (t : Transport) (h : Stream) : Stream :=
  if t.running then { h with bytes := h.bytes ++ [byte] } else h

end Stream

def recordedStream : Client TransportAccess (Transport × Stream) TransportCall UInt8 :=
  transportClient.history Stream.watch Stream.arrival fun _ _ h => h

def TransportCall.IsRead : TransportCall → Prop
  | .read _ _ => True
  | .open | .close => False

instance : (c : TransportCall) → Decidable c.IsRead
  | .read _ _ => instDecidableTrue
  | .open | .close => instDecidableFalse

/-- The ring has room for a byte: 2047 are not unread yet. -/
def HasRoom (r : Transport × Stream) (_ : UInt8) : Prop :=
  r.2.bytes.length < r.2.taken.length + 2047

instance (r : Transport × Stream) (byte : UInt8) : Decidable (HasRoom r byte) :=
  inferInstanceAs (Decidable (_ < _))

/-! ### The ring as a queue -/

/-- The ring holds what has been received and not been taken. -/
structure Delivering (r : Transport × Stream) : Prop where
  running : r.1.running = true
  received : r.1.received = r.2.bytes.length
  head : r.1.dma_head = Ring.slot UART_DMA_BUFFER_SIZE r.2.taken.length
  taken : r.2.taken <+: r.2.bytes
  room : r.2.bytes.length < r.2.taken.length + UART_DMA_BUFFER_SIZE
  holds : Ring.Holds r.1.dma_buffer r.2.bytes r.2.taken.length
  within : ∀ call ∈ r.2.calls, call.2.length ≤ call.1

/-- The sampled tail is a position that the stream has reached, `n` or a later one. -/
def Sampled (n : Nat) (r : Transport × Stream) : Prop :=
  ∃ m, r.1.dma_tail = (Ring.slot UART_DMA_BUFFER_SIZE m).val ∧ n ≤ m ∧ m ≤ r.2.bytes.length

theorem Delivering.congr (h : Delivering r) (hrunning : r'.1.running = r.1.running)
    (hreceived : r'.1.received = r.1.received) (hhead : r'.1.dma_head = r.1.dma_head)
    (hbuffer : r'.1.dma_buffer = r.1.dma_buffer) (hhistory : r'.2 = r.2) : Delivering r' := by
  obtain ⟨h₁, h₂, h₃, h₄, h₅, h₆, h₇⟩ := h
  constructor <;> simp only [hrunning, hreceived, hhead, hbuffer, hhistory] <;> assumption

theorem Delivering.window (h : Delivering r) :
    r.2.bytes =
      r.2.taken ++ Ring.window r.1.dma_buffer r.1.dma_head r.1.position := by
  rw [Transport.position, h.head, h.received, h.holds.window_eq h.taken.length_le h.room]
  exact (List.prefix_iff_eq_append.1 h.taken).symm

theorem arrival_of_running (byte : UInt8) {r : Transport × Stream} (h : r.1.running = true) :
    recordedStream.env byte r =
      ({ r.1 with
          dma_buffer := Function.update r.1.dma_buffer r.1.position byte
          received := r.1.received + 1 }, { r.2 with bytes := r.2.bytes ++ [byte] }) := by
  change (r.1.arrival byte, r.2.arrival byte r.1) = _
  rw [Transport.arrival, Stream.arrival, if_pos h, if_pos h]

theorem Delivering.arrival (h : Delivering r) (hroom : HasRoom r byte) :
    Delivering (recordedStream.env byte r) := by
  have hlt : r.2.bytes.length < r.2.taken.length + 2047 := hroom
  rw [arrival_of_running byte h.running]
  refine ⟨h.running, ?_, h.head, h.taken.trans (List.prefix_append _ _), ?_, ?_, h.within⟩
  · rw [List.length_append, List.length_singleton]
    exact congrArg (· + 1) h.received
  · change (r.2.bytes ++ [byte]).length < r.2.taken.length + 2048
    rw [List.length_append, List.length_singleton]
    omega
  · change Ring.Holds (Function.update _ (Ring.slot _ r.1.received) byte) _ _
    rw [h.received]
    exact h.holds.push h.room byte

theorem Sampled.arrival (h : Sampled n r) (hr : r.1.running = true) :
    Sampled n (recordedStream.env byte r) := by
  obtain ⟨m, htail, hn, hm⟩ := h
  rw [arrival_of_running byte hr]
  refine ⟨m, htail, hn, hm.trans ?_⟩
  rw [List.length_append]
  exact Nat.le_add_right _ _

/-- The comparison of the indices tells whether the sample is the next byte to be taken. -/
theorem Delivering.empty_iff (h : Delivering r) (hm : r.1.dma_tail =
    (Ring.slot UART_DMA_BUFFER_SIZE m).val) (hle : r.2.taken.length ≤ m)
    (hb : m ≤ r.2.bytes.length) : r.1.dma_head.val = r.1.dma_tail ↔ r.2.taken.length = m := by
  rw [hm, h.head, ← Fin.ext_iff]
  exact Ring.slot_eq_iff hle (Nat.lt_of_le_of_lt hb h.room)

/-! ### The loops of a read -/

/-- A call has started, and `buf` is in its buffer. -/
def Reading (buf : List UInt8) (r : Transport × Stream) : Prop :=
  Delivering r ∧ r.2.copied = buf

/-- The same with a sampled tail. -/
def Copying (buf : List UInt8) (r : Transport × Stream) : Prop :=
  Reading buf r ∧ Sampled r.2.taken.length r

/-- The comparison has found a byte to load. -/
def Found (buf : List UInt8) (r : Transport × Stream) : Prop :=
  Copying buf r ∧ r.1.dma_head.val ≠ r.1.dma_tail

structure Loaded (byte : UInt8) (buf : List UInt8) (r : Transport × Stream) : Prop where
  reading : Reading buf r
  next : r.2.taken ++ [byte] <+: r.2.bytes
  sampled : Sampled (r.2.taken.length + 1) r

theorem reading_stable (r r' : Transport × Stream) (h : Reading buf r)
    (he : recordedStream.Interference HasRoom r r') : Reading buf r' := by
  obtain ⟨byte, hroom, rfl⟩ := he
  refine ⟨h.1.arrival hroom, ?_⟩
  rw [arrival_of_running byte h.1.running]
  exact h.2

theorem copying_stable (r r' : Transport × Stream) (h : Copying buf r)
    (he : recordedStream.Interference HasRoom r r') : Copying buf r' := by
  have hr := reading_stable r r' h.1 he
  obtain ⟨byte, hroom, rfl⟩ := he
  refine ⟨hr, ?_⟩
  have htaken : (recordedStream.env byte r).2.taken = r.2.taken := by
    rw [arrival_of_running byte h.1.1.running]
    rfl
  rw [htaken]
  exact h.2.arrival h.1.1.running

theorem found_stable (r r' : Transport × Stream) (h : Found buf r)
    (he : recordedStream.Interference HasRoom r r') : Found buf r' := by
  have hr := copying_stable r r' h.1 he
  obtain ⟨byte, hroom, rfl⟩ := he
  refine ⟨hr, ?_⟩
  rw [arrival_of_running byte h.1.1.1.running]
  exact h.2

theorem loaded_stable (r r' : Transport × Stream) (h : Loaded byte buf r)
    (he : recordedStream.Interference HasRoom r r') : Loaded byte buf r' := by
  have hr := reading_stable r r' h.reading he
  obtain ⟨new, hroom, rfl⟩ := he
  have hrunning := h.reading.1.running
  have hbytes := arrival_of_running new hrunning
  refine ⟨hr, ?_, ?_⟩
  · rw [hbytes]
    exact h.next.trans (List.prefix_append _ _)
  · have htaken : (recordedStream.env new r).2.taken = r.2.taken := by
      rw [hbytes]
      rfl
    rw [htaken]
    exact h.sampled.arrival hrunning

theorem Reading.sample (h : Reading buf r) :
    Copying buf ({ r.1 with dma_tail := UART_DMA_BUFFER_SIZE - r.1.HAL_DMA_GET_COUNTER },
      r.2) := by
  refine ⟨⟨h.1.congr rfl rfl rfl rfl rfl, h.2⟩, r.2.bytes.length, ?_, h.1.taken.length_le, le_rfl⟩
  rw [← h.1.received]
  exact r.1.tail_eq_position

theorem Found.load (h : Found buf r) : Loaded (r.1.dma_buffer r.1.dma_head) buf r := by
  obtain ⟨⟨⟨hd, hbuf⟩, m, htail, hle, hm⟩, hne⟩ := h
  have hlt : r.2.taken.length < m :=
    Nat.lt_of_le_of_ne hle fun he => hne ((hd.empty_iff htail hle hm).2 he)
  refine ⟨⟨hd, hbuf⟩, ?_, m, htail, hlt, hm⟩
  have hbyte : r.1.dma_buffer r.1.dma_head = r.2.bytes[r.2.taken.length] := by
    rw [hd.head]
    exact hd.holds _ _ le_rfl
  rw [hbyte]
  exact List.concat_get_prefix hd.taken (Nat.lt_of_lt_of_le hlt hm)

theorem Loaded.advance (h : Loaded byte buf r) :
    Copying (buf ++ [byte]) ({ r.1 with dma_head := r.1.dma_head + 1 },
      { r.2 with copied := r.2.copied ++ [byte] }) := by
  obtain ⟨⟨hd, hbuf⟩, hnext, hs⟩ := h
  have htaken : Stream.taken { r.2 with copied := r.2.copied ++ [byte] } = r.2.taken ++ [byte] :=
    (List.append_assoc _ _ _).symm
  have hlen : (r.2.taken ++ [byte]).length = r.2.taken.length + 1 := by
    rw [List.length_append, List.length_singleton]
  refine ⟨⟨⟨hd.running, hd.received, ?_, ?_, ?_, ?_, hd.within⟩, ?_⟩, ?_⟩
  · rw [htaken, hlen, Ring.slot_succ, ← hd.head]
  · rw [htaken]
    exact hnext
  · rw [htaken, hlen]
    exact Nat.lt_of_lt_of_le hd.room (by omega)
  · rw [htaken, hlen]
    exact hd.holds.mono (Nat.le_succ _)
  · exact congrArg (· ++ [byte]) hbuf
  · rw [htaken, hlen]
    exact hs

/-- Until the call returns, its buffer is part of what has been taken. -/
theorem Reading.return (h : Reading buf r) (hlen : buf.length ≤ len) :
    Reading [] (r.1, { r.2 with calls := r.2.calls ++ [(len, buf)], copied := [] }) := by
  obtain ⟨hd, hbuf⟩ := h
  have htaken : Stream.taken { r.2 with calls := r.2.calls ++ [(len, buf)], copied := [] } =
      r.2.taken := by
    rw [Stream.taken, Stream.taken, Stream.returned, Stream.returned, hbuf, List.append_nil,
      List.map_append, List.flatten_append]
    exact congrArg _ (List.append_nil buf)
  refine ⟨⟨hd.running, hd.received, ?_, ?_, ?_, ?_, ?_⟩, rfl⟩
  · rw [htaken]
    exact hd.head
  · rw [htaken]
    exact hd.taken
  · rw [htaken]
    exact hd.room
  · rw [htaken]
    exact hd.holds
  · intro call hcall
    rcases List.mem_append.1 hcall with hcall | hcall
    · exact hd.within call hcall
    · rw [List.mem_singleton.1 hcall]
      exact hlen

theorem wait_data_safe (turns : Nat) {r : Transport × Stream} (h : Reading buf r) :
    Safe (recordedStream.Interference HasRoom) Delivering (fun _ => Copying buf)
      ((wait_data turns).history Stream.watch) r := by
  induction turns generalizing r with
  | zero =>
    apply Safe.access reading_stable h fun _ h => h.1
    intro r h
    apply Safe.access copying_stable h.sample fun _ h => h.1.1
    intro r h
    exact Safe.ret copying_stable h fun _ h => ⟨h.1.1, h⟩
  | succ turns ih =>
    rw [wait_data, Task.history_bind]
    apply Safe.access reading_stable h fun _ h => h.1
    intro r h
    rw [Task.history_bind]
    apply Safe.access copying_stable h.sample fun _ h => h.1.1
    intro r h
    split
    · exact ih h.1
    · exact Safe.ret copying_stable h fun _ h => ⟨h.1.1, h⟩

theorem copy_data_safe (room : Nat) {r : Transport × Stream} (h : Copying buf r)
    (hlen : buf.length + room ≤ len) :
    Safe (recordedStream.Interference HasRoom) Delivering
      (fun buf r => Reading buf r ∧ buf.length ≤ len)
      ((copy_data room buf).history Stream.watch) r := by
  induction room generalizing buf r with
  | zero =>
    rw [copy_data, Task.history_bind]
    apply Safe.access copying_stable h fun _ h => h.1.1
    intro r h
    exact Safe.ret copying_stable h fun _ h => ⟨h.1.1, h.1, hlen⟩
  | succ room ih =>
    rw [copy_data, Task.history_bind]
    apply Safe.access copying_stable h fun _ h => h.1.1
    intro r h
    by_cases he : r.1.dma_head.val = r.1.dma_tail
    · rw [if_pos (decide_eq_true he)]
      exact Safe.ret copying_stable h fun _ h => ⟨h.1.1, h.1, (Nat.le_add_right _ _).trans hlen⟩
    · rw [if_neg fun hd => he (of_decide_eq_true hd), Task.history_bind]
      apply Safe.access found_stable ⟨h, he⟩ fun _ h => h.1.1.1
      intro r h
      rw [Task.history_bind]
      apply Safe.access loaded_stable h.load fun _ h => h.reading.1
      intro r h
      apply ih h.advance
      rw [List.length_append, List.length_singleton]
      omega

theorem read_safe (len : Nat) (timeout : Int) {r : Transport × Stream} (h : Reading [] r) :
    Safe (recordedStream.Interference HasRoom) Delivering (fun _ => Reading [])
      (recordedStream.handler (.read len timeout)) r := by
  change Safe _ _ _ (Task.history Stream.watch (_ >>= _)) r
  rw [Task.history_bind, cubemx_transport_read, Task.history_bind]
  apply Safe.bind
  apply Safe.bind
  apply (wait_data_safe _ h).mono fun _ h => h
  intro _ r h
  apply (copy_data_safe len h (Nat.le_of_eq (Nat.zero_add len))).mono fun _ h => h
  rintro buf r ⟨h, hlen⟩
  apply Safe.access reading_stable h fun _ h => h.1
  intro r h
  exact Safe.ret reading_stable (h.return hlen) fun _ h => ⟨h.1, h⟩

theorem open_reading {t : Transport} (h : t.dma_head = 0) :
    Reading [] (cubemx_transport_open.exec t, {}) :=
  ⟨⟨rfl, rfl, h, List.nil_prefix, Nat.zero_lt_succ 2047, Ring.holds_nil _ _, nofun⟩, rfl⟩

/-- During a session the calls return the received bytes in order, and what they have not returned
is between the head and the position of the receiver, or in the buffer of the call at hand. -/
theorem stream_delivered (t : Transport) (ht : t.dma_head = 0)
    (es : List (Client.Event TransportCall UInt8))
    (hes : Transition.StepsMeet recordedStream.step (Client.Meets HasRoom TransportCall.IsRead)
      (Client.start (cubemx_transport_open.exec t, {})) es) :
    let k := recordedStream.run (cubemx_transport_open.exec t, {}) es
    let ⟨t', h⟩ := k.shared
    h.returned <+: h.bytes ∧ (∀ call ∈ h.calls, call.2.length ≤ call.1) ∧
      h.bytes =
        h.returned ++ h.copied ++ Ring.window t'.dma_buffer t'.dma_head t'.position ∧
      (Client.Idle k → h.copied = []) := by
  have hrecv (c : TransportCall) (r : Transport × Stream) (hc : c.IsRead) (h : Reading [] r) :
      Safe (recordedStream.Interference HasRoom) Delivering (fun _ => Reading [])
        (recordedStream.handler c) (recordedStream.arrive c r) := by
    cases c with
    | read len timeout => exact read_safe len timeout h
    | «open» => exact hc.elim
    | close => exact hc.elim
  have hsafe := recordedStream.safe_of_meet
    (fun r byte h hroom => reading_stable r _ h ⟨byte, hroom, rfl⟩) (fun _ h => h.1) hrecv
    (open_reading ht) hes
  have hd := hsafe.holds
  refine ⟨(List.prefix_append _ _).trans hd.taken, hd.within, hd.window, ?_⟩
  rintro ⟨u, hu⟩
  rw [hu] at hsafe
  exact (hsafe _ .refl).2.2

def firstRead : List (Client.Event TransportCall UInt8) :=
  [.env 7, .recv (.read 4 1), .step, .env 8] ++ List.replicate 6 .step

theorem firstRead_delivered :
    let h := (recordedStream.run (cubemx_transport_open.exec {}, {}) firstRead).shared.2
    h.calls = [(4, [7])] ∧ h.bytes = [7, 8] ∧ h.returned <+: h.bytes :=
  ⟨by decide +kernel, by decide +kernel, (stream_delivered {} rfl firstRead (by decide +kernel)).1⟩

end RobotCar

import Mathlib.Data.List.TakeWhile
import Mathlib.Data.UInt
import RobotCar.Hal
import RobotCar.Lib.Frames

namespace RobotCar
open Frames
set_option autoImplicit true

/-! ### The display -/

structure UART_HandleTypeDef where
  gState : HAL_UART_StateTypeDef := .READY
  sent : List UInt8 := []
  deriving DecidableEq, Repr

/-- The call blocks until the bytes are sent; its timeout of 0xffff ms is longer than 65535 bytes
take. -/
def HAL_UART_Transmit (pData : List UInt8) (Size : UInt16) (huart : UART_HandleTypeDef) :
    HAL_StatusTypeDef × UART_HandleTypeDef :=
  if huart.gState = .READY then
    if Size = 0 then (.HAL_ERROR, huart)
    else (.HAL_OK, { huart with sent := huart.sent ++ pData.take Size.toNat })
  else (.HAL_BUSY, huart)

/-- `t0.txt="` -/
def t0_txt : List UInt8 := [0x74, 0x30, 0x2e, 0x74, 0x78, 0x74, 0x3d, 0x22]

def quote : UInt8 := 0x22

/-- The status of the four transmissions is not looked at. -/
def Screen_printString (str : List UInt8) (huart7 : UART_HandleTypeDef) : UART_HandleTypeDef :=
  let EOL : List UInt8 := [0xff, 0xff, 0xff]
  let huart7 := (HAL_UART_Transmit t0_txt 8 huart7).2
  -- `c_str()` ends in a zero byte, `length()` is passed as 16 bits
  let huart7 := (HAL_UART_Transmit (str ++ [0]) (UInt16.ofNat str.length) huart7).2
  let huart7 := (HAL_UART_Transmit [quote] 1 huart7).2
  (HAL_UART_Transmit EOL 3 huart7).2

/-- A string message: its buffer, and how much of it is used. -/
structure std_msgs_msg_String where
  data : List UInt8
  size : Nat
  fits : size ≤ data.length

def std_msgs_msg_String.text (msgin : std_msgs_msg_String) : List UInt8 :=
  msgin.data.take msgin.size

def callback_display (msgin : std_msgs_msg_String) (huart7 : UART_HandleTypeDef) :
    UART_HandleTypeDef := Screen_printString msgin.text huart7

def shown (msgs : List std_msgs_msg_String) : UART_HandleTypeDef :=
  msgs.foldl (fun huart7 msgin => callback_display msgin huart7) {}

/-! ### What is read from the bytes -/

/-- The text of a piece: what is between `t0.txt="` and the next quote. -/
def readText (piece : List UInt8) : Option (List UInt8) :=
  if t0_txt.isPrefixOf piece ∧ quote ∈ piece.drop 8 then
    some ((piece.drop 8).takeWhile (· ≠ quote))
  else none

/-- The pieces between the markers are read as these texts, and no byte is left over. -/
def ReadAs (bytes : List UInt8) (texts : List (List UInt8)) : Prop :=
  (split 0xff bytes).2 = [] ∧ (split 0xff bytes).1.map readText = texts.map some

instance (bytes : List UInt8) (texts : List (List UInt8)) : Decidable (ReadAs bytes texts) :=
  inferInstanceAs (Decidable (_ ∧ _))

/-! ### The bytes that are sent -/

/-- What is sent of a string: its length wraps at 65536. -/
def sentPart (str : List UInt8) : List UInt8 := str.take (str.length % 65536)

def body (str : List UInt8) : List UInt8 := t0_txt ++ sentPart str

theorem transmit_of_ready (pData : List UInt8) (Size : UInt16) {huart : UART_HandleTypeDef}
    (h : huart.gState = .READY) : (HAL_UART_Transmit pData Size huart).2 =
      { huart with sent := huart.sent ++ pData.take Size.toNat } := by
  rw [HAL_UART_Transmit, if_pos h]
  split
  · rename_i hz
    rw [hz]
    change huart = { huart with sent := huart.sent ++ pData.take 0 }
    rw [List.take_zero, List.append_nil]
  · rfl

theorem sentPart_eq (str : List UInt8) :
    (str ++ [0]).take (UInt16.ofNat str.length).toNat = sentPart str := by
  have hlen : (UInt16.ofNat str.length).toNat = str.length % 65536 := UInt16.toNat_ofNat'
  rw [hlen, sentPart, List.take_append_of_le_length (Nat.mod_le _ _)]

theorem Screen_printString_eq (str : List UInt8) {huart7 : UART_HandleTypeDef}
    (h : huart7.gState = .READY) : Screen_printString str huart7 =
      { huart7 with sent := huart7.sent ++ (body str ++ [quote, 0xff, 0xff, 0xff]) } := by
  rw [Screen_printString, transmit_of_ready t0_txt 8 h, transmit_of_ready (str ++ [0]),
    transmit_of_ready [quote], transmit_of_ready [0xff, 0xff, 0xff], sentPart_eq, body]
  · simp only [List.append_assoc]
    rfl
  · exact h
  · exact h
  · exact h

theorem shown_sent (msgs : List std_msgs_msg_String) {huart7 : UART_HandleTypeDef}
    (h : huart7.gState = .READY) :
    (msgs.foldl (fun huart7 msgin => callback_display msgin huart7) huart7).sent =
      huart7.sent ++ stream 0xff quote (msgs.map fun msgin => body msgin.text) := by
  induction msgs generalizing huart7 with
  | nil => exact (List.append_nil _).symm
  | cons msgin msgs ih =>
    have hready : (Screen_printString msgin.text huart7).gState = .READY := by
      rw [Screen_printString_eq msgin.text h]
      exact h
    rw [List.foldl_cons, callback_display, ih hready, Screen_printString_eq msgin.text h,
      List.map_cons, stream_cons, List.append_assoc, List.append_assoc]
    rfl

theorem quote_ne : quote ≠ 0xff := by decide

/-! ### Reading the texts back -/

theorem readText_body (str : List UInt8) :
    readText (body str ++ [quote]) = some ((sentPart str).takeWhile (· ≠ quote)) := by
  have hdrop : (body str ++ [quote]).drop 8 = sentPart str ++ [quote] := rfl
  have hpre : t0_txt.isPrefixOf (body str ++ [quote]) = true := rfl
  have hmem : quote ∈ sentPart str ++ [quote] := List.mem_concat_self
  have htake : (sentPart str ++ [quote]).takeWhile (fun b => decide (b ≠ quote)) =
      (sentPart str).takeWhile (fun b => decide (b ≠ quote)) := by
    induction sentPart str with
    | nil => rfl
    | cons b l ih =>
      rw [List.cons_append, List.takeWhile_cons, List.takeWhile_cons, ih]
  rw [readText, hdrop, if_pos ⟨hpre, hmem⟩, htake]

theorem marked_body (str : List UInt8) :
    [0xff, 0xff, 0xff] <:+: body str ++ [quote] ↔ [0xff, 0xff, 0xff] <:+: sentPart str := by
  rw [marked_concat quote_ne, body, marked_append]
  decide

/-- The string comes back from its frame. -/
theorem frame_read_iff (str : List UInt8) :
    (¬[0xff, 0xff, 0xff] <:+: body str ++ [quote] ∧ readText (body str ++ [quote]) = some str) ↔
      str.length < 65536 ∧ quote ∉ str ∧ ¬[0xff, 0xff, 0xff] <:+: str := by
  rw [marked_body, readText_body, Option.some_inj]
  constructor
  · intro ⟨hm, htake⟩
    have hpre := List.takeWhile_prefix (fun b => decide (b ≠ quote)) (l := sentPart str)
    rw [htake] at hpre
    have hlen : str.length < 65536 := by
      have hle := hpre.length_le
      rw [sentPart, List.length_take] at hle
      omega
    have hsent : sentPart str = str := by
      rw [sentPart, Nat.mod_eq_of_lt hlen, List.take_length]
    rw [hsent] at hm htake
    refine ⟨hlen, fun hq => ?_, hm⟩
    rw [← htake] at hq
    have hne := List.mem_takeWhile_imp hq
    exact absurd hne (by decide)
  · intro ⟨hlen, hq, hm⟩
    have hsent : sentPart str = str := by
      rw [sentPart, Nat.mod_eq_of_lt hlen, List.take_length]
    rw [hsent]
    refine ⟨hm, List.takeWhile_eq_self_iff.2 fun b hb => decide_eq_true ?_⟩
    rintro rfl
    exact hq hb

/-- The messages are read back exactly if none contains a quote or a marker, or is so long that
its length wraps. -/
theorem display_read_iff (msgs : List std_msgs_msg_String) :
    ReadAs (shown msgs).sent (msgs.map std_msgs_msg_String.text) ↔
      ∀ msgin ∈ msgs, msgin.text.length < 65536 ∧ quote ∉ msgin.text ∧
        ¬[0xff, 0xff, 0xff] <:+: msgin.text := by
  have hsent : (shown msgs).sent = stream 0xff quote (msgs.map fun msgin => body msgin.text) :=
    shown_sent msgs rfl
  rw [hsent, ReadAs, and_iff_right (split_stream_snd quote_ne _)]
  constructor
  · intro hread
    have hlen : (split 0xff (stream 0xff quote (msgs.map fun m => body m.text))).1.length =
        (msgs.map fun m => body m.text).length := by
      have hlen := congrArg List.length hread
      rw [List.length_map, List.length_map, List.length_map] at hlen
      rw [hlen, List.length_map]
    have hwhole := (split_stream_iff quote_ne _).1 hlen
    rw [split_stream quote_ne hwhole, List.map_map, List.map_map, List.map_map,
      List.map_inj_left] at hread
    intro msgin hmsg
    exact (frame_read_iff msgin.text).1
      ⟨hwhole _ (List.mem_map_of_mem hmsg), hread msgin hmsg⟩
  · intro hall
    have hframe := fun msgin hmsg => (frame_read_iff _).2 (hall msgin hmsg)
    rw [split_stream quote_ne, List.map_map, List.map_map, List.map_map, List.map_inj_left]
    · exact fun msgin hmsg => (hframe msgin hmsg).2
    · exact List.forall_mem_map.2 fun msgin hmsg => (hframe msgin hmsg).1

/-- The text `a"` FF FF FF `t0.txt="b`. -/
def injected : std_msgs_msg_String where
  data := [0x61, quote, 0xff, 0xff, 0xff] ++ t0_txt ++ [0x62]
  size := 14
  fits := by decide

/-- One message is read back as two. -/
theorem display_injected :
    ReadAs (shown [injected]).sent [[0x61], [0x62]] ∧
      ¬∀ msgs, ReadAs (shown msgs).sent (msgs.map std_msgs_msg_String.text) :=
  ⟨by decide, fun h => absurd (h [injected]) (by decide)⟩

end RobotCar

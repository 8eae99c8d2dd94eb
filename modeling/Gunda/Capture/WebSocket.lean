import Gunda.Lib.Durable
import Gunda.Lib.Frames
import Gunda.Lib.Result
import Gunda.Lib.Utf8

/-!
# WebSocket messages

`gunda-capture/src/websocket.rs`: frames are read with `read_exact` from a stream that
brings its bytes in any parts, and messages are put together from frames. A read that ends
early and a write that fails are the transport's.
-/
namespace Gunda.Capture

open Gunda.Lib Gunda.Lib.Text

/-- Largest complete message accepted, in bytes. -/
def MAX_MESSAGE_BYTES : Nat := 2 * 1024 * 1024

def OP_CONTINUATION : UInt8 := 0x0
def OP_TEXT : UInt8 := 0x1
def OP_CLOSE : UInt8 := 0x8
def OP_PING : UInt8 := 0x9
def OP_PONG : UInt8 := 0xA

inductive TransportError where
  | unexpectedEof
  | failed (kind : IoErrorKind)
  deriving DecidableEq, Repr

inductive WebSocketError where
  | io (error : TransportError)
  | handshake | protocol | messageTooLarge
  deriving DecidableEq, Repr

/-! ## The transport -/

/-- The first bytes of a stream that brings them in parts, and what is left. -/
def takeExact : Nat → List Bytes → Option (Bytes × List Bytes)
  | 0, parts => some ([], parts)
  | _ + 1, [] => none
  | count + 1, part :: parts =>
      if part.length ≤ count + 1 then
        (takeExact (count + 1 - part.length) parts).map fun taken => (part ++ taken.1, taken.2)
      else some (part.take (count + 1), part.drop (count + 1) :: parts)

structure Transport where
  /-- What the reads to come bring. -/
  incoming : List Bytes
  /-- How the reads end. -/
  ending : TransportError
  /-- How the writes to come fail: the error, and how much was sent before it. -/
  failures : List (Option (TransportError × Nat))
  written : List Bytes

namespace Transport

def readExact (transport : Transport) (count : Nat) : Except WebSocketError (Bytes × Transport) :=
  match takeExact count transport.incoming with
  | some (bytes, rest) => .ok (bytes, { transport with incoming := rest })
  | none => .error (.io transport.ending)

def writeAll (transport : Transport) (bytes : Bytes) : Except WebSocketError Unit × Transport :=
  match transport.failures with
  | some (error, sent) :: failures =>
      (.error (.io error), { transport with
        failures := failures
        written := transport.written ++ [bytes.take sent] })
  | none :: failures =>
      (.ok (), { transport with
        failures := failures
        written := transport.written ++ [bytes] })
  | [] => (.ok (), { transport with written := transport.written ++ [bytes] })

/-! ## Frames -/

/-- What `read_frame` reads before the mask. -/
structure Header where
  fin : Bool
  opcode : UInt8
  length : Nat
  deriving DecidableEq, Repr

def readLength (transport : Transport) (second : UInt8) :
    Except WebSocketError (Nat × Transport) :=
  let short := second &&& 0x7F
  if short = 126 then do
    let (extended, transport) ← transport.readExact 2
    pure (Bytes.readBe extended, transport)
  else if short = 127 then do
    let (extended, transport) ← transport.readExact 8
    pure (Bytes.readBe extended, transport)
  else pure (short.toNat, transport)

def readHeader (transport : Transport) : Except WebSocketError (Header × Transport) := do
  let (header, transport) ← transport.readExact 2
  let first := header.getD 0 0
  let second := header.getD 1 0
  -- reserved bits must be clear, and a client must mask every frame
  if first &&& 0x70 ≠ 0 then .error .protocol
  else if second &&& 0x80 = 0 then .error .protocol
  else do
    let (length, transport) ← transport.readLength second
    let header : Header := ⟨first &&& 0x80 ≠ 0, first &&& 0x0F, length⟩
    if OP_CLOSE ≤ header.opcode ∧ (header.fin = false ∨ 125 < length) then .error .protocol
    else if MAX_MESSAGE_BYTES < length then .error .messageTooLarge
    else pure (header, transport)

def readFrame (transport : Transport) : Except WebSocketError (Frame × Transport) := do
  let (header, transport) ← transport.readHeader
  let (mask, transport) ← transport.readExact 4
  let (payload, transport) ← transport.readExact header.length
  pure (⟨header.fin, header.opcode, Frame.unmask mask payload⟩, transport)

end Transport

/-- The bytes `write_frame` sends. -/
def frameBytes (opcode : UInt8) (payload : Bytes) : Bytes :=
  (0x80 ||| opcode) ::
    ((if payload.length < 126 then [UInt8.ofNat payload.length]
      else if payload.length ≤ 65535 then 126 :: Bytes.be 2 payload.length
      else 127 :: Bytes.be 8 payload.length) ++ payload)

def Transport.writeFrame (transport : Transport) (opcode : UInt8) (payload : Bytes) :
    Except WebSocketError Unit × Transport := transport.writeAll (frameBytes opcode payload)

/-- `send_text`. -/
def Transport.sendText (transport : Transport) (message : Text) :
    Except WebSocketError Unit × Transport :=
  let bytes := toUtf8 message
  if MAX_MESSAGE_BYTES < bytes.length then (.error .messageTooLarge, transport)
  else transport.writeFrame OP_TEXT bytes

/-! ## Messages -/

/-- Validates a text message's UTF-8. -/
def decode (message : Bytes) : Except WebSocketError (Option Text) :=
  match fromUtf8 message with
  | some text => .ok (some text)
  | none => .error .protocol

/-- A call of `receive` between two frames. -/
structure Receiving where
  transport : Transport
  message : Bytes
  started : Bool

namespace Receiving

abbrev Outcome := Except WebSocketError (Option Text)

def push (receiving : Receiving) (frame : Frame) : Receiving × Option Outcome :=
  if MAX_MESSAGE_BYTES < receiving.message.length + frame.payload.length then
    (receiving, some (.error .messageTooLarge))
  else
    let receiving := { receiving with
      message := receiving.message ++ frame.payload
      started := true }
    if frame.fin then (receiving, some (decode receiving.message)) else (receiving, none)

/-- One round of the loop: the next frame, and the result where the call returns. -/
def turn (receiving : Receiving) : Receiving × Option Outcome :=
  match receiving.transport.readFrame with
  | .error error => (receiving, some (.error error))
  | .ok (frame, transport) =>
      let receiving := { receiving with transport := transport }
      if frame.opcode = OP_PING then
        match transport.writeFrame OP_PONG frame.payload with
        | (.ok (), transport) => ({ receiving with transport := transport }, none)
        | (.error error, transport) =>
            ({ receiving with transport := transport }, some (.error error))
      else if frame.opcode = OP_PONG then (receiving, none)
      else if frame.opcode = OP_CLOSE then
        ({ receiving with transport := (transport.writeFrame OP_CLOSE []).2 }, some (.ok none))
      else if frame.opcode = OP_TEXT then
        if receiving.started = true ∨ receiving.message ≠ [] then
          (receiving, some (.error .protocol))
        else receiving.push frame
      else if frame.opcode = OP_CONTINUATION then
        if receiving.started = false then (receiving, some (.error .protocol))
        else receiving.push frame
      else (receiving, some (.error .protocol))

end Receiving

/-! ## Reading exactly -/

theorem takeExact_ok {count : Nat} {parts rest : List Bytes} {bytes : Bytes}
    (h : takeExact count parts = some (bytes, rest)) :
    parts.flatten = bytes ++ rest.flatten ∧ bytes.length = count := by
  induction count, parts using takeExact.induct generalizing bytes with
  | case1 parts =>
    rw [takeExact] at h
    cases h
    exact ⟨rfl, rfl⟩
  | case2 count => cases h
  | case3 count part parts fits ih =>
    rw [takeExact, if_pos fits] at h
    obtain ⟨⟨taken, left_⟩, found, same⟩ := Option.map_eq_some_iff.mp h
    cases same
    obtain ⟨whole, sized⟩ := ih found
    refine ⟨by rw [List.flatten_cons, whole, List.append_assoc], ?_⟩
    rw [List.length_append, sized]
    omega
  | case4 count part parts larger =>
    rw [takeExact, if_neg larger] at h
    cases h
    refine ⟨?_, by rw [List.length_take]; omega⟩
    rw [List.flatten_cons, List.flatten_cons, ← List.append_assoc, List.take_append_drop]

/-- How the bytes are split into reads makes no difference. -/
theorem takeExact_of_flatten {count : Nat} {parts : List Bytes} {bytes tail : Bytes}
    (whole : parts.flatten = bytes ++ tail) (sized : bytes.length = count) :
    ∃ rest, takeExact count parts = some (bytes, rest) ∧ rest.flatten = tail := by
  induction count, parts using takeExact.induct generalizing bytes with
  | case1 parts =>
    rw [List.length_eq_zero_iff.mp sized] at whole ⊢
    exact ⟨parts, by rw [takeExact], whole⟩
  | case2 count =>
    have none_ := congrArg List.length whole
    rw [List.flatten_nil, List.length_nil, List.length_append] at none_
    omega
  | case3 count part parts fits ih =>
    rw [List.flatten_cons] at whole
    have front : bytes = part ++ bytes.drop part.length := by
      have same := congrArg (List.take part.length) whole
      rw [List.take_left, List.take_append_of_le_length (by omega)] at same
      rw [← List.take_append_drop part.length bytes, ← same]
      simp
    rw [front, List.append_assoc] at whole
    obtain ⟨rest, taken, left_⟩ := ih (List.append_cancel_left whole) (by
      rw [List.length_drop]
      omega)
    refine ⟨rest, ?_, left_⟩
    rw [takeExact, if_pos fits, taken, Option.map_some, ← front]
  | case4 count part parts larger =>
    rw [List.flatten_cons] at whole
    have front : bytes = part.take (count + 1) := by
      have same := congrArg (List.take (count + 1)) whole
      rw [List.take_append_of_le_length (by omega), List.take_left' sized] at same
      exact same.symm
    refine ⟨part.drop (count + 1) :: parts, ?_, ?_⟩
    · rw [takeExact, if_neg larger, front]
    · rw [List.flatten_cons]
      rw [front, ← List.take_append_drop (count + 1) part, List.append_assoc] at whole
      rw [List.take_append_drop] at whole
      exact List.append_cancel_left whole

namespace Transport

variable {transport next : Transport} {bytes tail : Bytes} {count : Nat}

theorem readExact_ok (h : transport.readExact count = .ok (bytes, next)) :
    transport.incoming.flatten = bytes ++ next.incoming.flatten ∧ bytes.length = count ∧
      next = { transport with incoming := next.incoming } := by
  unfold readExact at h
  split at h
  · rename_i taken rest found
    cases h
    obtain ⟨whole, sized⟩ := takeExact_ok found
    exact ⟨whole, sized, rfl⟩
  · cases h

theorem readExact_of_flatten (whole : transport.incoming.flatten = bytes ++ tail)
    (sized : bytes.length = count) :
    ∃ rest, transport.readExact count = .ok (bytes, { transport with incoming := rest }) ∧
      rest.flatten = tail := by
  obtain ⟨rest, taken, left_⟩ := takeExact_of_flatten whole sized
  refine ⟨rest, ?_, left_⟩
  unfold readExact
  rw [taken]

/-! ## Reading a frame -/

theorem readLength_of_flatten {form : LengthForm} {length : Nat} (fits : length < form.bound)
    (carried : transport.incoming.flatten = form.extended length ++ tail) :
    ∃ rest, transport.readLength (form.second 0x80 length) =
        .ok (length, { transport with incoming := rest }) ∧ rest.flatten = tail := by
  cases form with
  | short =>
    have small : length < 126 := fits
    have value : (0x80 + UInt8.ofNat length) &&& 0x7F = UInt8.ofNat length := by
      apply UInt8.toNat_inj.mp
      rw [(Frame.masked_bits (by omega)).2, toNat_ofNat_of_lt (by omega)]
    have different : ∀ n : UInt8, 126 ≤ n.toNat → UInt8.ofNat length ≠ n := by
      intro n large same
      have number := congrArg UInt8.toNat same
      rw [toNat_ofNat_of_lt (by omega)] at number
      omega
    refine ⟨transport.incoming, ?_, carried⟩
    change readLength transport (0x80 + UInt8.ofNat length) = _
    unfold readLength
    rw [value, if_neg (different 126 (by decide)), if_neg (different 127 (by decide)),
      toNat_ofNat_of_lt (by omega)]
    rfl
  | medium =>
    obtain ⟨rest, read, left_⟩ := readExact_of_flatten carried (Bytes.be_length 2 length)
    refine ⟨rest, ?_, left_⟩
    have value : ((0x80 + 126 : UInt8) &&& 0x7F) = 126 := by decide
    change readLength transport (0x80 + 126) = _
    unfold readLength
    rw [value, if_pos rfl, read, ok_bind]
    have number : Bytes.readBe (LengthForm.extended length .medium) = length :=
      @Bytes.readBe_be 2 length fits
    dsimp only
    rw [number]
    rfl
  | long =>
    obtain ⟨rest, read, left_⟩ := readExact_of_flatten carried (Bytes.be_length 8 length)
    refine ⟨rest, ?_, left_⟩
    have value : ((0x80 + 127 : UInt8) &&& 0x7F) = 127 := by decide
    change readLength transport (0x80 + 127) = _
    unfold readLength
    rw [value, if_neg (by decide), if_pos rfl, read, ok_bind]
    have number : Bytes.readBe (LengthForm.extended length .long) = length :=
      @Bytes.readBe_be 8 length fits
    dsimp only
    rw [number]
    rfl

theorem readLength_ok {second : UInt8} {length : Nat} (masked : second &&& 0x80 ≠ 0)
    (h : transport.readLength second = .ok (length, next)) :
    ∃ form : LengthForm, length < form.bound ∧ second = form.second 0x80 length ∧
      transport.incoming.flatten = form.extended length ++ next.incoming.flatten ∧
      next = { transport with incoming := next.incoming } := by
  obtain ⟨same, small⟩ := Frame.masked_of_bits masked
  unfold readLength at h
  dsimp only at h
  split at h
  · rename_i medium
    obtain ⟨⟨extended, after⟩, read, h⟩ := bind_ok h
    cases h
    obtain ⟨whole, sized, rest⟩ := readExact_ok read
    rw [medium] at same
    refine ⟨.medium, ?_, same, ?_, rest⟩
    · have bounded := Bytes.readBe_lt extended
      rw [sized] at bounded
      exact bounded
    · have written := Bytes.be_readBe extended
      rw [sized] at written
      change _ = Bytes.be 2 (Bytes.readBe extended) ++ _
      rw [written]
      exact whole
  · rename_i not_medium
    split at h
    · rename_i long
      obtain ⟨⟨extended, after⟩, read, h⟩ := bind_ok h
      cases h
      obtain ⟨whole, sized, rest⟩ := readExact_ok read
      rw [long] at same
      refine ⟨.long, ?_, same, ?_, rest⟩
      · have bounded := Bytes.readBe_lt extended
        rw [sized] at bounded
        exact bounded
      · have written := Bytes.be_readBe extended
        rw [sized] at written
        change _ = Bytes.be 8 (Bytes.readBe extended) ++ _
        rw [written]
        exact whole
    · rename_i not_long
      cases h
      refine ⟨.short, ?_, same, rfl, rfl⟩
      have other : ∀ n : UInt8, second &&& 0x7F ≠ n → (second &&& 0x7F).toNat ≠ n.toNat :=
        fun n different number => different (UInt8.toNat_inj.mp number)
      have not_126 := other 126 not_medium
      have not_127 := other 127 not_long
      change (second &&& 0x7F).toNat < 126
      have first : (126 : UInt8).toNat = 126 := rfl
      have second_ : (127 : UInt8).toNat = 127 := rfl
      omega

end Transport

/-- A frame that can be read: of a known form and not too long. -/
structure Readable (frame : Frame) : Prop where
  low : frame.opcode.toNat < 16
  control : OP_CLOSE ≤ frame.opcode → frame.fin = true ∧ frame.payload.length ≤ 125
  bounded : frame.payload.length ≤ MAX_MESSAGE_BYTES

namespace Transport

variable {transport next : Transport} {frame : Frame} {form : LengthForm} {mask tail : Bytes}

theorem readFrame_encodeMasked (readable : Readable frame)
    (fits : frame.payload.length < form.bound) (four : mask.length = 4)
    (carried : transport.incoming.flatten = frame.encodeMasked form mask ++ tail) :
    ∃ rest, transport.readFrame = .ok (frame, { transport with incoming := rest }) ∧
      rest.flatten = tail := by
  obtain ⟨fin, opcode, payload⟩ := frame
  obtain ⟨reserved, final, kind⟩ := @Frame.head_bits fin opcode readable.low
  have masked : form.second 0x80 payload.length &&& 0x80 ≠ 0 := by
    cases form with
    | short => exact (Frame.masked_bits (Nat.lt_of_lt_of_le fits (by decide))).1
    | medium =>
      have bits : (0x80 + 126 : UInt8) &&& 0x80 ≠ 0 := by decide
      exact bits
    | long =>
      have bits : (0x80 + 127 : UInt8) &&& 0x80 ≠ 0 := by decide
      exact bits
  have shape : transport.incoming.flatten =
      [Frame.head ⟨fin, opcode, payload⟩, form.second 0x80 payload.length] ++
        (form.extended payload.length ++ (mask ++ (Frame.unmask mask payload ++ tail))) := by
    rw [carried]
    simp [Frame.encodeMasked, LengthForm.bytes]
  obtain ⟨rest, head, left_⟩ := @readExact_of_flatten transport _ _ 2 shape rfl
  obtain ⟨rest', length, left'⟩ :=
    @readLength_of_flatten { transport with incoming := rest } _ form _ fits left_
  obtain ⟨rest'', four_, left''⟩ :=
    @readExact_of_flatten { transport with incoming := rest' } _ _ 4 left' four
  obtain ⟨others, taken, leftOthers⟩ :=
    @readExact_of_flatten { transport with incoming := rest'' } _ _ _ left''
      (Frame.unmask_length mask payload)
  refine ⟨others, ?_, leftOthers⟩
  have header : transport.readHeader =
      .ok (⟨fin, opcode, payload.length⟩, { transport with incoming := rest' }) := by
    unfold readHeader
    rw [head, ok_bind]
    have first : [Frame.head ⟨fin, opcode, payload⟩, form.second 0x80 payload.length].getD 0 0 =
        (if fin then 0x80 else 0) ||| opcode := rfl
    have second : [Frame.head ⟨fin, opcode, payload⟩, form.second 0x80 payload.length].getD 1 0 =
        form.second 0x80 payload.length := rfl
    dsimp only
    rw [first, second, if_neg (not_not_intro reserved), if_neg masked, length, ok_bind]
    rw [final, kind, if_neg, if_neg (Nat.not_lt.mpr readable.bounded)]
    · rfl
    · rintro ⟨control, open_ | long⟩
      · have closed := (readable.control control).1
        rw [open_] at closed
        cases closed
      · exact absurd long (Nat.not_lt.mpr (readable.control control).2)
  unfold readFrame
  rw [header, ok_bind]
  dsimp only
  rw [four_, ok_bind]
  rw [taken, ok_bind]
  rw [Frame.unmask_unmask]
  rfl

theorem two_bytes {header : Bytes} (sized : header.length = 2) :
    header = [header.getD 0 0, header.getD 1 0] := by
  match header, sized with
  | [_, _], _ => rfl

theorem readHeader_ok {header : Header} (h : transport.readHeader = .ok (header, next)) :
    ∃ (first : UInt8) (form : LengthForm), first &&& 0x70 = 0 ∧
      header.fin = decide (first &&& 0x80 ≠ 0) ∧ header.opcode = first &&& 0x0F ∧
      (OP_CLOSE ≤ header.opcode → header.fin = true ∧ header.length ≤ 125) ∧
      header.length ≤ MAX_MESSAGE_BYTES ∧ header.length < form.bound ∧
      transport.incoming.flatten = first :: (form.bytes 0x80 header.length ++
        next.incoming.flatten) ∧ next = { transport with incoming := next.incoming } := by
  unfold readHeader at h
  obtain ⟨⟨pair, after⟩, read, h⟩ := bind_ok h
  obtain ⟨whole, sized, same⟩ := readExact_ok read
  rw [two_bytes sized] at whole
  dsimp only at h
  generalize pair.getD 0 0 = first at *
  generalize pair.getD 1 0 = second at *
  split at h
  · cases h
  · rename_i reserved
    split at h
    · cases h
    · rename_i masked
      obtain ⟨⟨length, after'⟩, read', h⟩ := bind_ok h
      obtain ⟨form, fits, shape, carried, same'⟩ := readLength_ok masked read'
      split at h
      · cases h
      · rename_i control
        split at h
        · cases h
        · rename_i bounded
          cases h
          refine ⟨first, form, not_not.mp reserved, rfl, rfl, ?_, Nat.le_of_not_lt bounded, fits,
            ?_, ?_⟩
          · intro closes
            rw [not_and, not_or] at control
            obtain ⟨final, short⟩ := control closes
            exact ⟨Bool.of_not_eq_false final, Nat.le_of_not_lt short⟩
          · rw [whole, carried, shape]
            rfl
          · rw [same', same]

/-- Only masked frames without reserved bits are read. -/
theorem readFrame_ok (h : transport.readFrame = .ok (frame, next)) :
    Readable frame ∧ ∃ (form : LengthForm) (mask : Bytes), frame.payload.length < form.bound ∧
      mask.length = 4 ∧ transport.incoming.flatten =
        frame.encodeMasked form mask ++ next.incoming.flatten ∧
      next = { transport with incoming := next.incoming } := by
  unfold readFrame at h
  obtain ⟨⟨header, after⟩, head, h⟩ := bind_ok h
  obtain ⟨⟨mask, after'⟩, four, h⟩ := bind_ok h
  obtain ⟨⟨payload, after''⟩, taken, h⟩ := bind_ok h
  obtain ⟨first, form, reserved, final, kind, control, bounded, fits, shape, same⟩ :=
    readHeader_ok head
  obtain ⟨whole, sized, same'⟩ := readExact_ok four
  obtain ⟨whole', sized', same''⟩ := readExact_ok taken
  obtain ⟨written, low⟩ := Frame.head_of_bits reserved
  cases h
  have length : (Frame.unmask mask payload).length = header.length := by
    rw [Frame.unmask_length, sized']
  refine ⟨⟨?_, ?_, ?_⟩, form, mask, ?_, sized, ?_, ?_⟩
  · dsimp only
    rw [kind]
    exact low
  · dsimp only
    rw [length]
    exact control
  · dsimp only
    rw [length]
    exact bounded
  · dsimp only
    rw [length]
    exact fits
  · unfold Frame.encodeMasked Frame.head
    rw [shape, whole, whole', length, Frame.unmask_unmask, final, kind, written]
    simp
  · rw [same'', same', same]

end Transport

end Gunda.Capture

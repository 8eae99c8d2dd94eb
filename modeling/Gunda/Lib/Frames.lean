import Gunda.Lib.Bytes

/-!
# WebSocket frames

Frames of RFC 6455 as bytes: a client masks what it sends, a server does not. A length
has three forms, and a long form may hold a short length.
-/
namespace Gunda.Lib

structure Frame where
  fin : Bool
  opcode : UInt8
  payload : Bytes
  deriving DecidableEq, Repr

inductive LengthForm where
  | short | medium | long
  deriving DecidableEq, Repr

namespace LengthForm

/-- The lengths a form can hold are below it. -/
def bound : LengthForm → Nat
  | .short => 126
  | .medium => 2 ^ 16
  | .long => 2 ^ 64

/-- The second byte of a frame. -/
def second (masked : UInt8) (length : Nat) : LengthForm → UInt8
  | .short => masked + UInt8.ofNat length
  | .medium => masked + 126
  | .long => masked + 127

/-- What extends it. -/
def extended (length : Nat) : LengthForm → Bytes
  | .short => []
  | .medium => Bytes.be 2 length
  | .long => Bytes.be 8 length

def bytes (masked : UInt8) (length : Nat) (form : LengthForm) : Bytes :=
  form.second masked length :: form.extended length

/-- The form a length is written in where none is longer than it has to be. -/
def least (length : Nat) : LengthForm :=
  if length < 126 then .short else if length < 2 ^ 16 then .medium else .long

end LengthForm

namespace Frame

def head (frame : Frame) : UInt8 := (if frame.fin then 0x80 else 0) ||| frame.opcode

/-- Masks a payload, or takes the mask off it. -/
def unmask (mask payload : Bytes) : Bytes :=
  payload.mapIdx fun index byte => byte ^^^ mask.getD (index % 4) 0

/-- A frame of a server. -/
def encode (frame : Frame) : Bytes :=
  frame.head :: ((LengthForm.least frame.payload.length).bytes 0 frame.payload.length ++
    frame.payload)

/-- A frame of a client. -/
def encodeMasked (form : LengthForm) (mask : Bytes) (frame : Frame) : Bytes :=
  frame.head :: (form.bytes 0x80 frame.payload.length ++ (mask ++ unmask mask frame.payload))

/-- The length of a frame that is not masked, and what follows it. -/
def decodeLength : Bytes → Option (Nat × Bytes)
  | [] => none
  | second :: rest =>
      if 128 ≤ second.toNat then none
      else if second.toNat < 126 then some (second.toNat, rest)
      else
        let width := if second.toNat = 126 then 2 else 8
        if rest.length < width then none
        else some (Bytes.readBe (rest.take width), rest.drop width)

/-- What a client reads: the first frame, if it has no reserved bit and no mask. -/
def decode : Bytes → Option (Frame × Bytes)
  | [] => none
  | first :: rest =>
      if first &&& 0x70 ≠ 0 then none
      else (decodeLength rest).bind fun (length, rest) =>
        if rest.length < length then none
        else some (⟨first &&& 0x80 ≠ 0, first &&& 0x0F, rest.take length⟩, rest.drop length)

@[simp] theorem unmask_length (mask payload : Bytes) :
    (unmask mask payload).length = payload.length := by
  simp [unmask]

/-- The mask taken off twice is not taken off. -/
theorem unmask_unmask (mask payload : Bytes) : unmask mask (unmask mask payload) = payload := by
  unfold unmask
  rw [List.mapIdx_mapIdx]
  apply List.ext_getElem
  · simp
  · intro index _ _
    rw [List.getElem_mapIdx]
    simp only [Function.comp_apply, UInt8.xor_assoc, UInt8.xor_self, UInt8.xor_zero]

/-! ## The first byte -/

/-- What the bits of a first byte say. -/
theorem head_bits {fin : Bool} {opcode : UInt8} (low : opcode.toNat < 16) :
    ((if fin then 0x80 else 0) ||| opcode) &&& 0x70 = 0 ∧
      (decide (((if fin then (0x80 : UInt8) else 0) ||| opcode) &&& 0x80 ≠ 0) = fin) ∧
      ((if fin then 0x80 else 0) ||| opcode) &&& 0x0F = opcode := by
  have all_ : ∀ n : Fin 16, ∀ fin : Bool,
      ((if fin then 0x80 else 0) ||| UInt8.ofNat n) &&& 0x70 = 0 ∧
        (decide (((if fin then (0x80 : UInt8) else 0) ||| UInt8.ofNat n) &&& 0x80 ≠ 0) = fin) ∧
        ((if fin then 0x80 else 0) ||| UInt8.ofNat n) &&& 0x0F = UInt8.ofNat n := by decide
  have this := all_ ⟨opcode.toNat, low⟩ fin
  rwa [UInt8.ofNat_toNat] at this

/-- A first byte without reserved bits is that of its frame. -/
theorem head_of_bits {byte : UInt8} (clear : byte &&& 0x70 = 0) :
    (if decide (byte &&& 0x80 ≠ 0) then 0x80 else 0) ||| (byte &&& 0x0F) = byte ∧
      (byte &&& 0x0F).toNat < 16 := by
  have all_ : ∀ n : Fin 256, UInt8.ofNat n &&& 0x70 = 0 →
      (if decide (UInt8.ofNat n &&& 0x80 ≠ 0) then 0x80 else 0) ||| (UInt8.ofNat n &&& 0x0F) =
        UInt8.ofNat n ∧ (UInt8.ofNat n &&& 0x0F).toNat < 16 := by decide +kernel
  have this := all_ ⟨byte.toNat, byte.toNat_lt⟩
  rw [UInt8.ofNat_toNat] at this
  exact this clear

/-! ## The length -/

theorem masked_bits {n : Nat} (small : n < 128) :
    (0x80 + UInt8.ofNat n) &&& 0x80 ≠ 0 ∧ ((0x80 + UInt8.ofNat n) &&& 0x7F).toNat = n := by
  have all_ : ∀ n : Fin 128, (0x80 + UInt8.ofNat n) &&& 0x80 ≠ 0 ∧
      ((0x80 + UInt8.ofNat n) &&& 0x7F).toNat = n.val := by decide +kernel
  exact all_ ⟨n, small⟩

theorem masked_of_bits {byte : UInt8} (set_ : byte &&& 0x80 ≠ 0) :
    byte = 0x80 + UInt8.ofNat (byte &&& 0x7F).toNat ∧ (byte &&& 0x7F).toNat < 128 := by
  have all_ : ∀ n : Fin 256, UInt8.ofNat n &&& 0x80 ≠ 0 →
      UInt8.ofNat n = 0x80 + UInt8.ofNat (UInt8.ofNat n &&& 0x7F).toNat ∧
        (UInt8.ofNat n &&& 0x7F).toNat < 128 := by decide +kernel
  have this := all_ ⟨byte.toNat, byte.toNat_lt⟩
  rw [UInt8.ofNat_toNat] at this
  exact this set_

theorem decodeLength_least {length : Nat} (small : length < 2 ^ 64) (rest : Bytes) :
    decodeLength ((LengthForm.least length).bytes 0 length ++ rest) = some (length, rest) := by
  unfold LengthForm.least
  split
  · rename_i short
    have value : (0 + UInt8.ofNat length).toNat = length := by
      rw [UInt8.zero_add, UInt8.toNat_ofNat', Nat.mod_eq_of_lt (by omega)]
    change decodeLength ((0 + UInt8.ofNat length) :: rest) = _
    rw [decodeLength, value, if_neg (by omega), if_pos short]
  · split
    · rename_i medium
      have extended : (.be 2 length ++ rest).take 2 = Bytes.be 2 length :=
        List.take_left' (Bytes.be_length 2 length)
      have after : (.be 2 length ++ rest).drop 2 = rest :=
        List.drop_left' (Bytes.be_length 2 length)
      change (if (.be 2 length ++ rest).length < 2 then none else
        some (Bytes.readBe (List.take 2 (Bytes.be 2 length ++ rest)),
          List.drop 2 (.be 2 length ++ rest))) = _
      rw [if_neg (by rw [List.length_append, Bytes.be_length]; omega), extended, after,
        Bytes.readBe_be medium]
    · have extended : (.be 8 length ++ rest).take 8 = Bytes.be 8 length :=
        List.take_left' (Bytes.be_length 8 length)
      have after : (.be 8 length ++ rest).drop 8 = rest :=
        List.drop_left' (Bytes.be_length 8 length)
      change (if (.be 8 length ++ rest).length < 8 then none else
        some (Bytes.readBe (List.take 8 (Bytes.be 8 length ++ rest)),
          List.drop 8 (.be 8 length ++ rest))) = _
      rw [if_neg (by rw [List.length_append, Bytes.be_length]; omega), extended, after,
        Bytes.readBe_be small]

/-- What a server writes is read back by a client. -/
theorem decode_encode {frame : Frame} (low : frame.opcode.toNat < 16)
    (small : frame.payload.length < 2 ^ 64) (rest : Bytes) :
    decode (frame.encode ++ rest) = some (frame, rest) := by
  obtain ⟨fin, opcode, payload⟩ := frame
  obtain ⟨reserved, final, kind⟩ := @head_bits fin opcode low
  unfold encode head decode
  simp only [List.cons_append, List.append_assoc]
  rw [if_neg (not_not_intro reserved), decodeLength_least small, Option.bind_some]
  rw [if_neg (by simp), List.take_left, List.drop_left, final, kind]

end Frame

end Gunda.Lib

import Gunda.Stream.Ts.Demux
import Mathlib.Data.Nat.Bitwise
import Mathlib.Tactic.Common

/-!
# How a transport stream carries an elementary stream

The packets and PES headers of the format, written from their fields, and what the
demuxer reads off them.
-/
namespace Gunda.Stream.Ts

open Gunda.Lib

variable {n : Nat}

/-! ## Fields of a byte -/

theorem or_eq_add {a b : Nat} (i : Nat) (high : n = 2 ^ i * a) (low : b < 2 ^ i) :
    n ||| b = n + b := by
  rw [high, ← Nat.two_pow_add_eq_or_of_lt low]

theorem and_7 (n : Nat) : n &&& 7 = n % 8 := Nat.and_two_pow_sub_one_eq_mod n 3

theorem and_31 (n : Nat) : n &&& 31 = n % 32 := Nat.and_two_pow_sub_one_eq_mod n 5

theorem and_127 (n : Nat) : n &&& 127 = n % 128 := Nat.and_two_pow_sub_one_eq_mod n 7

theorem toNat_shiftRight_one (byte : UInt8) : (byte >>> 1).toNat = byte.toNat / 2 := by
  simp [UInt8.toNat_shiftRight, Nat.shiftRight_eq_div_pow]

theorem toNat_ofNat (small : n < 256) : (UInt8.ofNat n).toNat = n := by
  rw [UInt8.toNat_ofNat']
  exact Nat.mod_eq_of_lt small

theorem and_eq_zero_of_bit (i : Nat) (clear : n / 2 ^ i % 2 = 0) : n &&& 2 ^ i = 0 := by
  rw [Nat.and_two_pow, Nat.testBit_eq_decide_div_mod_eq, clear]
  simp

theorem and_ne_zero_of_bit (i : Nat) (set : n / 2 ^ i % 2 = 1) : n &&& 2 ^ i ≠ 0 := by
  rw [Nat.and_two_pow, Nat.testBit_eq_decide_div_mod_eq, set]
  simp

/-- A bit of a byte is read off its value. -/
theorem byte_bit {byte mask : UInt8} {i : Nat} (value : byte.toNat = n)
    (mask_eq : mask.toNat = 2 ^ i) : byte &&& mask ≠ 0 ↔ n / 2 ^ i % 2 = 1 := by
  have zero : byte &&& mask = 0 ↔ n &&& 2 ^ i = 0 := by
    rw [← UInt8.toNat_inj, UInt8.toNat_and, value, mask_eq]
    rfl
  rw [ne_eq, zero]
  constructor
  · intro nonzero
    by_contra other
    exact nonzero (and_eq_zero_of_bit i (by omega))
  · exact and_ne_zero_of_bit i

/-! ## Timestamps -/

/-- A 33-bit timestamp in five bytes, behind a four-bit mark. -/
def encodeTimestamp (mark value : Nat) : Bytes :=
  [UInt8.ofNat (mark * 16 + value / 2 ^ 30 % 8 * 2 + 1), UInt8.ofNat (value / 2 ^ 22 % 256),
    UInt8.ofNat (value / 2 ^ 15 % 128 * 2 + 1), UInt8.ofNat (value / 2 ^ 7 % 256),
    UInt8.ofNat (value % 128 * 2 + 1)]

@[simp] theorem encodeTimestamp_length (mark value : Nat) :
    (encodeTimestamp mark value).length = 5 := rfl

/-- The five fields of a timestamp do not overlap. -/
theorem or_fields {a b c d e : Nat} (b_lt : b < 256) (c_lt : c < 128) (d_lt : d < 256)
    (e_lt : e < 128) :
    a * 2 ^ 30 ||| b * 2 ^ 22 ||| c * 2 ^ 15 ||| d * 2 ^ 7 ||| e =
      a * 2 ^ 30 + b * 2 ^ 22 + c * 2 ^ 15 + d * 2 ^ 7 + e := by
  have two : a * 2 ^ 30 ||| b * 2 ^ 22 = a * 2 ^ 30 + b * 2 ^ 22 :=
    or_eq_add (a := a) 30 (by omega) (by omega)
  have three : (a * 2 ^ 30 + b * 2 ^ 22) ||| c * 2 ^ 15 =
      a * 2 ^ 30 + b * 2 ^ 22 + c * 2 ^ 15 :=
    or_eq_add (a := a * 2 ^ 8 + b) 22 (by omega) (by omega)
  have four : (a * 2 ^ 30 + b * 2 ^ 22 + c * 2 ^ 15) ||| d * 2 ^ 7 =
      a * 2 ^ 30 + b * 2 ^ 22 + c * 2 ^ 15 + d * 2 ^ 7 :=
    or_eq_add (a := a * 2 ^ 15 + b * 2 ^ 7 + c) 15 (by omega) (by omega)
  rw [two, three, four]
  exact or_eq_add (a := a * 2 ^ 23 + b * 2 ^ 15 + c * 2 ^ 8 + d) 7 (by omega) (by omega)

theorem readTimestamp_encode {mark value : Nat} (mark_lt : mark < 16) (small : value < 2 ^ 33) :
    readTimestamp (encodeTimestamp mark value) = value := by
  have first : ((UInt8.ofNat (mark * 16 + value / 2 ^ 30 % 8 * 2 + 1)) >>> 1).toNat &&& 0x07 =
      value / 2 ^ 30 := by
    rw [toNat_shiftRight_one, toNat_ofNat (by omega), and_7]
    omega
  have third : ((UInt8.ofNat (value / 2 ^ 15 % 128 * 2 + 1)) >>> 1).toNat &&& 0x7F =
      value / 2 ^ 15 % 128 := by
    rw [toNat_shiftRight_one, toNat_ofNat (by omega), and_127]
    omega
  have fifth : (UInt8.ofNat (value % 128 * 2 + 1)).toNat >>> 1 &&& 0x7F = value % 128 := by
    rw [toNat_ofNat (by omega), and_127, Nat.shiftRight_eq_div_pow]
    omega
  have second : (UInt8.ofNat (value / 2 ^ 22 % 256)).toNat = value / 2 ^ 22 % 256 :=
    toNat_ofNat (by omega)
  have fourth : (UInt8.ofNat (value / 2 ^ 7 % 256)).toNat = value / 2 ^ 7 % 256 :=
    toNat_ofNat (by omega)
  unfold readTimestamp encodeTimestamp byteAt
  simp only [List.getD_cons_zero, List.getD_cons_succ, first, second, third, fourth, fifth,
    Nat.shiftLeft_eq]
  rw [or_fields (by omega) (by omega) (by omega) (by omega)]
  omega

/-! ## PES headers -/

/-- The timestamps of a header, a decode time only behind a presentation time. -/
def encodeStamps (pts dts : Option Nat) : Bytes :=
  pts.elim [] (encodeTimestamp (if dts.isSome then 3 else 2)) ++ dts.elim [] (encodeTimestamp 1)

/-- The header of a PES packet: `marks` and `flags` are the low six bits of its flag
bytes, `others` the optional fields and stuffing behind the timestamps. -/
structure PesStart where
  streamId : UInt8
  packetLength : Nat
  marks : Nat
  flags : Nat
  pts : Option Nat
  dts : Option Nat
  others : Bytes
  optional : streamId ∉ plainStreamIds
  marks_lt : marks < 64
  flags_lt : flags < 64
  pts_lt : ∀ time ∈ pts, time < 2 ^ 33
  dts_lt : ∀ time ∈ dts, time < 2 ^ 33
  paired : dts.isSome = true → pts.isSome = true
  fits : (encodeStamps pts dts).length + others.length < 256

namespace PesStart

def flagByte (header : PesStart) : Nat :=
  (if header.pts.isSome then 128 else 0) + (if header.dts.isSome then 64 else 0) + header.flags

def stamps (header : PesStart) : Bytes := encodeStamps header.pts header.dts

def encode (header : PesStart) : Bytes :=
  [0, 0, 1, header.streamId] ++ Bytes.be 2 header.packetLength ++
    [UInt8.ofNat (128 + header.marks), UInt8.ofNat header.flagByte,
      UInt8.ofNat (header.stamps.length + header.others.length)] ++
    header.stamps ++ header.others

theorem encode_length (header : PesStart) :
    header.encode.length = 9 + (header.stamps.length + header.others.length) := by
  simp only [encode, List.length_append, List.length_cons, List.length_nil, Bytes.be_length]
  omega

end PesStart

theorem timestampAt_encode (before rest : Bytes) {mark value : Nat} (mark_lt : mark < 16)
    (small : value < 2 ^ 33) :
    timestampAt (before ++ (encodeTimestamp mark value ++ rest)) before.length = .ok value := by
  have long : ¬ (before ++ (encodeTimestamp mark value ++ rest)).length < before.length + 5 := by
    simp only [List.length_append, encodeTimestamp_length]
    omega
  have sliced : Bytes.slice (before ++ (encodeTimestamp mark value ++ rest)) before.length 5 =
      encodeTimestamp mark value := by
    rw [Bytes.slice, List.drop_left]
    rfl
  unfold timestampAt
  rw [if_neg long, sliced, readTimestamp_encode mark_lt small]

/-- Which timestamps there are is read off the flags. -/
theorem flagByte_bits (header : PesStart) :
    (UInt8.ofNat header.flagByte &&& 0x80 ≠ 0 ↔ header.pts.isSome = true) ∧
      (UInt8.ofNat header.flagByte &&& 0x40 ≠ 0 ↔ header.dts.isSome = true) := by
  have flags := header.flags_lt
  have bound : header.flagByte < 256 := by
    unfold PesStart.flagByte
    split <;> split <;> omega
  have value := toNat_ofNat bound
  constructor
  · rw [byte_bit (i := 7) value rfl]
    unfold PesStart.flagByte
    cases header.pts.isSome <;> cases header.dts.isSome <;> simp <;> omega
  · rw [byte_bit (i := 6) value rfl]
    unfold PesStart.flagByte
    cases header.pts.isSome <;> cases header.dts.isSome <;> simp <;> omega

/-- Both timestamps are read where the format writes them. -/
theorem flaggedTimestamp_stamps (header : PesStart) (before rest : Bytes)
    (nine : before.length = 9) :
    flaggedTimestamp (before ++ (header.stamps ++ rest)) header.pts.isSome 9 = .ok header.pts ∧
      flaggedTimestamp (before ++ (header.stamps ++ rest)) header.dts.isSome
        (if header.pts.isSome = true then 14 else 9) = .ok header.dts := by
  have pts_lt := header.pts_lt
  have dts_lt := header.dts_lt
  have paired := header.paired
  unfold PesStart.stamps encodeStamps
  cases pts : header.pts with
  | none =>
    cases dts : header.dts with
    | none => exact ⟨rfl, rfl⟩
    | some decode =>
      rw [pts, dts] at paired
      cases paired rfl
  | some present =>
    have present_lt := pts_lt present pts
    cases dts : header.dts with
    | none =>
      have read := timestampAt_encode before rest (show 2 < 16 by omega) present_lt
      rw [nine] at read
      refine ⟨?_, rfl⟩
      simp only [flaggedTimestamp, Option.isSome_some, if_true, Option.isSome_none,
        Bool.false_eq_true, if_false, Option.elim_some, Option.elim_none, List.append_nil, read]
      rfl
    | some decode =>
      have decode_lt := dts_lt decode dts
      have first := timestampAt_encode before (encodeTimestamp 1 decode ++ rest)
        (show 3 < 16 by omega) present_lt
      have second := timestampAt_encode (before ++ encodeTimestamp 3 present) rest
        (show 1 < 16 by omega) decode_lt
      rw [nine] at first
      rw [List.length_append, nine, encodeTimestamp_length, List.append_assoc] at second
      constructor
      · simp only [flaggedTimestamp, Option.isSome_some, if_true, Option.elim_some,
          List.append_assoc, first]
        rfl
      · simp only [flaggedTimestamp, Option.isSome_some, if_true, Option.elim_some,
          List.append_assoc, second]
        rfl

theorem mpegMarks (marks : Nat) (small : marks < 64) :
    UInt8.ofNat (128 + marks) &&& 0xC0 = 0x80 := by
  revert marks
  decide

/-- The header the format writes is the one that is read. -/
theorem readPesHeader_encode (header : PesStart) (data : Bytes) :
    readPesHeader (header.encode ++ data) =
      .ok ⟨header.encode.length, header.pts, header.dts⟩ := by
  obtain ⟨high, low, two⟩ : ∃ high low, Bytes.be 2 header.packetLength = [high, low] :=
    ⟨_, _, rfl⟩
  have fits : header.stamps.length + header.others.length < 256 := header.fits
  have length : (UInt8.ofNat (header.stamps.length + header.others.length)).toNat =
      header.stamps.length + header.others.length := toNat_ofNat fits
  have size := header.encode_length
  have shape : header.encode ++ data = [0, 0, 1, header.streamId, high, low,
      UInt8.ofNat (128 + header.marks), UInt8.ofNat header.flagByte,
      UInt8.ofNat (header.stamps.length + header.others.length)] ++
        (header.stamps ++ (header.others ++ data)) := by
    simp only [PesStart.encode, two, List.append_assoc, List.cons_append, List.nil_append]
  have long : ¬ (header.encode ++ data).length < 9 + (header.stamps.length +
      header.others.length) := by
    rw [List.length_append, size]
    omega
  obtain ⟨present, decode⟩ := flagByte_bits header
  rw [shape] at long ⊢
  rw [size]
  generalize bytes_eq : [0, 0, 1, header.streamId, high, low, UInt8.ofNat (128 + header.marks),
    UInt8.ofNat header.flagByte,
    UInt8.ofNat (header.stamps.length + header.others.length)] ++
      (header.stamps ++ (header.others ++ data)) = payload at long ⊢
  have stamps := flaggedTimestamp_stamps header [0, 0, 1, header.streamId, high, low,
    UInt8.ofNat (128 + header.marks), UInt8.ofNat header.flagByte,
    UInt8.ofNat (header.stamps.length + header.others.length)] (header.others ++ data) rfl
  rw [bytes_eq] at stamps
  have id : byteAt payload 3 = header.streamId := by rw [← bytes_eq]; rfl
  have marks : byteAt payload 6 = UInt8.ofNat (128 + header.marks) := by rw [← bytes_eq]; rfl
  have flags : byteAt payload 7 = UInt8.ofNat header.flagByte := by rw [← bytes_eq]; rfl
  have count : byteAt payload 8 = UInt8.ofNat (header.stamps.length + header.others.length) := by
    rw [← bytes_eq]; rfl
  have start : payload.take 3 = [0, 0, 1] := by rw [← bytes_eq]; rfl
  have ptsFlag : decide (byteAt payload 7 &&& 0x80 ≠ 0) = header.pts.isSome := by
    rw [flags, Bool.eq_iff_iff, decide_eq_true_iff]
    exact present
  have dtsFlag : decide (byteAt payload 7 &&& 0x40 ≠ 0) = header.dts.isSome := by
    rw [flags, Bool.eq_iff_iff, decide_eq_true_iff]
    exact decode
  have offset : (if byteAt payload 7 &&& 0x80 ≠ 0 then 14 else 9) =
      if header.pts.isSome = true then 14 else 9 := by
    rw [flags]
    exact if_congr present rfl rfl
  have shaped : ¬ (payload.length < 9 ∨ payload.take 3 ≠ [0, 0, 1]) := by
    rintro (short | other)
    · omega
    · exact other start
  unfold readPesHeader
  rw [if_neg shaped, if_neg (by rw [id]; exact header.optional),
    if_neg (by rw [marks, mpegMarks _ header.marks_lt]; simp)]
  dsimp only
  rw [ptsFlag, dtsFlag, offset, stamps.1, stamps.2, count, length]
  simp only [bind, Except.bind, if_neg long]
  rfl

/-! ## Packets -/

/-- A packet of an elementary stream: its share of the stream's bytes, behind the
header of the PES packet it starts, if it starts one. -/
structure Carrier where
  priority : Bool
  scrambling : Nat
  continuity : Nat
  adaptation : Option Bytes
  header : Option PesStart
  data : Bytes
  scrambling_lt : scrambling < 4
  continuity_lt : continuity < 16
  payload_ne : header.elim [] (·.encode) ++ data ≠ []
  fills : 4 + adaptation.elim 0 (·.length + 1) + (header.elim [] (·.encode) ++ data).length = 188

namespace Carrier

def payload (carrier : Carrier) : Bytes := carrier.header.elim [] (·.encode) ++ carrier.data

def flags (carrier : Carrier) (pid : Nat) : Nat :=
  (if carrier.header.isSome then 64 else 0) + (if carrier.priority then 32 else 0) + pid / 256

def control (carrier : Carrier) : Nat :=
  carrier.scrambling * 64 + (if carrier.adaptation.isSome then 48 else 16) + carrier.continuity

def adaptationField (carrier : Carrier) : Bytes :=
  carrier.adaptation.elim [] fun field => UInt8.ofNat field.length :: field

def encode (carrier : Carrier) (pid : Nat) : Bytes :=
  [sync, UInt8.ofNat (carrier.flags pid), UInt8.ofNat (pid % 256), UInt8.ofNat carrier.control] ++
    carrier.adaptationField ++ carrier.payload

theorem encode_length (carrier : Carrier) (pid : Nat) :
    (carrier.encode pid).length = packetSize := by
  have fills := carrier.fills
  unfold encode adaptationField payload packetSize
  cases field : carrier.adaptation with
  | none =>
    rw [field] at fills
    simp only [Option.elim_none, List.length_append, List.length_cons, List.length_nil] at *
    omega
  | some field' =>
    rw [field] at fills
    simp only [Option.elim_some, List.length_append, List.length_cons, List.length_nil] at *
    omega

theorem packetPid_encode (carrier : Carrier) {pid : Nat} (pid_lt : pid < 8192) :
    Demuxer.packetPid (carrier.encode pid) = pid := by
  have bound : carrier.flags pid < 256 ∧ carrier.flags pid % 32 = pid / 256 := by
    unfold flags
    split <;> split <;> omega
  have first : byteAt (carrier.encode pid) 1 = UInt8.ofNat (carrier.flags pid) := rfl
  have second : byteAt (carrier.encode pid) 2 = UInt8.ofNat (pid % 256) := rfl
  have high : (UInt8.ofNat (carrier.flags pid) &&& 0x1F).toNat = pid / 256 := by
    rw [UInt8.toNat_and, toNat_ofNat bound.1]
    exact (and_31 _).trans bound.2
  unfold Demuxer.packetPid
  rw [first, second, high, toNat_ofNat (by omega), Nat.shiftLeft_eq,
    or_eq_add (a := pid / 256) 8 (by omega) (by omega)]
  omega

/-- The payload begins behind the adaptation field, where there is one. -/
theorem payloadOffset_encode (carrier : Carrier) (pid : Nat) :
    Demuxer.payloadOffset (carrier.encode pid) = .ok (4 + carrier.adaptationField.length) ∧
      (byteAt (carrier.encode pid) 3 >>> 4) &&& 0x03 ≠ 0x02 := by
  have fills := carrier.fills
  have scrambling := carrier.scrambling_lt
  have continuity := carrier.continuity_lt
  have control : byteAt (carrier.encode pid) 3 = UInt8.ofNat carrier.control := rfl
  have bound : carrier.control < 256 := by
    unfold Carrier.control
    split <;> omega
  have high : (UInt8.ofNat carrier.control >>> 4).toNat = carrier.control / 16 := by
    rw [UInt8.toNat_shiftRight, toNat_ofNat bound, Nat.shiftRight_eq_div_pow]
    rfl
  have low : ((UInt8.ofNat carrier.control >>> 4) &&& 0x03).toNat = carrier.control / 16 % 4 := by
    rw [UInt8.toNat_and, high]
    exact Nat.and_two_pow_sub_one_eq_mod _ 2
  have flag : (UInt8.ofNat carrier.control >>> 4) &&& 0x02 ≠ 0 ↔ carrier.adaptation.isSome = true := by
    rw [byte_bit (i := 1) high rfl]
    unfold Carrier.control
    cases carrier.adaptation.isSome <;> simp <;> omega
  constructor
  · unfold Demuxer.payloadOffset adaptationField
    rw [control]
    cases field : carrier.adaptation with
    | none =>
      rw [if_neg (by rw [flag, field]; exact Bool.false_ne_true)]
      rfl
    | some field' =>
      have size : byteAt (carrier.encode pid) 4 = UInt8.ofNat field'.length := by
        unfold encode adaptationField
        rw [field]
        rfl
      rw [field, Option.elim_some] at fills
      rw [if_pos (by rw [flag, field]; rfl), size, toNat_ofNat (by omega)]
      unfold packetSize
      rw [if_neg (by omega), Option.elim_some, List.length_cons]
      congr 1
      omega
  · rw [control]
    intro same
    have odd : carrier.control / 16 % 4 = 2 := by
      rw [← low, same]
      rfl
    unfold Carrier.control at odd
    split at odd <;> omega

/-- The payload of a carrier is handed to the reader its PID names. -/
theorem packet_encode (carrier : Carrier) {pid : Nat} (pid_lt : pid < 8192) (demuxer : Demuxer) :
    demuxer.packet (carrier.encode pid) =
      demuxer.dispatch pid carrier.header.isSome carrier.payload := by
  have first : byteAt (carrier.encode pid) 1 = UInt8.ofNat (carrier.flags pid) := rfl
  have bound : carrier.flags pid < 128 := by
    unfold flags
    split <;> split <;> omega
  have value := toNat_ofNat (n := carrier.flags pid) (by omega)
  have sound : ¬ byteAt (carrier.encode pid) 1 &&& 0x80 ≠ 0 := by
    rw [first, byte_bit (i := 7) value rfl]
    omega
  have starts : decide (byteAt (carrier.encode pid) 1 &&& 0x40 ≠ 0) = carrier.header.isSome := by
    rw [first, Bool.eq_iff_iff, decide_eq_true_iff, byte_bit (i := 6) value rfl]
    unfold flags
    cases carrier.header.isSome <;> cases carrier.priority <;> simp <;> omega
  have size := carrier.encode_length pid
  have whole : (carrier.encode pid).drop (4 + carrier.adaptationField.length) =
      carrier.payload := by
    unfold encode
    rw [List.drop_append_of_le_length (by simp; omega), List.drop_of_length_le (by simp; omega),
      List.nil_append]
  have short : ¬ packetSize ≤ 4 + carrier.adaptationField.length := by
    intro long
    rw [List.drop_of_length_le (by omega)] at whole
    exact carrier.payload_ne whole.symm
  obtain ⟨offset, behind⟩ := carrier.payloadOffset_encode pid
  unfold Demuxer.packet
  rw [if_neg fun other => other size, if_neg sound]
  rw [offset]
  simp only [bind, Except.bind]
  rw [if_neg (by rintro (same | long); exacts [behind same, short long]), whole, starts,
    carrier.packetPid_encode pid_lt]

end Carrier

/-- A packet without payload: flagged as damaged, or with an adaptation field only. -/
def IsIdle (packet : Bytes) : Prop :=
  byteAt packet 1 &&& 0x80 ≠ 0 ∨ (byteAt packet 3 >>> 4) &&& 0x03 = 0x02

/-- The packets of a stream, and among them the carriers of one PID, in order. -/
inductive Carries (pid : Nat) : List Bytes → List Carrier → Prop where
  | nil : Carries pid [] []
  | other {packet : Bytes} {packets : List Bytes} {carriers : List Carrier}
      (size : packet.length = packetSize)
      (elsewhere : Demuxer.packetPid packet ≠ pid ∨ IsIdle packet)
      (rest : Carries pid packets carriers) : Carries pid (packet :: packets) carriers
  | carrier {packets : List Bytes} {carriers : List Carrier} (carrier : Carrier)
      (rest : Carries pid packets carriers) :
      Carries pid (carrier.encode pid :: packets) (carrier :: carriers)

theorem Carries.sizes {pid : Nat} {packets : List Bytes} {carriers : List Carrier}
    (carries : Carries pid packets carriers) : ∀ packet ∈ packets, packet.length = packetSize := by
  induction carries with
  | nil => exact fun packet member => absurd member List.not_mem_nil
  | other size _ _ ih =>
    intro packet member
    rcases List.mem_cons.mp member with rfl | later
    · exact size
    · exact ih packet later
  | carrier carrier _ ih =>
    intro packet member
    rcases List.mem_cons.mp member with rfl | later
    · exact carrier.encode_length pid
    · exact ih packet later

/-- The packets of a file are those it was put together from. -/
theorem packets_flatten {list : List Bytes} {tail : Bytes} {rounds : Nat}
    (enough : list.length ≤ rounds) (sizes : ∀ packet ∈ list, packet.length = packetSize)
    (short : tail.length < packetSize) : packets rounds (list.flatten ++ tail) = list := by
  induction list generalizing rounds with
  | nil =>
    cases rounds with
    | zero => rfl
    | succ rounds =>
      unfold packets
      rw [List.flatten_nil, List.nil_append, if_pos short]
  | cons packet list ih =>
    have size := sizes packet List.mem_cons_self
    cases rounds with
    | zero => cases enough
    | succ rounds =>
      have others := ih (Nat.le_of_succ_le_succ enough)
        (fun other member => sizes other (List.mem_cons_of_mem _ member))
      unfold packets
      rw [List.flatten_cons, List.append_assoc, if_neg (by rw [List.length_append]; omega), ← size,
        List.take_left, List.drop_left, others]

end Gunda.Stream.Ts

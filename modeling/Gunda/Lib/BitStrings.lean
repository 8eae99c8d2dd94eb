import Gunda.Lib.Bytes
import Mathlib.Tactic.Common

/-!
# Bit strings

Numbers written with the highest bit first: in a fixed number of bits, and in
Exp-Golomb codes. Bit strings are packed into bytes, the last one filled up with zeros.
-/
namespace Gunda.Lib.BitStrings

variable {count : Nat}

/-- The lowest bits of a number, the highest of them first. -/
def bitsOf : Nat → Nat → List Bool
  | 0, _ => []
  | count + 1, value => value.testBit count :: bitsOf count value

/-- The number that some bits continue. -/
def onto (value : Nat) (bits : List Bool) : Nat :=
  bits.foldl (fun value bit => 2 * value + bit.toNat) value

@[simp] theorem bitsOf_length (count value : Nat) : (bitsOf count value).length = count := by
  induction count with
  | zero => rfl
  | succ count ih => rw [bitsOf, List.length_cons, ih]

@[simp] theorem onto_nil (value : Nat) : onto value [] = value := rfl

@[simp] theorem onto_cons (value : Nat) (bit : Bool) (bits : List Bool) :
    onto value (bit :: bits) = onto (2 * value + bit.toNat) bits := rfl

theorem onto_eq (value : Nat) (bits : List Bool) :
    onto value bits = 2 ^ bits.length * value + onto 0 bits := by
  induction bits generalizing value with
  | nil => simp
  | cons bit bits ih =>
    rw [onto_cons, onto_cons, ih, ih (2 * 0 + bit.toNat), List.length_cons, Nat.pow_succ]
    ring_nf

theorem onto_lt (bits : List Bool) : onto 0 bits < 2 ^ bits.length := by
  induction bits with
  | nil => exact Nat.one_pos
  | cons bit bits ih =>
    rw [onto_cons, onto_eq, List.length_cons, Nat.pow_succ]
    cases bit <;> simp <;> omega

theorem onto_bitsOf (count value start : Nat) :
    onto start (bitsOf count value) = 2 ^ count * start + value % 2 ^ count := by
  induction count generalizing start with
  | zero => simp [bitsOf, Nat.mod_one]
  | succ count ih =>
    rw [bitsOf, onto_cons, ih, Nat.mod_pow_succ, Nat.toNat_testBit, Nat.pow_succ]
    ring

theorem bitsOf_congr {x y : Nat} (same : ∀ i < count, x.testBit i = y.testBit i) :
    bitsOf count x = bitsOf count y := by
  induction count with
  | zero => rfl
  | succ count ih =>
    rw [bitsOf, bitsOf, same count (Nat.lt_succ_self count),
      ih fun i inside => same i (Nat.lt_succ_of_lt inside)]

/-- As many bits as a number has been read from give it back. -/
theorem bitsOf_onto (bits : List Bool) : bitsOf bits.length (onto 0 bits) = bits := by
  induction bits with
  | nil => rfl
  | cons bit bits ih =>
    have split : onto 0 (bit :: bits) = 2 ^ bits.length * bit.toNat + onto 0 bits := by
      rw [onto_cons, onto_eq, Nat.mul_zero, Nat.zero_add]
    have low := onto_lt bits
    rw [List.length_cons, bitsOf, split, Nat.testBit_two_pow_mul_add _ low]
    congr 1
    · rw [if_neg (Nat.lt_irrefl _), Nat.sub_self]
      cases bit <;> rfl
    · refine (bitsOf_congr fun i inside => ?_).trans ih
      rw [Nat.testBit_two_pow_mul_add _ low, if_pos inside]

/-! ## Bytes -/

def unpack (bytes : Bytes) : List Bool := bytes.flatMap fun byte => bitsOf 8 byte.toNat

theorem unpack_cons (byte : UInt8) (bytes : Bytes) :
    unpack (byte :: bytes) = bitsOf 8 byte.toNat ++ unpack bytes := List.flatMap_cons

def byteOf (bits : List Bool) : UInt8 := UInt8.ofNat (onto 0 bits)

def packInto : Nat → List Bool → Bytes
  | 0, _ => []
  | count + 1, bits =>
      byteOf (bits.take 8 ++ List.replicate (8 - bits.length) false) :: packInto count (bits.drop 8)

/-- Bits in bytes, the last byte filled up with zeros. -/
def pack (bits : List Bool) : Bytes := packInto ((bits.length + 7) / 8) bits

theorem bitsOf_byteOf {bits : List Bool} (eight : bits.length = 8) :
    bitsOf 8 (byteOf bits).toNat = bits := by
  have small := onto_lt bits
  rw [eight] at small
  rw [byteOf, UInt8.toNat_ofNat', Nat.mod_eq_of_lt small, ← eight, bitsOf_onto]

theorem unpack_packInto {bits : List Bool} (enough : bits.length ≤ 8 * count) :
    ∃ filling, unpack (packInto count bits) = bits ++ List.replicate filling false := by
  induction count generalizing bits with
  | zero =>
    rw [List.length_eq_zero_iff.mp (Nat.le_zero.mp enough)]
    exact ⟨0, rfl⟩
  | succ count ih =>
    obtain ⟨filling, rest⟩ := @ih (bits.drop 8) (by rw [List.length_drop]; omega)
    have eight : (bits.take 8 ++ List.replicate (8 - bits.length) false).length = 8 := by
      rw [List.length_append, List.length_take, List.length_replicate]
      omega
    rw [packInto, unpack_cons, bitsOf_byteOf eight, rest]
    rcases Nat.lt_or_ge bits.length 8 with short | long
    · refine ⟨8 - bits.length + filling, ?_⟩
      rw [List.take_of_length_le short.le, List.drop_of_length_le short.le, List.nil_append,
        List.append_assoc, List.replicate_append_replicate]
    · refine ⟨filling, ?_⟩
      rw [Nat.sub_eq_zero_of_le long, List.replicate_zero, List.append_nil, ← List.append_assoc,
        List.take_append_drop]

theorem unpack_pack (bits : List Bool) :
    ∃ filling, unpack (pack bits) = bits ++ List.replicate filling false :=
  unpack_packInto (by omega)

theorem getElem?_bitsOf {value i : Nat} (inside : i < count) :
    (bitsOf count value)[i]? = some (value.testBit (count - 1 - i)) := by
  induction count generalizing i with
  | zero => omega
  | succ count ih =>
    cases i with
    | zero => rfl
    | succ i =>
      rw [bitsOf, List.getElem?_cons_succ, ih (by omega)]
      congr 2
      omega

theorem getElem?_unpack (bytes : Bytes) (i : Nat) :
    (unpack bytes)[i]? = bytes[i / 8]?.map fun byte => byte.toNat.testBit (7 - i % 8) := by
  induction bytes generalizing i with
  | nil => rfl
  | cons byte bytes ih =>
    rw [unpack_cons]
    by_cases first : i < 8
    · rw [List.getElem?_append_left (by simpa using first), getElem?_bitsOf first,
        Nat.div_eq_of_lt first, Nat.mod_eq_of_lt first]
      rfl
    · obtain ⟨i, rfl⟩ := Nat.exists_eq_add_of_le (Nat.le_of_not_lt first)
      rw [List.getElem?_append_right (by simp), bitsOf_length, Nat.add_sub_cancel_left,
        Nat.add_div_left i (by decide), Nat.add_mod_left]
      exact ih i

/-! ## Exp-Golomb codes -/

/-- As many zeros as bits follow the first one bit of the number increased by one. -/
def golomb (value : Nat) : List Bool :=
  List.replicate (value + 1).log2 false ++ true :: bitsOf (value + 1).log2 (value + 1)

/-- Positive numbers stand before the negative ones of the same size. -/
def signedGolomb (value : Int) : List Bool :=
  golomb (if 0 < value then 2 * value.natAbs - 1 else 2 * value.natAbs)

theorem two_pow_log2_add_mod (value : Nat) :
    2 ^ (value + 1).log2 + (value + 1) % 2 ^ (value + 1).log2 = value + 1 := by
  have least : 2 ^ (value + 1).log2 ≤ value + 1 := Nat.log2_self_le (Nat.succ_ne_zero value)
  have most : value + 1 < 2 ^ ((value + 1).log2 + 1) := Nat.lt_log2_self
  rw [Nat.pow_succ] at most
  rw [Nat.mod_eq_sub_mod least, Nat.mod_eq_of_lt (by omega)]
  omega

end Gunda.Lib.BitStrings

import Mathlib.Data.List.Basic
import Mathlib.Tactic.Ring

/-!
# Byte strings

Big-endian numbers, slices of a file, and strings each behind its four-byte length.
-/
namespace Gunda.Lib

abbrev Bytes := List UInt8

namespace Bytes

/-- The last `width` bytes of a number, the most significant first. -/
def be : Nat → Nat → Bytes
  | 0, _ => []
  | width + 1, n => UInt8.ofNat (n / 256 ^ width) :: be width n

def readBe : Bytes → Nat
  | [] => 0
  | byte :: bytes => byte.toNat * 256 ^ bytes.length + readBe bytes

@[simp] theorem be_length (width n : Nat) : (be width n).length = width := by
  induction width with
  | zero => rfl
  | succ width ih => simp only [be, List.length_cons, ih]

theorem readBe_be_mod (width n : Nat) : readBe (be width n) = n % 256 ^ width := by
  induction width with
  | zero => simp [be, readBe, Nat.mod_one]
  | succ width ih =>
    have top : (UInt8.ofNat (n / 256 ^ width)).toNat = n / 256 ^ width % 256 := by simp
    have split := Nat.mod_mul (a := 256 ^ width) (b := 256) (x := n)
    simp only [be, readBe, be_length, ih, top]
    rw [Nat.pow_succ, split, Nat.add_comm, Nat.mul_comm]

theorem readBe_be {width n : Nat} (fits : n < 256 ^ width) : readBe (be width n) = n := by
  rw [readBe_be_mod, Nat.mod_eq_of_lt fits]

theorem readBe_lt (bytes : Bytes) : readBe bytes < 256 ^ bytes.length := by
  induction bytes with
  | nil => simp [readBe]
  | cons byte bytes ih =>
    have small : byte.toNat ≤ 255 := by
      have := byte.toNat_lt
      omega
    have scaled := Nat.mul_le_mul_right (256 ^ bytes.length) small
    simp only [readBe, List.length_cons, Nat.pow_succ]
    omega

theorem be_add_mul (width n k : Nat) : be width (n + k * 256 ^ width) = be width n := by
  induction width generalizing n k with
  | zero => rfl
  | succ width ih =>
    have shift : n + k * 256 ^ (width + 1) = n + (k * 256) * 256 ^ width := by ring
    have top : (n + (k * 256) * 256 ^ width) / 256 ^ width = n / 256 ^ width + k * 256 :=
      Nat.add_mul_div_right n (k * 256) (Nat.pow_pos (by decide))
    have low : UInt8.ofNat (n / 256 ^ width + k * 256) = UInt8.ofNat (n / 256 ^ width) := by
      apply UInt8.toNat_inj.mp
      rw [UInt8.toNat_ofNat', UInt8.toNat_ofNat', Nat.add_mul_mod_self_right]
    rw [be, be, shift, top, low, ih]

/-- A number is written with the bytes it was read from. -/
theorem be_readBe (bytes : Bytes) : be bytes.length (readBe bytes) = bytes := by
  induction bytes with
  | nil => rfl
  | cons byte bytes ih =>
    have top : readBe (byte :: bytes) / 256 ^ bytes.length = byte.toNat := by
      rw [readBe, Nat.add_comm, Nat.add_mul_div_right _ _ (Nat.pow_pos (by decide)),
        Nat.div_eq_of_lt (readBe_lt bytes), Nat.zero_add]
    have rest : be bytes.length (readBe (byte :: bytes)) = bytes := by
      rw [readBe, Nat.add_comm, be_add_mul, ih]
    rw [List.length_cons, be, top, rest, UInt8.ofNat_toNat]

/-! ## Slices -/

def slice (bytes : Bytes) (offset size : Nat) : Bytes := (bytes.drop offset).take size

theorem slice_append (before middle after : Bytes) :
    slice (before ++ middle ++ after) before.length middle.length = middle := by
  simp [slice, List.append_assoc]

/-! ## Strings behind their lengths -/

def prefixed (bytes : Bytes) : Bytes := be 4 bytes.length ++ bytes

/-- Reads strings behind their lengths until the end; as many rounds as bytes are
enough. -/
def readPrefixedRounds : Nat → Bytes → Option (List Bytes)
  | _, [] => some []
  | rounds + 1, a :: b :: c :: d :: rest =>
      let size := readBe [a, b, c, d]
      if rest.length < size then none
      else (readPrefixedRounds rounds (rest.drop size)).map (rest.take size :: ·)
  | _, _ => none

def readPrefixed (bytes : Bytes) : Option (List Bytes) := readPrefixedRounds bytes.length bytes

theorem readPrefixedRounds_append {first rest : Bytes} {rounds : Nat}
    (small : first.length < 2 ^ 32) :
    readPrefixedRounds (rounds + 1) (prefixed first ++ rest) =
      (readPrefixedRounds rounds rest).map (first :: ·) := by
  have size : readBe (be 4 first.length) = first.length := readBe_be small
  have shape : prefixed first ++ rest = be 4 first.length ++ (first ++ rest) := by
    rw [prefixed, List.append_assoc]
  rw [shape]
  simp only [be, List.cons_append, List.nil_append, readPrefixedRounds] at size ⊢
  rw [size, if_neg (by simp), List.drop_left, List.take_left]

theorem readPrefixedRounds_flatMap {strings : List Bytes} {rounds : Nat}
    (enough : strings.length ≤ rounds) (small : ∀ bytes ∈ strings, bytes.length < 2 ^ 32) :
    readPrefixedRounds rounds (strings.flatMap prefixed) = some strings := by
  induction strings generalizing rounds with
  | nil => cases rounds <;> rfl
  | cons first strings ih =>
    cases rounds with
    | zero => cases enough
    | succ rounds =>
      have others := ih (Nat.le_of_succ_le_succ enough)
        (fun bytes member => small bytes (List.mem_cons_of_mem _ member))
      rw [List.flatMap_cons, readPrefixedRounds_append (small first List.mem_cons_self), others]
      rfl

/-- What is written behind lengths is read back. -/
theorem readPrefixed_flatMap {strings : List Bytes}
    (small : ∀ bytes ∈ strings, bytes.length < 2 ^ 32) :
    readPrefixed (strings.flatMap prefixed) = some strings := by
  refine readPrefixedRounds_flatMap ?_ small
  induction strings with
  | nil => simp
  | cons first strings ih =>
    have shorter := ih fun bytes member => small bytes (List.mem_cons_of_mem _ member)
    simp only [List.flatMap_cons, List.length_append, List.length_cons, prefixed, be_length] at *
    omega

end Bytes

end Gunda.Lib

import Gunda.Lib.Bytes

/-!
# EBML headers

The header of an EBML document: elements in any order, each with an identifier, a size of any
width that fits, and its data.
-/
namespace Gunda.Lib.Ebml

/-- A number behind the marker bit that tells in how many bytes it is written. -/
def vint (width n : Nat) : Bytes := Bytes.be width (2 ^ (7 * width) + n)

/-- The widths a size can be written in; all ones stand for a size that is not known. -/
def Sized (width n : Nat) : Prop := 1 ≤ width ∧ width ≤ 8 ∧ n + 1 < 2 ^ (7 * width)

instance (width n : Nat) : Decidable (Sized width n) :=
  inferInstanceAs (Decidable (_ ∧ _ ∧ _))

theorem vint_length (width n : Nat) : (vint width n).length = width := Bytes.be_length _ _

/-- The first byte of a size tells its width. -/
theorem vint_head {width n : Nat} (sized : Sized width n) : ∃ byte rest,
    vint width n = byte :: rest ∧ 2 ^ (8 - width) ≤ byte.toNat ∧
      byte.toNat = 2 ^ (8 - width) + n / 256 ^ (width - 1) := by
  obtain ⟨some_byte, few, small⟩ := sized
  cases width with
  | zero => omega
  | succ width =>
    have split : 2 ^ (7 * (width + 1)) = 2 ^ (8 - (width + 1)) * 256 ^ width := by
      rw [show (256 : Nat) = 2 ^ 8 from rfl, ← Nat.pow_mul, ← Nat.pow_add]
      congr 1
      omega
    have top : (2 ^ (7 * (width + 1)) + n) / 256 ^ width =
        2 ^ (8 - (width + 1)) + n / 256 ^ width := by
      rw [split, Nat.add_comm, Nat.add_mul_div_right _ _ (Nat.pow_pos (by decide)), Nat.add_comm]
    have low : n / 256 ^ width < 2 ^ (8 - (width + 1)) := by
      rw [Nat.div_lt_iff_lt_mul (Nat.pow_pos (by decide)), ← split]
      omega
    have bound : 2 ^ (8 - (width + 1)) ≤ 128 :=
      Nat.pow_le_pow_right (by decide) (by omega : 8 - (width + 1) ≤ 7)
    have value : (UInt8.ofNat (2 ^ (8 - (width + 1)) + n / 256 ^ width)).toNat =
        2 ^ (8 - (width + 1)) + n / 256 ^ width := by
      rw [UInt8.toNat_ofNat', Nat.mod_eq_of_lt (by omega)]
    refine ⟨_, _, by rw [vint, Bytes.be, top], ?_, ?_⟩
    · rw [value]
      exact Nat.le_add_right _ _
    · rw [value, Nat.add_sub_cancel]

structure Element where
  id : Bytes
  width : Nat
  data : Bytes
  sized : Sized width data.length

def Element.encode (element : Element) : Bytes :=
  element.id ++ vint element.width element.data.length ++ element.data

def docTypeId : Bytes := [0x42, 0x82]

/-- The elements of a header: its versions and limits, the document type with its versions and
extensions, padding, and a checksum. -/
def headerIds : List Bytes :=
  [[0x42, 0x86], [0x42, 0xF7], [0x42, 0xF2], [0x42, 0xF3], docTypeId, [0x42, 0x87], [0x42, 0x85],
    [0x42, 0x81], [0xEC], [0xBF]]

def magic : Bytes := [0x1A, 0x45, 0xDF, 0xA3]

/-- A header names its document type once. -/
structure Header where
  width : Nat
  before : List Element
  docType : Element
  after : List Element
  known : ∀ element ∈ before ++ after, element.id ∈ headerIds ∧ element.id ≠ docTypeId
  typed : docType.id = docTypeId
  sized : Sized width ((before ++ docType :: after).flatMap Element.encode).length

namespace Header

def body (header : Header) : Bytes :=
  (header.before ++ header.docType :: header.after).flatMap Element.encode

def encode (header : Header) : Bytes :=
  magic ++ vint header.width header.body.length ++ header.body

/-- The document type; zeros behind it are padding. -/
def documentType (header : Header) : Bytes := header.docType.data.takeWhile (· ≠ 0)

/-- Behind the magic bytes stands the size, whose first byte is small only where it is wide. -/
theorem encode_head (header : Header) : ∃ byte rest, header.encode = magic ++ byte :: rest ∧
    byte.toNat = 2 ^ (8 - header.width) + header.body.length / 256 ^ (header.width - 1) := by
  obtain ⟨byte, rest, spelled, -, value⟩ := vint_head header.sized
  refine ⟨byte, rest ++ header.body, ?_, value⟩
  have size : vint header.width header.body.length = byte :: rest := spelled
  rw [encode, size, List.append_assoc]
  rfl

theorem body_length_lt (header : Header) : header.body.length < header.encode.length := by
  unfold encode magic
  simp only [List.length_append, vint_length, List.length_cons]
  omega

end Header

end Gunda.Lib.Ebml

import Gunda.Lib.Text

/-!
# Texts cut at delimiters

When the place of a cut can be told from what is before it: a delimiter that does not
occur earlier, or a first symbol of another kind. And the bytes of a text, of which
those below 0x80 are its characters below 0x80.
-/
namespace Gunda.Lib

section

variable {α : Type}
variable {a b a' b' : List α}

/-- The first occurrence of a delimiter is one place. -/
theorem cut_unique {delimiter : α} (h : a ++ delimiter :: b = a' ++ delimiter :: b')
    (absent : delimiter ∉ a) (absent' : delimiter ∉ a') : a = a' ∧ b = b' := by
  induction a generalizing a' with
  | nil =>
    cases a' with
    | nil => exact ⟨rfl, (List.cons.inj h).2⟩
    | cons c rest =>
      have same := (List.cons.inj h).1
      rw [same] at absent'
      exact absurd List.mem_cons_self absent'
  | cons c rest ih =>
    cases a' with
    | nil =>
      have same := (List.cons.inj h).1
      rw [same] at absent
      exact absurd List.mem_cons_self absent
    | cons c' rest' =>
      obtain ⟨first, later⟩ := List.cons.inj h
      rw [List.mem_cons, not_or] at absent absent'
      obtain ⟨same, remaining⟩ := ih later absent.2 absent'.2
      rw [first, same]
      exact ⟨rfl, remaining⟩

/-- Symbols of one kind end where the first of another kind is, or at the end. -/
theorem span_unique {kind : α → Bool} (h : a ++ b = a' ++ b') (all : ∀ c ∈ a, kind c = true)
    (all' : ∀ c ∈ a', kind c = true) (other : ∀ c ∈ b.head?, kind c = false)
    (other' : ∀ c ∈ b'.head?, kind c = false) :
    a = a' ∧ b = b' := by
  have front : ∀ {a b : List α}, (∀ c ∈ a, kind c = true) → (∀ c ∈ b.head?, kind c = false) →
      (a ++ b).takeWhile kind = a := by
    intro a b all other
    rw [List.takeWhile_append_of_pos all]
    cases b with
    | nil => exact List.append_nil a
    | cons c rest =>
      rw [List.takeWhile_cons, other c rfl]
      exact List.append_nil a
  have same : a = a' := by
    rw [← front all other, h, front all' other']
  rw [same] at h
  exact ⟨same, List.append_cancel_left h⟩

/-- What is before a delimiter that need not follow. -/
theorem until_unique [DecidableEq α] {delimiter : α} (h : a ++ b = a' ++ b')
    (absent : delimiter ∉ a) (absent' : delimiter ∉ a') (head : ∀ c ∈ b.head?, c = delimiter)
    (head' : ∀ c ∈ b'.head?, c = delimiter) : a = a' ∧ b = b' := by
  have before : ∀ {a : List α}, delimiter ∉ a → ∀ c ∈ a, (c != delimiter) = true := by
    intro a absent c member
    rw [bne_iff_ne]
    intro same
    rw [same] at member
    exact absent member
  have after : ∀ {b : List α}, (∀ c ∈ b.head?, c = delimiter) →
      ∀ c ∈ b.head?, (c != delimiter) = false := by
    intro b head c first
    rw [head c first]
    exact bne_self_eq_false delimiter
  exact span_unique h (before absent) (before absent') (after head) (after head')

end

/-! ## Bytes of a text -/

theorem byteArray_toList_loop (bytes : ByteArray) (i : Nat) (front : List UInt8) :
    ByteArray.toList.loop bytes i front = front.reverse ++ bytes.data.toList.drop i := by
  induction i, front using ByteArray.toList.loop.induct bytes with
  | case1 i front inside ih =>
    unfold ByteArray.toList.loop
    have position : i < bytes.data.toList.length := by simpa using inside
    rw [if_pos inside, ih, List.reverse_cons, List.append_assoc,
      List.drop_eq_getElem_cons position]
    congr 1
    simp [ByteArray.get!, getElem!_pos, inside]
  | case2 i front outside =>
    unfold ByteArray.toList.loop
    rw [if_neg outside, List.drop_eq_nil_of_le (by simpa using outside), List.append_nil]

theorem toUTF8_toList (text : Text) :
    (String.ofList text).toUTF8.toList = text.flatMap String.utf8EncodeChar := by
  change ByteArray.toList.loop _ 0 [] = _
  rw [byteArray_toList_loop]
  change List.drop 0 (String.ofList text).toByteArray.data.toList = _
  rw [String.toByteArray_ofList]
  simp [List.utf8Encode]

theorem toUTF8_toList_injective {a b : Text}
    (h : (String.ofList a).toUTF8.toList = (String.ofList b).toUTF8.toList) : a = b := by
  rw [toUTF8_toList, toUTF8_toList] at h
  have bytes : a.utf8Encode = b.utf8Encode := by
    unfold List.utf8Encode
    rw [h]
  have decoded := congrArg ByteArray.utf8Decode? bytes
  rw [List.utf8Decode?_utf8Encode, List.utf8Decode?_utf8Encode] at decoded
  simpa using decoded

/-- A byte below 0x80 is a character of its own. -/
theorem toNat_of_mem_utf8EncodeChar {c : Char} {byte : UInt8} (member : byte ∈ String.utf8EncodeChar c)
    (low : byte.toNat < 128) : c.toNat = byte.toNat := by
  unfold String.utf8EncodeChar at member
  dsimp only at member
  split at member
  · rename_i ascii
    rw [List.mem_singleton.mp member, UInt8.toNat_ofNat']
    change c.toNat = c.toNat % 256
    have bound : c.toNat ≤ 127 := ascii
    omega
  · exfalso
    split at member
    · simp only [List.mem_cons, List.not_mem_nil, or_false] at member
      rcases member with rfl | rfl <;> rw [UInt8.toNat_ofNat'] at low <;> omega
    · split at member <;> simp only [List.mem_cons, List.not_mem_nil, or_false] at member
      · rcases member with rfl | rfl | rfl <;> rw [UInt8.toNat_ofNat'] at low <;> omega
      · rcases member with rfl | rfl | rfl | rfl <;> rw [UInt8.toNat_ofNat'] at low <;> omega

end Gunda.Lib

import Gunda.Lib.Text

/-!
# UTF-8

A sequence of bytes decodes to a text exactly when it is the encoding of that text.
-/
namespace Gunda.Lib.Text

variable {n : Nat}

def toUtf8 (text : Text) : List UInt8 := text.flatMap String.utf8EncodeChar

theorem toUtf8_cons (c : Char) (text : Text) :
    toUtf8 (c :: text) = String.utf8EncodeChar c ++ toUtf8 text := rfl

theorem toNat_ofNat_of_lt (small : n < 256) : (UInt8.ofNat n).toNat = n := by
  rw [UInt8.toNat_ofNat', Nat.mod_eq_of_lt small]

theorem continuation_ofNat (small : n < 64) :
    continuation (UInt8.ofNat (n + 0x80)) = some n := by
  unfold continuation
  rw [toNat_ofNat_of_lt (by omega), if_pos (by omega), Nat.add_sub_cancel]

theorem scalar_toNat {least : Nat} {c : Char} (large : least ≤ c.toNat) :
    scalar least c.toNat = some c := by
  unfold scalar
  rw [if_pos ⟨large, c.valid⟩, Char.ofNat_toNat]

theorem utf8EncodeChar_eq (c : Char) : String.utf8EncodeChar c =
    if c.toNat ≤ 0x7f then [UInt8.ofNat c.toNat]
    else if c.toNat ≤ 0x7ff then
      [UInt8.ofNat (c.toNat / 64 % 0x20 + 0xc0), UInt8.ofNat (c.toNat % 0x40 + 0x80)]
    else if c.toNat ≤ 0xffff then
      [UInt8.ofNat (c.toNat / 4096 % 0x10 + 0xe0), UInt8.ofNat (c.toNat / 64 % 0x40 + 0x80),
        UInt8.ofNat (c.toNat % 0x40 + 0x80)]
    else
      [UInt8.ofNat (c.toNat / 262144 % 0x08 + 0xf0), UInt8.ofNat (c.toNat / 4096 % 0x40 + 0x80),
        UInt8.ofNat (c.toNat / 64 % 0x40 + 0x80), UInt8.ofNat (c.toNat % 0x40 + 0x80)] := rfl

/-- The encoding of a character decodes to that character and leaves the rest. -/
theorem fromUtf8_encode (c : Char) (rest : List UInt8) :
    fromUtf8 (String.utf8EncodeChar c ++ rest) = (fromUtf8 rest).map (c :: ·) := by
  have valid : c.toNat < 0x110000 := by
    rcases c.valid with low | ⟨_, high⟩
    · exact Nat.lt_trans low (by decide)
    · exact high
  rw [utf8EncodeChar_eq]
  split
  · rename_i one
    rw [List.singleton_append, fromUtf8.eq_def]
    dsimp only
    rw [toNat_ofNat_of_lt (by omega), if_pos (by omega),
      Char.ofNat_toNat]
  · rename_i above
    have last := continuation_ofNat (Nat.mod_lt c.toNat (by decide : 0 < 0x40))
    split
    · rename_i two
      have value : (c.toNat / 64 % 0x20 + 0xc0 - 0xc0) * 64 + c.toNat % 0x40 = c.toNat := by omega
      rw [List.cons_append, List.singleton_append, fromUtf8.eq_def]
      dsimp only
      rw [toNat_ofNat_of_lt (by omega), if_neg (by omega), if_neg (by omega)]
      simp only [last, Option.bind_eq_bind, Option.bind_some]
      rw [if_pos (by omega), value, scalar_toNat (by omega)]
      rfl
    · rename_i wide
      have third := continuation_ofNat (Nat.mod_lt (c.toNat / 64) (by decide : 0 < 0x40))
      split
      · rename_i three
        have value : ((c.toNat / 4096 % 0x10 + 0xe0 - 0xe0) * 64 + c.toNat / 64 % 0x40) * 64 +
            c.toNat % 0x40 = c.toNat := by omega
        rw [List.cons_append, List.cons_append, List.singleton_append,
          fromUtf8.eq_def]
        dsimp only
        rw [toNat_ofNat_of_lt (by omega), if_neg (by omega), if_neg (by omega)]
        simp only [third, last, Option.bind_eq_bind, Option.bind_some]
        rw [if_neg (by omega), if_pos (by omega), value, scalar_toNat (by omega)]
        rfl
      · rename_i four
        have second := continuation_ofNat (Nat.mod_lt (c.toNat / 4096) (by decide : 0 < 0x40))
        have value : (((c.toNat / 262144 % 0x08 + 0xf0 - 0xf0) * 64 + c.toNat / 4096 % 0x40) * 64 +
            c.toNat / 64 % 0x40) * 64 + c.toNat % 0x40 = c.toNat := by omega
        rw [List.cons_append, List.cons_append, List.cons_append, List.singleton_append,
          fromUtf8.eq_def]
        dsimp only
        rw [toNat_ofNat_of_lt (by omega), if_neg (by omega), if_neg (by omega)]
        simp only [second, third, last, Option.bind_eq_bind, Option.bind_some]
        rw [if_neg (by omega), if_neg (by omega), if_pos (by omega), value,
          scalar_toNat (by omega)]
        rfl

/-- Every text is read back. -/
theorem fromUtf8_toUtf8 (text : Text) : fromUtf8 (toUtf8 text) = some text := by
  induction text with
  | nil => rfl
  | cons c text ih =>
    rw [toUtf8_cons, fromUtf8_encode, ih]
    rfl

theorem continuation_some {byte : UInt8} (h : continuation byte = some n) :
    n < 64 ∧ byte = UInt8.ofNat (n + 0x80) := by
  unfold continuation at h
  split at h
  · rename_i inside
    have same := Option.some.inj h
    refine ⟨by omega, ?_⟩
    rw [← same, Nat.sub_add_cancel inside.1, UInt8.ofNat_toNat]
  · cases h

theorem scalar_some {least value : Nat} {c : Char} (h : scalar least value = some c) :
    least ≤ value ∧ c.toNat = value := by
  unfold scalar at h
  split at h
  · rename_i fits
    have same := Option.some.inj h
    refine ⟨fits.1, ?_⟩
    rw [← same, Char.ofNat, dif_pos fits.2]
    rfl
  · cases h

/-- Only encodings are read. -/
theorem toUtf8_of_fromUtf8 {bytes : List UInt8} {text : Text} (h : fromUtf8 bytes = some text) :
    toUtf8 text = bytes := by
  induction length : bytes.length using Nat.strongRecOn generalizing bytes text with
  | _ n ih =>
    rw [fromUtf8.eq_def] at h
    split at h
    · cases h
      rfl
    · rename_i a rest
      have ends : ∀ {tail : List UInt8} {c : Char}, tail.length < n →
          (fromUtf8 tail).map (c :: ·) = some text →
            toUtf8 text = String.utf8EncodeChar c ++ tail := by
        intro tail c shorter decoded
        obtain ⟨text', found, same⟩ := Option.map_eq_some_iff.mp decoded
        rw [← same, toUtf8_cons, ih tail.length shorter found rfl]
      rw [List.length_cons] at length
      split at h
      · rename_i one
        have value : (Char.ofNat a.toNat).toNat = a.toNat :=
          (scalar_some (if_pos ⟨Nat.zero_le _, Or.inl (by omega)⟩)).2
        rw [ends (by omega) h, utf8EncodeChar_eq, value, if_pos (by omega), UInt8.ofNat_toNat]
        rfl
      · split at h
        · cases h
        · cases rest with
          | nil => cases h
          | cons b rest =>
            obtain ⟨second, read, h⟩ := Option.bind_eq_some_iff.mp h
            obtain ⟨low, same⟩ := continuation_some read
            rw [List.length_cons] at length
            split at h
            · obtain ⟨c, decoded, done⟩ := Option.bind_eq_some_iff.mp h
              obtain ⟨least, value⟩ := scalar_some decoded
              have top : ((a.toNat - 0xC0) * 64 + second) / 64 % 0x20 + 0xc0 = a.toNat := by omega
              have last : ((a.toNat - 0xC0) * 64 + second) % 0x40 = second := by omega
              rw [ends (by omega) done, utf8EncodeChar_eq, value, if_neg (by omega),
                if_pos (by omega), top, last, UInt8.ofNat_toNat, ← same]
              rfl
            · cases rest with
              | nil => cases h
              | cons third_ rest =>
                obtain ⟨third, read, h⟩ := Option.bind_eq_some_iff.mp h
                obtain ⟨low', same'⟩ := continuation_some read
                rw [List.length_cons] at length
                split at h
                · obtain ⟨c, decoded, done⟩ := Option.bind_eq_some_iff.mp h
                  obtain ⟨least, value⟩ := scalar_some decoded
                  generalize number : ((a.toNat - 0xE0) * 64 + second) * 64 + third = v at *
                  have top : v / 4096 % 0x10 + 0xe0 = a.toNat := by omega
                  have middle : v / 64 % 0x40 = second := by omega
                  have last : v % 0x40 = third := by omega
                  rw [ends (by omega) done, utf8EncodeChar_eq, value, if_neg (by omega),
                    if_neg (by omega), if_pos (by omega), top, middle, last, UInt8.ofNat_toNat,
                    ← same, ← same']
                  rfl
                · cases rest with
                  | nil => cases h
                  | cons fourth_ rest =>
                    obtain ⟨fourth, read, h⟩ := Option.bind_eq_some_iff.mp h
                    obtain ⟨low'', same''⟩ := continuation_some read
                    rw [List.length_cons] at length
                    split at h
                    · obtain ⟨c, decoded, done⟩ := Option.bind_eq_some_iff.mp h
                      obtain ⟨least, value⟩ := scalar_some decoded
                      generalize number :
                        (((a.toNat - 0xF0) * 64 + second) * 64 + third) * 64 + fourth = v at *
                      have top : v / 262144 % 0x08 + 0xf0 = a.toNat := by omega
                      have upper : v / 4096 % 0x40 = second := by omega
                      have middle : v / 64 % 0x40 = third := by omega
                      have last : v % 0x40 = fourth := by omega
                      rw [ends (by omega) done, utf8EncodeChar_eq, value, if_neg (by omega),
                        if_neg (by omega), if_neg (by omega), top, upper, middle, last,
                        UInt8.ofNat_toNat, ← same, ← same', ← same'']
                      rfl
                    · cases h

theorem fromUtf8_iff {bytes : List UInt8} {text : Text} :
    fromUtf8 bytes = some text ↔ bytes = toUtf8 text := by
  constructor
  · intro h
    exact (toUtf8_of_fromUtf8 h).symm
  · intro h
    rw [h, fromUtf8_toUtf8]

end Gunda.Lib.Text

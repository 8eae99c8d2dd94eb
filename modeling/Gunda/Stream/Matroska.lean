import Mathlib.Tactic.IntervalCases
import Gunda.Lib.Ebml
import Gunda.Stream.Container

/-!
# Matroska and WebM

Which EBML headers are told apart by the document type they name.
-/
namespace Gunda.Stream

open Gunda.Lib

/-- One of the first sixteen offsets spells the document type of WebM. -/
def SpellsWebm (head : Bytes) : Prop := ∃ offset < 16, Bytes.slice head offset 4 = ascii "webm"

instance (head : Bytes) : Decidable (SpellsWebm head) :=
  inferInstanceAs (Decidable (∃ offset < 16, _))

/-- What is found is the container of the document type, and neither for any other. -/
def Recognised (documentType : Bytes) (found : Option Container) : Prop :=
  (documentType = ascii "webm" → found = some .webm) ∧
    (documentType = ascii "matroska" → found = some .matroska) ∧
    (documentType ≠ ascii "webm" → documentType ≠ ascii "matroska" →
      found ≠ some .webm ∧ found ≠ some .matroska)

theorem matroska_of_magic {head : Bytes} (leads : ebmlMagic <+: head) :
    matroska head = if SpellsWebm head then some .webm else some .matroska := by
  have spelled : ((List.range 16).any fun offset => Bytes.slice head offset 4 = ascii "webm") = true ↔
      SpellsWebm head := by
    simp only [List.any_eq_true, List.mem_range, decide_eq_true_eq, SpellsWebm]
  unfold matroska
  rw [if_neg (not_not.mpr (List.isPrefixOf_iff_prefix.mpr leads))]
  by_cases webm : SpellsWebm head
  · rw [if_pos webm, if_pos (spelled.mpr webm)]
  · rw [if_neg webm, if_neg (mt spelled.mp webm)]

/-- The size of a header that fits does not look like a file type box. -/
theorem isoBaseMedia_ebml {header : Ebml.Header} {head : Bytes} (leads : header.encode <+: head)
    (fits : header.encode.length ≤ sniffBytes) (audioOnly : Bool) :
    isoBaseMedia head audioOnly = none := by
  obtain ⟨rest', whole⟩ := leads
  obtain ⟨byte, rest, encoded, value⟩ := header.encode_head
  obtain ⟨some_byte, few, -⟩ := header.sized
  have short := header.body_length_lt
  unfold sniffBytes at fits
  have other : byte.toNat ≠ 102 := by
    rw [value]
    generalize header.body.length = n at short
    have small : n ≤ 2048 := by omega
    generalize header.width = width at some_byte few
    interval_cases width <;> simp only [Nat.reduceSub, Nat.reducePow] <;> omega
  have first : (Bytes.slice head 4 4).head? = some byte := by
    rw [← whole, encoded]
    rfl
  unfold isoBaseMedia
  rw [if_pos]
  intro boxed
  rw [boxed] at first
  apply other
  cases first
  rfl

/-- A header of WebM is recognised exactly if its document type is spelled so far in front, a
header of Matroska exactly if nothing there spells the other, and no other header is. -/
theorem recognised_iff (header : Ebml.Header) (head : Bytes) (audioOnly : Bool)
    (leads : header.encode <+: head) (fits : header.encode.length ≤ sniffBytes) :
    Recognised header.documentType (sniff head audioOnly) ↔
      header.documentType = ascii "webm" ∧ SpellsWebm head ∨
        header.documentType = ascii "matroska" ∧ ¬ SpellsWebm head := by
  have magic : ebmlMagic <+: head :=
    List.IsPrefix.trans ⟨_, (List.append_assoc _ _ _).symm⟩ leads
  have sniffed : sniff head audioOnly = if SpellsWebm head then some .webm else some .matroska := by
    unfold sniff
    rw [isoBaseMedia_ebml leads fits, matroska_of_magic magic]
    split <;> rfl
  have different : ascii "webm" ≠ ascii "matroska" := by decide
  rw [sniffed]
  unfold Recognised
  by_cases spelled : SpellsWebm head
  · rw [if_pos spelled]
    constructor
    · intro h
      by_cases webm : header.documentType = ascii "webm"
      · exact .inl ⟨webm, spelled⟩
      · by_cases mkv : header.documentType = ascii "matroska"
        · cases h.2.1 mkv
        · exact absurd rfl (h.2.2 webm mkv).1
    · intro h
      cases h with
      | inl webm =>
        exact ⟨fun _ => rfl, fun mkv => absurd (webm.1.symm.trans mkv) different,
          fun other => absurd webm.1 other⟩
      | inr mkv => exact absurd spelled mkv.2
  · rw [if_neg spelled]
    constructor
    · intro h
      by_cases webm : header.documentType = ascii "webm"
      · cases h.1 webm
      · by_cases mkv : header.documentType = ascii "matroska"
        · exact .inr ⟨mkv, spelled⟩
        · exact absurd rfl (h.2.2 webm mkv).2
    · intro h
      cases h with
      | inl webm => exact absurd webm.2 spelled
      | inr mkv =>
        exact ⟨fun webm => absurd (webm.symm.trans mkv.1) different, fun _ => rfl,
          fun _ other => absurd mkv.1 other⟩

def headerElement (id : Bytes) (data : Bytes) (sized : Ebml.Sized 1 data.length) : Ebml.Element :=
  ⟨id, 1, data, sized⟩

/-- A header that names its document type and nothing else. -/
def shortHeader : Ebml.Header where
  width := 1
  before := []
  docType := headerElement Ebml.docTypeId (ascii "webm") (by decide)
  after := []
  known := fun _ none => (nomatch none)
  typed := rfl
  sized := by decide

theorem recognised_iff_shortHeader :
    Recognised shortHeader.documentType (sniff shortHeader.encode false) := by
  have leads : shortHeader.encode <+: shortHeader.encode := List.prefix_refl _
  exact (recognised_iff shortHeader shortHeader.encode false leads (by decide)).mpr (by decide)

/-- The header browsers write: the versions and limits come before the document type. -/
def browserHeader : Ebml.Header where
  width := 1
  before := [headerElement [0x42, 0x86] [1] (by decide), headerElement [0x42, 0xF7] [1] (by decide),
    headerElement [0x42, 0xF2] [4] (by decide), headerElement [0x42, 0xF3] [8] (by decide)]
  docType := headerElement Ebml.docTypeId (ascii "webm") (by decide)
  after := [headerElement [0x42, 0x87] [4] (by decide), headerElement [0x42, 0x85] [2] (by decide)]
  known := by decide
  typed := rfl
  sized := by decide

theorem webm_is_named_matroska : browserHeader.documentType = ascii "webm" ∧
    browserHeader.encode.length ≤ sniffBytes ∧
    sniff browserHeader.encode false = some .matroska := by decide

end Gunda.Stream

import Gunda.Stream.Ts.Multiplex

/-!
# Whether every NAL unit of the stream is emitted

A NAL unit is recognised when the start code of the next arrives, and `Demuxer::finish`
flushes the access unit being assembled but not the pending bytes.
-/
namespace Gunda.Stream.Ts

open Gunda.Lib

/-- The NAL units of an elementary stream, in the bytes all its carriers hold. -/
structure Multiplex.Carried (stream : Multiplex) (entries : List AnnexB.Entry) (trailing : Nat) :
    Prop where
  delimitable : ∀ entry ∈ entries, AnnexB.Delimitable entry.unit
  bytes : (stream.lost ++ stream.carriers).flatMap (·.data) =
    AnnexB.encode entries ++ AnnexB.zeros trailing

theorem Delimitable.filter {entries : List AnnexB.Entry}
    (all : ∀ entry ∈ entries, AnnexB.Delimitable entry.unit) :
    (entries.map (·.unit)).dropLast.filter (· ≠ []) = (entries.map (·.unit)).dropLast := by
  refine List.filter_eq_self.mpr fun unit member => ?_
  obtain ⟨entry, inside, rfl⟩ := List.mem_map.mp (List.dropLast_subset _ member)
  simpa using (all entry inside).ne_nil

/-- The NAL units emitted are never those of the stream: the last is lost, and where
nothing came before the program map, no other is. -/
theorem last_nal_never_emitted (stream : Multiplex) (entries : List AnnexB.Entry) (trailing : Nat)
    (carried : stream.Carried entries trailing) (track : ElementaryTrack) (file : Bytes)
    (isVideo : track.codec.isVideo = true) (bound : file.length ≤ maxU64)
    (h : demux stream.source = .ok (track, file)) :
    emittedNals track file ≠ some (entries.map (·.unit)) ∧
      (stream.lost = [] → emittedNals track file = some (entries.map (·.unit)).dropLast) := by
  obtain ⟨units, rest, scan, some_, emitted⟩ := stream.emitted isVideo bound h
  have bytes := carried.bytes
  cases entries with
  | nil =>
    rw [List.flatMap_append] at bytes
    have whole : AnnexB.Scan (stream.lost.flatMap (·.data) ++ stream.elementary) []
        (AnnexB.zeros trailing) := by
      unfold Multiplex.elementary
      rw [bytes]
      exact .idle (AnnexB.splitStart_zeros trailing)
    have fewer := whole.length_suffix_le scan
    exact absurd (List.length_eq_zero_iff.mp (Nat.le_zero.mp fewer)) some_
  | cons first entries =>
    have whole := AnnexB.scan_encode trailing carried.delimitable
    rw [← bytes] at whole
    constructor
    · rw [emitted]
      intro same
      rw [List.flatMap_append] at whole
      have fewer := whole.length_suffix_le scan
      have kept := List.length_filter_le (· ≠ []) units
      rw [Option.some.inj same] at kept
      simp only [List.length_dropLast, List.length_map, List.length_cons] at fewer kept
      omega
    · intro none
      rw [none, List.nil_append] at whole
      rw [emitted, (scan.det whole).1, Delimitable.filter carried.delimitable]

/-! ## Three pictures -/

def isVideoOf (nals : List Bytes) (made : ElementaryTrack × Bytes) : Bool :=
  made.1.codec.isVideo && made.2.length ≤ maxU64 && emittedNals made.1 made.2 == some nals

theorem threePictures_demuxed : (demux threePictures.source).toOption.any
    (isVideoOf [sps, pps, [0x65, 0x88, 0x84], [0x41, 0x9A, 0x02]]) = true := by
  decide +kernel

theorem threePictures_carried :
    threePictures.Carried (pictures.flatten.map (⟨1, ·⟩)) 0 := by
  refine ⟨fun entry member => ?_, by decide +kernel⟩
  obtain ⟨nal, inside, rfl⟩ := List.mem_map.mp member
  exact pictures_delimitable nal inside

theorem last_nal_never_emitted_threePictures : ∃ track file,
    demux threePictures.source = .ok (track, file) ∧
      emittedNals track file ≠ some ((pictures.flatten.map (⟨1, ·⟩ : Bytes → AnnexB.Entry)).map
        (·.unit)) := by
  obtain ⟨⟨track, file⟩, made, checked⟩ := toOption_any_ok threePictures_demuxed
  simp only [isVideoOf, Bool.and_eq_true, decide_eq_true_eq] at checked
  exact ⟨track, file, made, (last_nal_never_emitted threePictures _ 0 threePictures_carried track
    file checked.1.1 checked.1.2 made).1⟩

/-- The last slice is not among the NAL units of the samples. -/
theorem last_slice_is_lost : threePictures.Carried (pictures.flatten.map (⟨1, ·⟩)) 0 ∧
    ∃ track file, demux threePictures.source = .ok (track, file) ∧
      emittedNals track file = some [sps, pps, [0x65, 0x88, 0x84], [0x41, 0x9A, 0x02]] ∧
      emittedNals track file ≠ some pictures.flatten := by
  obtain ⟨⟨track, file⟩, made, checked⟩ := toOption_any_ok threePictures_demuxed
  unfold isVideoOf at checked
  have emitted := beq_iff_eq.mp (Bool.and_eq_true_iff.mp checked).2
  refine ⟨threePictures_carried, track, file, made, emitted, ?_⟩
  rw [emitted]
  decide +kernel

end Gunda.Stream.Ts

import Gunda.Stream.Ts.Adts
import Gunda.Stream.Ts.SampleTable

/-!
# The configuration of an AAC track

What `AudioTrack::into_track` and `write_adts_frames` say of the frames of an ADTS stream.
-/
namespace Gunda.Stream.Ts

open Gunda.Lib

variable {track audio : AudioTrack}

/-! ## Chunks and frames -/

theorem pushRounds_behind {rounds : Nat} {pushed : AudioTrack} {frames all : List Bytes}
    (before : List Bytes) (h : AudioTrack.pushRounds rounds track frames = .ok (pushed, all)) :
    AudioTrack.pushRounds rounds track (before ++ frames) = .ok (pushed, before ++ all) := by
  induction rounds generalizing track frames with
  | zero =>
    cases h
    rfl
  | succ rounds ih =>
    unfold AudioTrack.pushRounds at h ⊢
    obtain ⟨round, found, h⟩ := bind_ok h
    rw [found]
    cases round with
    | stop next =>
      cases h
      rfl
    | again next => exact ih h
    | frame next frame =>
      have more := ih h
      rw [← List.append_assoc] at more
      exact more

theorem push_behind {pushed : AudioTrack} {chunk : Bytes} {found : List Bytes}
    (frames : List Bytes) (h : track.push chunk [] = .ok (pushed, found)) :
    pushChunk (track, frames) chunk = .ok (pushed, frames ++ found) := by
  unfold AudioTrack.push at h
  obtain ⟨⟨next, gained⟩, rounds, h⟩ := bind_ok h
  obtain ⟨small, h⟩ := guard_ok h
  cases h
  have more := pushRounds_behind frames rounds
  rw [List.append_nil] at more
  unfold pushChunk AudioTrack.push
  dsimp only
  rw [more]
  exact if_neg small

/-- The frames of the chunks are written in the order in which they are found. -/
theorem readAdtsChunk_frames {chunks : List Bytes} {file final : AdtsFile} (frames : List Bytes)
    (h : chunks.foldlM readAdtsChunk (track, file) = .ok (audio, final)) :
    ∃ found, chunks.foldlM pushChunk (track, frames) = .ok (audio, frames ++ found) ∧
      found.foldlM writeAdtsFrame file = .ok final := by
  induction chunks generalizing track file frames with
  | nil =>
    cases h
    exact ⟨[], by rw [List.append_nil]; rfl, rfl⟩
  | cons chunk chunks ih =>
    obtain ⟨⟨next, between⟩, first, h⟩ := bind_ok h
    obtain ⟨⟨pushed, gained⟩, push, first⟩ := bind_ok first
    obtain ⟨written, wrote, first⟩ := bind_ok first
    cases first
    obtain ⟨found, rest, onward⟩ := ih (frames ++ gained) h
    refine ⟨gained ++ found, ?_, ?_⟩
    · rw [List.foldlM_cons, push_behind frames push, ← List.append_assoc]
      exact rest
    · rw [List.foldlM_append, wrote]
      exact onward

/-- An ADTS file is made from the frames in it. -/
theorem demuxAdts_framing {chunks : List Bytes} {track : ElementaryTrack} {output : Bytes}
    (h : demuxAdts chunks = .ok (track, output)) :
    ∃ (audio : AudioTrack) (frames : List Bytes) (file : AdtsFile),
      chunks.foldlM pushChunk (.default, []) = .ok (audio, frames) ∧
      (audio.flush frames).2.foldlM writeAdtsFrame ⟨[], 0, []⟩ = .ok file ∧
      ({ (audio.flush frames).1 with samples := file.samples } : AudioTrack).intoTrack =
        .ok track := by
  unfold demuxAdts at h
  obtain ⟨⟨audio, read⟩, chunked, h⟩ := bind_ok h
  obtain ⟨file, last, h⟩ := bind_ok h
  obtain ⟨made, taken, h⟩ := bind_ok h
  cases h
  obtain ⟨found, pushed, wrote⟩ := readAdtsChunk_frames [] chunked
  refine ⟨audio, found, file, pushed, ?_, taken⟩
  change (found ++ (audio.flush []).2).foldlM writeAdtsFrame _ = _
  rw [List.foldlM_append, wrote]
  exact last

/-! ## What a track tells of its frames -/

/-- The configuration and the durations of a track hold for every one of the frames. The
configuration is an AudioSpecificConfig: five bits of object type, which is the profile plus
one, four of sampling index and four of channel configuration. -/
structure Described (frames : List AdtsFrame) (track : ElementaryTrack) : Prop where
  configuration : ∃ configuration channels rate, track.codec = .aac configuration channels rate ∧
    ∀ frame ∈ frames, configuration / 2 ^ 11 = frame.profile + 1 ∧
      configuration / 2 ^ 7 % 2 ^ 4 = frame.frequencyIndex ∧
      configuration / 2 ^ 3 % 2 ^ 4 = frame.channelConfiguration
  durations : track.samples.map (·.duration) = frames.map AdtsFrame.pcmSamples

/-- All frames have the profile and the channels of the first one, and one raw data block. -/
def Uniform (frames : List AdtsFrame) : Prop :=
  ∀ first rest, frames = first :: rest → ∀ frame ∈ frames, frame.profile = first.profile ∧
    frame.channelConfiguration = first.channelConfiguration ∧ frame.blocks = 0

theorem writeAdtsFrame_durations {frames : List Bytes} {file final : AdtsFile}
    (h : frames.foldlM writeAdtsFrame file = .ok final) :
    final.samples.map (·.duration) =
      file.samples.map (·.duration) ++ frames.map fun _ => aacFrameSamples := by
  induction frames generalizing file with
  | nil =>
    cases h
    exact (List.append_nil _).symm
  | cons frame frames ih =>
    obtain ⟨next, wrote, h⟩ := bind_ok h
    obtain ⟨_, wrote⟩ := throw_unless_ok wrote
    cases wrote
    rw [ih h, List.map_append, List.append_assoc]
    rfl

theorem configuration_fields {objectType index channels : Nat} (indexed : index < 2 ^ 4)
    (few : channels < 2 ^ 4) :
    (objectType <<< 11 ||| index <<< 7 ||| channels <<< 3) / 2 ^ 11 = objectType ∧
      (objectType <<< 11 ||| index <<< 7 ||| channels <<< 3) / 2 ^ 7 % 2 ^ 4 = index ∧
      (objectType <<< 11 ||| index <<< 7 ||| channels <<< 3) / 2 ^ 3 % 2 ^ 4 = channels := by
  have upper : objectType * 2 ^ 11 ||| index * 2 ^ 7 = objectType * 2 ^ 11 + index * 2 ^ 7 :=
    or_eq_add 11 (Nat.mul_comm ..) (by omega)
  have lower : objectType * 2 ^ 11 + index * 2 ^ 7 ||| channels * 2 ^ 3 =
      objectType * 2 ^ 11 + index * 2 ^ 7 + channels * 2 ^ 3 :=
    or_eq_add (a := objectType * 2 ^ 4 + index) 7 (by omega) (by omega)
  rw [Nat.shiftLeft_eq, Nat.shiftLeft_eq, Nat.shiftLeft_eq, upper, lower]
  refine ⟨?_, ?_, ?_⟩ <;> omega

theorem intoTrack_codec {track : ElementaryTrack} (h : audio.intoTrack = .ok track) :
    ∃ rate, track.codec =
      .aac (audio.objectType <<< 11 ||| audio.frequencyIndex <<< 7 ||| audio.channelCount <<< 3)
        audio.channelCount rate := by
  unfold AudioTrack.intoTrack at h
  obtain ⟨_, h⟩ := throw_unless_ok h
  split at h
  · cases h
  · cases h
    exact ⟨_, rfl⟩

theorem sampleRates_nodup : sampleRates.Nodup := by decide

/-- One sample rate has one index. -/
theorem Configured.index {frames rest : List AdtsFrame} {first frame : AdtsFrame}
    (configured : Configured frames track) (split : frames = first :: rest)
    (member : frame ∈ frames) : frame.frequencyIndex = first.frequencyIndex := by
  obtain ⟨rate, known⟩ := configured.rates frame member
  obtain ⟨same, _⟩ := configured.rates first (split ▸ List.mem_cons_self ..)
  rw [rate] at known
  have inside : frame.frequencyIndex < sampleRates.length := by
    by_contra beyond
    rw [List.getElem?_eq_none (by omega)] at known
    cases known
  exact (List.getElem?_inj inside sampleRates_nodup).mp (rate.symm.trans same)

/-- A track made from a configured one. -/
theorem Configured.described {frames : List AdtsFrame} {track : ElementaryTrack}
    (configured : Configured frames audio) (taken : audio.intoTrack = .ok track)
    (durations : track.samples.map (·.duration) = frames.map fun _ => aacFrameSamples) :
    Described frames track ↔ Uniform frames := by
  obtain ⟨rate, codec⟩ := intoTrack_codec taken
  have fields (first : AdtsFrame) (rest : List AdtsFrame) (split : frames = first :: rest) :=
    configured.first first rest split
  constructor
  · intro described first rest split frame member
    obtain ⟨configuration, channels, rate', named, each⟩ := described.configuration
    obtain ⟨profile, _, layout⟩ := each frame member
    obtain ⟨profile', _, layout'⟩ := each first (split ▸ List.mem_cons_self ..)
    refine ⟨by omega, by omega, ?_⟩
    have same := durations.symm.trans described.durations
    have blocks := List.map_inj_left.mp same frame member
    unfold AdtsFrame.pcmSamples aacFrameSamples at blocks
    omega
  · intro uniform
    refine ⟨⟨_, _, rate, codec, fun frame member => ?_⟩, ?_⟩
    · cases split : frames with
      | nil =>
        rw [split] at member
        cases member
      | cons first rest =>
        obtain ⟨profile, layout, _⟩ := uniform first rest split frame member
        obtain ⟨objectType, index, channels⟩ := fields first rest split
        have small := first.frequencyIndex_lt
        have few := first.channelConfiguration_lt
        obtain ⟨high, middle, low⟩ := @configuration_fields audio.objectType audio.frequencyIndex
          audio.channelCount (by omega) (by omega)
        rw [high, middle, low, objectType, index, channels, profile, layout,
          configured.index split member]
        exact ⟨rfl, rfl, rfl⟩
    · rw [durations]
      refine List.map_inj_left.mpr fun frame member => ?_
      cases split : frames with
      | nil =>
        rw [split] at member
        cases member
      | cons first rest =>
        have one := (uniform first rest split frame member).2.2
        rw [AdtsFrame.pcmSamples, one, Nat.zero_add, Nat.mul_one]

/-- The one configuration of a track describes the frames of its stream exactly if they all
are as the first one. -/
theorem one_configuration_iff {chunks : List Bytes} {items : List AdtsItem} {tail file : Bytes}
    {track : ElementaryTrack} (stream : chunks.flatten = encodeItems items ++ tail)
    (unfinished : BrokenOff tail) (accepted : demuxAdts chunks = .ok (track, file)) :
    Described (framesOf items) track ↔ Uniform (framesOf items) := by
  obtain ⟨audio, frames, written, pushed, wrote, taken⟩ := demuxAdts_framing accepted
  have stands : AudioTrack.default.pending ++ chunks.flatten = encodeItems items ++ tail := stream
  obtain ⟨rest, found, configured⟩ :=
    pushChunk_items stands unfinished brokenOff_nil configured_default pushed
  have stopped : audio.round = _ := round_brokenOff (rest ▸ unfinished)
  rw [flush_of_stop stopped] at wrote taken
  have kept : Configured (framesOf items)
      { audio with pending := [], samples := written.samples } :=
    ⟨configured.unset, configured.first, configured.rates⟩
  refine kept.described taken ?_
  rw [intoTrack_audio_samples taken, writeAdtsFrame_durations wrote, found]
  simp only [List.map_nil, List.nil_append, List.map_map]
  rfl

/-- A tag and two frames, the second of another profile. -/
def changingProfile : List AdtsItem :=
  [.tag ⟨(4, 0), 0, [1, 2], [], by decide, by decide⟩, .frame (stereoFrame 1 lowComplexity_lt),
    .frame (stereoFrame 0 mainProfile_lt)]

theorem changingProfile_accepted : (demuxAdts [encodeItems changingProfile]).toOption.any
    (fun made => made.1.codec = .aac (2 * 2 ^ 11 + 4 * 2 ^ 7 + 2 * 2 ^ 3) 2 44100) = true := by
  decide +kernel

/-- Frames of two profiles pass for frames of the first one's. -/
theorem later_profile_is_not_written :
    ∃ track file, demuxAdts [encodeItems changingProfile] = .ok (track, file) ∧
      ¬ Described (framesOf changingProfile) track := by
  obtain ⟨⟨track, file⟩, accepted, named⟩ := toOption_any_ok changingProfile_accepted
  refine ⟨track, file, accepted, fun described => ?_⟩
  obtain ⟨configuration, channels, rate, codec, each⟩ := described.configuration
  obtain ⟨first, _, _⟩ := each (stereoFrame 1 (by decide)) (.head _)
  obtain ⟨second, _, _⟩ := each (stereoFrame 0 (by decide)) (.tail _ (.head _))
  have different : (1 : Nat) + 1 = 0 + 1 := first.symm.trans second
  cases different

theorem one_configuration_iff_changingProfile :
    ∃ track file, demuxAdts [encodeItems changingProfile] = .ok (track, file) ∧
      (Described (framesOf changingProfile) track ↔ Uniform (framesOf changingProfile)) := by
  obtain ⟨⟨track, file⟩, accepted, _⟩ := toOption_any_ok changingProfile_accepted
  have stream : [encodeItems changingProfile].flatten = encodeItems changingProfile ++ [] := rfl
  exact ⟨track, file, accepted, one_configuration_iff stream brokenOff_nil accepted⟩

end Gunda.Stream.Ts

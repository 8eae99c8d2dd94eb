import Gunda.Lib.SampleTables
import Gunda.Stream.Ts.Multiplex

/-!
# The sample table of an elementary track

What is recorded of the samples while a stream is read, against the file they are written
to and the decode times they come with.
-/
namespace Gunda.Stream.Ts

open Gunda.Lib
open Gunda.Lib.IsoMedia (runningOffsets)

/-! ## What lasts -/

/-- Reading on records nothing. -/
structure SameRecords (before after : VideoTrack) : Prop where
  samples : after.samples = before.samples
  decodeTimes : after.decodeTimes = before.decodeTimes

theorem SameRecords.refl (track : VideoTrack) : SameRecords track track := ⟨rfl, rfl⟩

theorem SameRecords.trans {a b c : VideoTrack} (first : SameRecords a b) (second : SameRecords b c) :
    SameRecords a c :=
  ⟨second.samples.trans first.samples, second.decodeTimes.trans first.decodeTimes⟩

namespace VideoTrack

section

variable (track : VideoTrack)
include track

theorem flush_records (complete : List CompletedUnit) :
    SameRecords track (track.flush complete).1 := by
  unfold flush
  split
  · exact .refl track
  · exact ⟨rfl, rfl⟩

theorem stamp_records : SameRecords track track.stamp := by
  unfold stamp
  split
  · exact ⟨rfl, rfl⟩
  · exact .refl track

theorem learn_records (kind : UInt8) (nal : Bytes) :
    SameRecords track (track.learn kind nal) := by
  unfold learn
  split
  · exact ⟨rfl, rfl⟩
  · split
    · exact ⟨rfl, rfl⟩
    · split
      · exact ⟨rfl, rfl⟩
      · exact .refl track

theorem append_records (nal : Bytes) :
    SameRecords track (track.append nal) := by
  unfold append
  split
  · exact .refl track
  · exact ⟨rfl, rfl⟩

theorem nal_records (nal : Bytes) (complete : List CompletedUnit) :
    SameRecords track (track.nal nal complete).1 := by
  unfold VideoTrack.nal
  split
  · exact .refl track
  · dsimp only
    have flushed := track.flush_records complete
    split
    · exact ((flushed.trans (stamp_records _)).trans (learn_records _ _ _)).trans (append_records _ _)
    · exact ((stamp_records _).trans (learn_records _ _ _)).trans (append_records _ _)

end

theorem pushRounds_records (rounds : Nat) (track : VideoTrack) (complete : List CompletedUnit) :
    SameRecords track (pushRounds rounds track complete).1 := by
  induction rounds generalizing track complete with
  | zero => exact .refl track
  | succ rounds ih =>
    unfold pushRounds
    split
    · exact .refl track
    · rename_i code _
      dsimp only
      have skipped : SameRecords track
          (if 2 < code then { track with pending := track.pending.drop (code - 2) } else track) := by
        split
        · exact ⟨rfl, rfl⟩
        · exact .refl track
      generalize (if 2 < code then { track with pending := track.pending.drop (code - 2) }
        else track) = from_ at skipped ⊢
      split
      · exact skipped
      · rename_i next _
        have moved : SameRecords from_ { from_ with pending := from_.pending.drop (next - 2) } :=
          ⟨rfl, rfl⟩
        exact ((skipped.trans moved).trans (nal_records _ _ _)).trans (ih _ _)

theorem push_records {track pushed : VideoTrack} {payload : Bytes}
    {complete completed : List CompletedUnit}
    (h : track.push payload complete = .ok (pushed, completed)) : SameRecords track pushed := by
  unfold push at h
  obtain ⟨_, h⟩ := throw_unless_ok h
  cases h
  have appended : SameRecords track { track with pending := track.pending ++ payload } := ⟨rfl, rfl⟩
  exact appended.trans (pushRounds_records _ _ _)

end VideoTrack

namespace AudioTrack

theorem configure_samples {track configured : AudioTrack} (h : track.configure = .ok configured) :
    configured.samples = track.samples := by
  unfold configure at h
  dsimp only at h
  split at h
  · cases h
  · obtain ⟨_, h⟩ := throw_unless_ok h
    split at h
    · obtain ⟨_, h⟩ := throw_unless_ok h
      cases h
      rfl
    · cases h
      rfl

def Round.track : Round → AudioTrack
  | .stop track => track
  | .again track => track
  | .frame track _ => track

theorem round_samples {track : AudioTrack} {round : Round} (h : track.round = .ok round) :
    round.track.samples = track.samples := by
  unfold AudioTrack.round at h
  obtain ⟨_, h⟩ | ⟨_, h⟩ := ite_ok h
  · cases h
    unfold tagRound
    split
    · rfl
    · split
      · rfl
      · split <;> rfl
  · obtain ⟨_, h⟩ | ⟨_, h⟩ := ite_ok h
    · cases h
      rfl
    · obtain ⟨_, h⟩ | ⟨_, h⟩ := ite_ok h
      · split at h <;> cases h <;> rfl
      · unfold frameRound at h
        obtain ⟨_, h⟩ | ⟨_, h⟩ := ite_ok h
        · cases h
          rfl
        · obtain ⟨_, h⟩ := throw_unless_ok h
          obtain ⟨_, h⟩ | ⟨_, h⟩ := ite_ok h
          · cases h
            rfl
          · obtain ⟨configured, same, h⟩ := bind_ok h
            cases h
            have kept := configure_samples same
            exact kept

theorem pushRounds_samples {rounds : Nat} {track pushed : AudioTrack} {frames all : List Bytes}
    (h : pushRounds rounds track frames = .ok (pushed, all)) : pushed.samples = track.samples := by
  induction rounds generalizing track frames with
  | zero =>
    cases h
    rfl
  | succ rounds ih =>
    unfold pushRounds at h
    obtain ⟨round, found, h⟩ := bind_ok h
    have same := round_samples found
    cases round with
    | stop next =>
      cases h
      exact same
    | again next => exact (ih h).trans same
    | frame next frame => exact (ih h).trans same

theorem push_samples {track pushed : AudioTrack} {payload : Bytes} {frames all : List Bytes}
    (h : track.push payload frames = .ok (pushed, all)) : pushed.samples = track.samples := by
  unfold push at h
  obtain ⟨⟨next, found⟩, rounds, h⟩ := bind_ok h
  obtain ⟨_, h⟩ := guard_ok h
  cases h
  have kept := pushRounds_samples rounds
  exact kept

end AudioTrack

/-- What reading tables, reading on, and recording a sample all keep. -/
structure Lasting (P : Demuxer → Prop) : Prop where
  tables : ∀ {before after}, SameMedia before after → P before → P after
  video : ∀ {demuxer video}, SameRecords (demuxer.video.getD .default) video → P demuxer →
    P { demuxer with video := some video }
  audio : ∀ {demuxer audio}, audio.samples = (demuxer.audio.getD .default).samples → P demuxer →
    P { demuxer with audio := some audio }
  writeVideo : ∀ {demuxer next unit}, demuxer.writeVideo unit = .ok next → P demuxer → P next
  writeAudio : ∀ {demuxer next frame}, demuxer.writeAudio frame = .ok next → P demuxer → P next

section

variable {P : Demuxer → Prop} (lasting : Lasting P) {demuxer next : Demuxer}

include lasting

theorem Lasting.dispatch {pid : Nat} {start : Bool} {payload : Bytes}
    (h : demuxer.dispatch pid start payload = .ok next) (before : P demuxer) : P next := by
  unfold Demuxer.dispatch at h
  obtain ⟨_, h⟩ | ⟨_, h⟩ := ite_ok h
  · unfold Demuxer.programs at h
    obtain ⟨⟨pat, sections⟩, _, h⟩ := bind_ok h
    cases h
    have read : SameMedia demuxer { demuxer with
        pat := pat
        pmtPid := (sections.findSome? associationPid).or demuxer.pmtPid } :=
      ⟨rfl, rfl, rfl, rfl, fun _ => id⟩
    exact lasting.tables read before
  obtain ⟨_, h⟩ | ⟨_, h⟩ := ite_ok h
  · unfold Demuxer.programMap at h
    obtain ⟨⟨pmt, sections⟩, _, h⟩ := bind_ok h
    cases h
    have read : SameMedia demuxer { demuxer with pmt := pmt } := ⟨rfl, rfl, rfl, rfl, fun _ => id⟩
    exact lasting.tables (read.trans (declares_media _ _)) before
  obtain ⟨_, h⟩ | ⟨_, h⟩ := ite_ok h
  · unfold Demuxer.videoPayload at h
    obtain ⟨header, _, h⟩ := bind_ok h
    obtain ⟨⟨pushed, completed⟩, push, h⟩ := bind_ok h
    have opened : SameRecords (demuxer.video.getD .default)
        (Demuxer.openVideo demuxer.video header) := by
      cases header <;> exact ⟨rfl, rfl⟩
    have start := lasting.video (opened.trans (VideoTrack.push_records push)) before
    exact foldlM_keeps (fun _ _ _ held wrote => lasting.writeVideo wrote held) start h
  obtain ⟨_, h⟩ | ⟨_, h⟩ := ite_ok h
  · unfold Demuxer.audioPayload at h
    obtain ⟨header, _, h⟩ := bind_ok h
    obtain ⟨⟨pushed, frames⟩, push, h⟩ := bind_ok h
    have start := lasting.audio (AudioTrack.push_samples push) before
    exact foldlM_keeps (fun _ _ _ held wrote => lasting.writeAudio wrote held) start h
  · cases h
    exact before

theorem Lasting.packet {packet : Bytes} (h : demuxer.packet packet = .ok next)
    (before : P demuxer) : P next := by
  unfold Demuxer.packet at h
  obtain ⟨_, h⟩ := throw_unless_ok h
  obtain ⟨_, h⟩ | ⟨_, h⟩ := ite_ok h
  · cases h
    exact before
  · obtain ⟨offset, _, h⟩ := bind_ok h
    obtain ⟨_, h⟩ | ⟨_, h⟩ := ite_ok h
    · cases h
      exact before
    · exact lasting.dispatch h before

theorem Lasting.readPackets {packets : List Bytes} {started started' : Bool}
    (h : readPackets started demuxer packets = .ok (started', next)) (before : P demuxer) :
    P next := by
  induction packets generalizing started demuxer with
  | nil =>
    cases h
    exact before
  | cons packet packets ih =>
    obtain ⟨middle, read, h⟩ := readPackets_cons h
    exact ih h (lasting.packet read before)

theorem Lasting.flushed (before : P demuxer) : P { demuxer with
    video := (demuxer.video.map (·.flush [])).map (·.1)
    audio := (demuxer.audio.map (·.flush [])).map (·.1) } := by
  have first : P { demuxer with video := (demuxer.video.map (·.flush [])).map (·.1) } := by
    cases video : demuxer.video with
    | none =>
      have same : { demuxer with video := none } = demuxer := by
        rw [← video]
      exact (congrArg P same).mpr before
    | some track =>
      refine lasting.video ?_ before
      rw [video]
      exact track.flush_records []
  cases audio : demuxer.audio with
  | none =>
    have same : ({ demuxer with
        video := (demuxer.video.map (·.flush [])).map (·.1), audio := none } : Demuxer) =
        { demuxer with video := (demuxer.video.map (·.flush [])).map (·.1) } := by
      rw [← audio]
    exact (congrArg P same).mpr first
  | some track =>
    refine lasting.audio ?_ first
    change (track.flush []).1.samples = (demuxer.audio.getD .default).samples
    rw [audio]
    rfl

theorem Lasting.drain (h : demuxer.drain = .ok next) (before : P demuxer) : P next := by
  unfold Demuxer.drain at h
  obtain ⟨written, video, audio⟩ := bind_ok h
  have pictures := foldlM_keeps (fun _ _ _ held wrote => lasting.writeVideo wrote held)
    (lasting.flushed before) video
  exact foldlM_keeps (fun _ _ _ held wrote => lasting.writeAudio wrote held) pictures audio

/-- What lasts holds of the demuxer that the track is taken from. -/
theorem Lasting.demux {source file : Bytes} {track : ElementaryTrack}
    (h : demux source = .ok (track, file)) (start : P .new) :
    ∃ drained, P drained ∧ drained.track = .ok track ∧ drained.output = file ∧
      recordedVideo source = .ok drained.video := by
  unfold Ts.demux at h
  obtain ⟨demuxer, read, h⟩ := bind_ok h
  unfold Demuxer.finish at h
  obtain ⟨drained, drain, h⟩ := bind_ok h
  obtain ⟨made, taken, h⟩ := bind_ok h
  cases h
  have reached : P demuxer := by
    unfold readStream at read
    obtain ⟨⟨started, last⟩, ran, read⟩ := bind_ok read
    obtain ⟨_, read⟩ := guard_ok read
    cases read
    exact lasting.readPackets ran start
  refine ⟨drained, lasting.drain drain reached, taken, rfl, ?_⟩
  unfold recordedVideo
  rw [read, ok_bind, drain, ok_bind]
  rfl

end

/-! ## Offsets and sizes -/

/-- The samples lie in the file one after another, and are all of it. -/
structure Tiles (samples : List ElementarySample) (length : Nat) : Prop where
  offsets : samples.map (·.offset) = runningOffsets 0 (samples.map (·.size))
  total : (samples.map (·.size)).sum = length

theorem Tiles.nil : Tiles [] 0 := ⟨rfl, rfl⟩

variable {samples : List ElementarySample}

theorem Tiles.snoc {length : Nat} (tiles : Tiles samples length) {sample : ElementarySample}
    (offset : sample.offset = length) :
    Tiles (samples ++ [sample]) (length + sample.size) := by
  constructor
  · rw [List.map_append, List.map_append, IsoMedia.runningOffsets_append, ← tiles.offsets, tiles.total,
      Nat.zero_add, ← offset]
    rfl
  · rw [List.map_append, List.sum_append, tiles.total]
    rfl

theorem fillDurations_tiles {length : Nat} (tiles : Tiles samples length) (times : List Nat) :
    Tiles (fillDurations samples times) length := by
  have same := fillDurationsFrom_samples defaultFrameDuration samples times
  have offsets := congrArg (List.map fun fields : Nat × Nat × Int × Bool => fields.1) same
  have sizes := congrArg (List.map fun fields : Nat × Nat × Int × Bool => fields.2.1) same
  rw [List.map_map, List.map_map] at offsets sizes
  constructor
  · exact offsets.trans (tiles.offsets.trans (congrArg (runningOffsets 0) sizes.symm))
  · exact (congrArg List.sum sizes).trans tiles.total

/-- What has been recorded of one track alone is all of the file. -/
structure Tabled (demuxer : Demuxer) : Prop where
  written : demuxer.written = min demuxer.output.length maxU64
  none : demuxer.video = none → demuxer.audio = none → demuxer.output = []
  video : ∀ video, demuxer.video = some video → demuxer.audio = .none →
    demuxer.output.length ≤ maxU64 → Tiles video.samples demuxer.output.length
  audio : ∀ audio, demuxer.audio = some audio → demuxer.video = .none →
    demuxer.output.length ≤ maxU64 → Tiles audio.samples demuxer.output.length
  times : ∀ video, demuxer.video = some video → video.decodeTimes.length = video.samples.length

theorem Tabled.new : Tabled .new where
  written := rfl
  none _ _ := rfl
  video := nofun
  audio := nofun
  times := nofun

theorem tabled_lasting : Lasting Tabled where
  tables same tabled := by
    constructor
    · rw [same.written, same.output]
      exact tabled.written
    · rw [same.video, same.audio, same.output]
      exact tabled.none
    · rw [same.video, same.audio, same.output]
      exact tabled.video
    · rw [same.video, same.audio, same.output]
      exact tabled.audio
    · rw [same.video]
      exact tabled.times
  video {demuxer video} same tabled := by
    refine ⟨tabled.written, fun none => (by cases none), ?_, fun _ _ none => (by cases none), ?_⟩
    · rintro _ ⟨⟩ silent bound
      rw [same.samples]
      cases before : demuxer.video with
      | none =>
        have empty := tabled.none before silent
        rw [empty]
        exact .nil
      | some track => exact tabled.video track before silent bound
    · rintro _ ⟨⟩
      rw [same.samples, same.decodeTimes]
      cases before : demuxer.video with
      | none => rfl
      | some track => exact tabled.times track before
  audio {demuxer audio} same tabled := by
    refine ⟨tabled.written, fun _ none => (by cases none), fun _ _ none => (by cases none), ?_,
      tabled.times⟩
    rintro _ ⟨⟩ blind bound
    rw [same]
    cases before : demuxer.audio with
    | none =>
      have empty := tabled.none blind before
      rw [empty]
      exact .nil
    | some track => exact tabled.audio track before blind bound
  writeVideo {demuxer next unit} h tabled := by
    unfold Demuxer.writeVideo at h
    split at h
    · cases h
    · rename_i track video
      obtain ⟨_, h⟩ := throw_unless_ok h
      cases h
      refine ⟨?_, fun none => (by cases none), ?_, fun _ _ none => (by cases none), ?_⟩
      · dsimp only
        rw [tabled.written, List.length_append, saturatingAdd]
        omega
      · rintro _ ⟨⟩ silent bound
        rw [List.length_append] at bound ⊢
        refine (tabled.video track video silent (by omega)).snoc ?_
        dsimp only
        rw [tabled.written]
        omega
      · rintro _ ⟨⟩
        simp only [List.length_append, List.length_singleton, tabled.times track video]
  writeAudio {demuxer next frame} h tabled := by
    unfold Demuxer.writeAudio at h
    split at h
    · cases h
    · rename_i track audio
      obtain ⟨_, h⟩ := throw_unless_ok h
      cases h
      refine ⟨?_, fun _ none => (by cases none), fun _ _ none => (by cases none), ?_,
      tabled.times⟩
      · dsimp only
        rw [tabled.written, List.length_append, saturatingAdd]
        omega
      · rintro _ ⟨⟩ blind bound
        rw [List.length_append] at bound ⊢
        refine (tabled.audio track audio blind (by omega)).snoc ?_
        dsimp only
        rw [tabled.written]
        omega

/-! ## Durations -/

/-- The durations between decode times, each taken over where the next is no plausible one. -/
def durationsFrom (previous : Nat) : List Nat → List Nat
  | [] => []
  | time :: times =>
      let duration := frameDuration previous time times.head?
      duration :: durationsFrom duration times

variable {times : List Nat}

theorem fillDurationsFrom_durations (count : times.length = samples.length) (previous : Nat) :
    (fillDurationsFrom previous samples times).map (·.duration) = durationsFrom previous times := by
  induction samples generalizing times previous with
  | nil =>
    rw [List.length_eq_zero_iff.mp count]
    rfl
  | cons sample samples ih =>
    cases times with
    | nil => cases count
    | cons time times => simp only [fillDurationsFrom, durationsFrom, List.map_cons,
        ih (Nat.succ.inj count)]

/-- A duration that one video sample may have. -/
def Plausible (duration : Nat) : Prop := 0 < duration ∧ duration ≤ maxFrameDuration

theorem frameDuration_plausible {previous : Nat} (start : Plausible previous) (time : Nat)
    (next : Option Nat) : Plausible (frameDuration previous time next) := by
  unfold frameDuration
  cases next with
  | none => exact start
  | some next =>
    dsimp only
    split
    · assumption
    · exact start

theorem durationsFrom_plausible {previous : Nat} (start : Plausible previous) (times : List Nat) :
    ∀ duration ∈ durationsFrom previous times, Plausible duration := by
  induction times generalizing previous with
  | nil => exact fun _ none => nomatch none
  | cons time times ih =>
    have first := frameDuration_plausible start time times.head?
    exact List.forall_mem_cons.mpr ⟨first, ih first⟩

/-- The first decode times, each a plausible duration behind the one before. -/
def StepsPlausibly (times : List Nat) (k : Nat) : Prop :=
  ∀ i, i < k → ∃ time next, times[i]? = some time ∧ times[i + 1]? = some next ∧
    time < next ∧ next ≤ time + maxFrameDuration

theorem durationsFrom_sum {k : Nat} (steps : StepsPlausibly times k) {first time : Nat}
    (start : times[0]? = some first) (reached : times[k]? = some time) (previous : Nat) :
    first + ((durationsFrom previous times).take k).sum = time := by
  induction k generalizing times first previous with
  | zero =>
    rw [start] at reached
    cases reached
    rfl
  | succ k ih =>
    obtain ⟨here, next, at_, behind, later, soon⟩ := steps 0 (Nat.succ_pos k)
    rw [start] at at_
    cases at_
    cases times with
    | nil => cases start
    | cons _ times =>
      cases start
      have onward : StepsPlausibly times k := fun i inside => steps (i + 1) (Nat.succ_lt_succ inside)
      have step : frameDuration previous first times.head? = next - first := by
        rw [List.head?_eq_getElem?, show times[0]? = some next from behind]
        exact if_pos ⟨by omega, by omega⟩
      have rest := ih onward behind reached (next - first)
      rw [durationsFrom, step, List.take_succ_cons, List.sum_cons]
      omega

/-- How a video track is timed by its decode times. -/
structure TimedBy (track : ElementaryTrack) (times : List Nat) : Prop where
  count : times.length = track.samples.length
  bounded : ∀ sample ∈ track.samples, Plausible sample.duration
  sums : ∀ k first time, StepsPlausibly times k → times[0]? = some first →
    times[k]? = some time → first + ((track.samples.take k).map (·.duration)).sum = time

theorem fillDurations_timed {track : ElementaryTrack} (count : times.length = samples.length)
    (filled : track.samples = fillDurations samples times) :
    TimedBy track times := by
  have durations : track.samples.map (·.duration) = durationsFrom defaultFrameDuration times := by
    rw [filled]
    exact fillDurationsFrom_durations count defaultFrameDuration
  have start : Plausible defaultFrameDuration := ⟨by decide, by decide⟩
  constructor
  · have same := congrArg List.length (fillDurationsFrom_samples defaultFrameDuration samples times)
    rw [List.length_map, List.length_map] at same
    rw [filled]
    exact count.trans same.symm
  · intro sample member
    apply durationsFrom_plausible start times
    rw [← durations]
    exact List.mem_map_of_mem member
  · intro k first time steps begins reached
    rw [List.map_take, durations]
    exact durationsFrom_sum steps begins reached defaultFrameDuration

/-! ## Whole files -/

theorem intoTrack_audio_samples {audio : AudioTrack} {track : ElementaryTrack}
    (h : audio.intoTrack = .ok track) : track.samples = audio.samples := by
  unfold AudioTrack.intoTrack at h
  obtain ⟨_, h⟩ := throw_unless_ok h
  split at h
  · cases h
  · cases h
    rfl

theorem demux_tabled {source file : Bytes} {track : ElementaryTrack}
    (h : demux source = .ok (track, file)) (bound : file.length ≤ maxU64) :
    Tiles track.samples file.length ∧ (track.codec.isVideo = true → ∃ video,
      recordedVideo source = .ok (some video) ∧ TimedBy track video.decodeTimes) := by
  obtain ⟨drained, tabled, taken, rfl, recorded⟩ := tabled_lasting.demux h Tabled.new
  unfold Demuxer.track at taken
  cases video : drained.video with
  | some pictures =>
    cases audio : drained.audio with
    | some sound =>
      rw [video, audio] at taken
      cases taken
    | none =>
      rw [video, audio] at taken
      rw [video] at recorded
      have filled := intoTrack_samples taken
      have own := tabled.video pictures video audio bound
      refine ⟨?_, fun _ => ⟨pictures, recorded, ?_⟩⟩
      · rw [filled]
        exact fillDurations_tiles own _
      · exact fillDurations_timed (tabled.times pictures video) filled
  | none =>
    cases audio : drained.audio with
    | none =>
      rw [video, audio] at taken
      cases taken
    | some sound =>
      rw [video, audio] at taken
      rw [intoTrack_audio_samples taken]
      refine ⟨tabled.audio sound audio video bound, fun isVideo => ?_⟩
      rw [audioTrack_not_video taken] at isVideo
      cases isVideo

/-- What has been written of an ADTS file. -/
structure AdtsFile.Tabled (file : AdtsFile) : Prop where
  written : file.written = min file.output.length maxU64
  tiles : file.output.length ≤ maxU64 → Tiles file.samples file.output.length

theorem writeAdtsFrame_tabled {file next : AdtsFile} {frame : Bytes} (tabled : file.Tabled)
    (h : writeAdtsFrame file frame = .ok next) : next.Tabled := by
  obtain ⟨_, h⟩ := throw_unless_ok h
  cases h
  constructor
  · dsimp only
    rw [tabled.written, List.length_append, saturatingAdd]
    omega
  · intro bound
    rw [List.length_append] at bound ⊢
    refine (tabled.tiles (by omega)).snoc ?_
    dsimp only
    rw [tabled.written]
    omega

theorem demuxAdts_tabled {chunks : List Bytes} {file : Bytes} {track : ElementaryTrack}
    (h : demuxAdts chunks = .ok (track, file)) (bound : file.length ≤ maxU64) :
    Tiles track.samples file.length := by
  unfold demuxAdts at h
  obtain ⟨⟨audio, read⟩, chunked, h⟩ := bind_ok h
  obtain ⟨final, last, h⟩ := bind_ok h
  obtain ⟨made, taken, h⟩ := bind_ok h
  cases h
  have frames {state : AdtsFile} {list : List Bytes} {next : AdtsFile} (tabled : state.Tabled)
      (wrote : list.foldlM writeAdtsFrame state = .ok next) : next.Tabled :=
    foldlM_keeps (fun _ _ _ held one => writeAdtsFrame_tabled held one) tabled wrote
  have start : AdtsFile.Tabled ⟨[], 0, []⟩ := ⟨rfl, fun _ => .nil⟩
  have tabled : read.Tabled := by
    refine foldlM_keeps (P := fun state : AudioTrack × AdtsFile => state.2.Tabled)
      (fun state chunk next held one => ?_) start chunked
    obtain ⟨⟨pushed, found⟩, _, one⟩ := bind_ok one
    obtain ⟨written, wrote, one⟩ := bind_ok one
    cases one
    exact frames held wrote
  rw [intoTrack_audio_samples taken]
  exact (frames tabled last).tiles bound

/-- The sample table of an elementary track is that of its file and of its decode times. -/
theorem sample_tables_hold :
    (∀ source track file, demux source = .ok (track, file) → file.length ≤ maxU64 →
      Tiles track.samples file.length ∧ (track.codec.isVideo = true → ∃ video,
        recordedVideo source = .ok (some video) ∧ TimedBy track video.decodeTimes)) ∧
      ∀ chunks track file, demuxAdts chunks = .ok (track, file) → file.length ≤ maxU64 →
        Tiles track.samples file.length :=
  ⟨fun _ _ _ h bound => demux_tabled h bound, fun _ _ _ h bound => demuxAdts_tabled h bound⟩

/-- Two AAC frames, the second cut by the chunks. -/
def twoFrames : List Bytes :=
  [[0xFF, 0xF1, 0x50, 0x80, 0x01, 0x3F, 0xFC, 0xDE, 0x04, 0xFF, 0xF1, 0x50],
    [0x80, 0x01, 0x1F, 0xFC, 0x21]]

theorem twoFrames_demuxed : (demuxAdts twoFrames).toOption.any (fun made =>
    made.2 == [0xDE, 0x04, 0x21] && made.2.length ≤ maxU64) = true := by
  decide +kernel

theorem threePictures_table : (demux threePictures.source).toOption.any (fun made =>
    made.1.codec.isVideo && made.2.length ≤ maxU64) = true := by
  decide +kernel

theorem sample_tables_hold_example :
    (∃ track file video, demux threePictures.source = .ok (track, file) ∧
      recordedVideo threePictures.source = .ok (some video) ∧
      Tiles track.samples file.length ∧ TimedBy track video.decodeTimes) ∧
      ∃ track file, demuxAdts twoFrames = .ok (track, file) ∧
        Tiles track.samples file.length := by
  constructor
  · obtain ⟨⟨track, file⟩, made, checked⟩ := toOption_any_ok threePictures_table
    simp only [Bool.and_eq_true, decide_eq_true_eq] at checked
    obtain ⟨tiles, timed⟩ := sample_tables_hold.1 _ track file made checked.2
    obtain ⟨video, recorded, timed⟩ := timed checked.1
    exact ⟨track, file, video, made, recorded, tiles, timed⟩
  · obtain ⟨⟨track, file⟩, made, checked⟩ := toOption_any_ok twoFrames_demuxed
    simp only [Bool.and_eq_true, decide_eq_true_eq] at checked
    exact ⟨track, file, made, sample_tables_hold.2 _ track file made checked.2⟩

end Gunda.Stream.Ts

import Gunda.Stream.Ts.AccessUnits
import Gunda.Stream.Ts.Carriage

/-!
# What the demuxer makes of the carriers of one PID

The NAL units recognised after every packet, and the samples recorded for the access
units they close.
-/
namespace Gunda.Stream.Ts

open Gunda.Lib
open Demuxer (declare dispatch drain openVideo packetPid startHeader videoPayload writeVideo)

/-! ## The NAL units recognised -/

/-- The bytes kept, the times of the PES packet being read, and the NAL units
recognised so far. -/
structure Reader where
  pending : Bytes
  pts : Option Nat
  dts : Option Nat
  nals : List TimedNal

/-- The NAL units that count, with the reader's times. -/
def Reader.timed (reader : Reader) (units : List Bytes) : List TimedNal :=
  (units.filter (· ≠ [])).map (⟨·, reader.pts, reader.dts⟩)

/-- A header sets the times, even to none. -/
def Reader.started (reader : Reader) (header : Option PesStart) : Reader :=
  match header with
  | some header => { reader with pts := header.pts, dts := header.dts }
  | none => reader

/-- The reader after the carriers of a stream. -/
inductive Reads : List Carrier → Reader → Prop where
  | start : Reads [] ⟨[], none, none, []⟩
  | step {carriers : List Carrier} {reader : Reader} {carrier : Carrier} {units : List Bytes}
      {rest : Bytes} (before : Reads carriers reader)
      (scan : AnnexB.Scan (reader.pending ++ carrier.data) units rest) :
      Reads (carriers ++ [carrier])
        { reader.started carrier.header with
          pending := rest
          nals := reader.nals ++ (reader.started carrier.header).timed units }

variable {carriers : List Carrier} {reader : Reader}

/-- Whatever the packets, the units are those of the whole stream. -/
theorem Reads.scan (reads : Reads carriers reader) :
    ∃ units, AnnexB.Scan (carriers.flatMap (·.data)) units reader.pending ∧
      reader.nals.map (·.nal) = units.filter (· ≠ []) := by
  induction reads with
  | start => exact ⟨[], .idle rfl, rfl⟩
  | @step carriers reader carrier units rest _ scan ih =>
    obtain ⟨earlier, first, nals⟩ := ih
    refine ⟨earlier ++ units, ?_, ?_⟩
    · simp only [List.flatMap_append, List.flatMap_cons, List.flatMap_nil, List.append_nil]
      exact first.append scan
    · simp only [List.map_append, nals, List.filter_append, Reader.timed, List.map_map]
      congr 1
      exact List.map_id _

/-! ## The samples recorded -/

/-- The samples and decode times of access units written one after another. -/
inductive Records : List AccessUnit → List ElementarySample → List Nat → Prop where
  | nil : Records [] [] []
  | snoc {units : List AccessUnit} {samples : List ElementarySample} {times : List Nat}
      {unit : AccessUnit} {sample : ElementarySample} {time : Nat}
      (before : Records units samples times)
      (offset : sample.offset = min (units.flatMap (·.data)).length maxU64)
      (size : sample.size = unit.data.length)
      (timing : ∀ pts, unit.pts = some pts → time = unit.dts.getD pts ∧
        sample.compositionOffset = max (Demuxer.compositionOffset pts time) 0) :
      Records (units ++ [unit]) (samples ++ [sample]) (times ++ [time])

/-- What the demuxer holds of the video after some carriers. -/
structure Holds (units : List AccessUnit) (track : VideoTrack) (output : Bytes) (written : Nat) :
    Prop where
  records : Records units track.samples track.decodeTimes
  bytes : output = units.flatMap (·.data)
  size : written = min output.length maxU64

/-- What handling the video leaves alone. -/
structure SameTables (before after : Demuxer) : Prop where
  videoPid : after.videoPid = before.videoPid
  pmtPid : after.pmtPid = before.pmtPid
  audio : after.audio = before.audio

/-- What recording a sample leaves alone. -/
structure SameUnit (before after : VideoTrack) : Prop where
  pending : after.pending = before.pending
  pts : after.pts = before.pts
  dts : after.dts = before.dts
  assembles : ∀ current, Assembles before current → Assembles after current

variable {demuxer next : Demuxer}

theorem writeVideo_holds {track : VideoTrack} {units : List AccessUnit} {unit : AccessUnit}
    (video : demuxer.video = some track)
    (holds : Holds units track demuxer.output demuxer.written)
    (h : demuxer.writeVideo unit.completed = .ok next) :
    ∃ after, next.video = some after ∧ SameUnit track after ∧ SameTables demuxer next ∧
      Holds (units ++ [unit]) after next.output next.written := by
  unfold writeVideo at h
  rw [video] at h
  obtain ⟨_, h⟩ := throw_unless_ok h
  cases h
  refine ⟨_, rfl, ⟨rfl, rfl, rfl, fun _ same => ⟨same.unit, same.hasSlice, same.sync, same.pts,
    same.dts⟩⟩, ⟨rfl, rfl, rfl⟩, ?_, ?_, ?_⟩
  · refine .snoc holds.records ?_ rfl ?_
    · exact holds.size.trans (by rw [holds.bytes])
    · intro pts present
      have later : unit.completed.pts = some pts := present
      simp only [later, Option.getD_some, Option.or_some]
      exact ⟨rfl, trivial⟩
  · rw [holds.bytes]
    simp [AccessUnit.completed]
  · dsimp only
    rw [holds.size, List.length_append, saturatingAdd]
    omega

theorem writeVideos_holds {track : VideoTrack} {units added : List AccessUnit}
    (video : demuxer.video = some track)
    (holds : Holds units track demuxer.output demuxer.written)
    (h : (added.map AccessUnit.completed).foldlM writeVideo demuxer = .ok next) :
    ∃ after, next.video = some after ∧ SameUnit track after ∧ SameTables demuxer next ∧
      Holds (units ++ added) after next.output next.written := by
  induction added generalizing demuxer track units with
  | nil =>
    cases h
    exact ⟨track, video, ⟨rfl, rfl, rfl, fun _ => id⟩, ⟨rfl, rfl, rfl⟩, by
      rw [List.append_nil]; exact holds⟩
  | cons unit added ih =>
    rw [List.map_cons, List.foldlM_cons] at h
    obtain ⟨middle, wrote, h⟩ := bind_ok h
    obtain ⟨between, video', same, tables, held⟩ := writeVideo_holds video holds wrote
    obtain ⟨after, final, same', tables', held'⟩ := ih video' held h
    refine ⟨after, final, ⟨same'.pending.trans same.pending, same'.pts.trans same.pts,
      same'.dts.trans same.dts, fun current begun => same'.assembles _ (same.assembles _ begun)⟩,
      ⟨tables'.videoPid.trans tables.videoPid, tables'.pmtPid.trans tables.pmtPid,
        tables'.audio.trans tables.audio⟩, ?_⟩
    rw [List.append_assoc] at held'
    exact held'

/-! ## Packet by packet -/

/-- The state of the video after the carriers: nothing yet, or a track that has
recorded the access units closed and assembles the open one. -/
structure Fed (carriers : List Carrier) (reader : Reader) (demuxer : Demuxer) : Prop where
  reads : Reads carriers reader
  bounded : reader.pending.length ≤ maxPending
  small : ∀ nal ∈ reader.nals, nal.nal.length < 2 ^ 32
  pending : (demuxer.video.getD .default).pending = reader.pending
  pts : (demuxer.video.getD .default).pts = reader.pts
  dts : (demuxer.video.getD .default).dts = reader.dts
  assembles : Assembles (demuxer.video.getD .default) (assembleFrom [] reader.nals).2
  holds : Holds (assembleFrom [] reader.nals).1 (demuxer.video.getD .default) demuxer.output
    demuxer.written

theorem Fed.new : Fed [] ⟨[], none, none, []⟩ .new :=
  ⟨.start, Nat.zero_le _, fun _ member => absurd member List.not_mem_nil, rfl, rfl, rfl, .start,
    .nil, rfl, rfl⟩

theorem startHeader_carrier (carrier : Carrier) :
    startHeader carrier.header.isSome carrier.payload =
        .ok (carrier.header.map fun header => ⟨header.encode.length, header.pts, header.dts⟩) ∧
      carrier.payload.drop ((carrier.header.map fun header : PesStart =>
        PesHeader.mk header.encode.length header.pts header.dts).elim 0 (·.length)) =
          carrier.data := by
  unfold startHeader Carrier.payload
  cases carrier.header with
  | none => exact ⟨rfl, rfl⟩
  | some header =>
    refine ⟨?_, ?_⟩
    · simp only [Option.isSome_some, if_true, Option.elim_some, readPesHeader_encode]
      rfl
    · simp only [Option.map_some, Option.elim_some, List.drop_left]

/-- What a track opened for a carrier keeps of the track before it. -/
structure Opened (before : VideoTrack) (reader : Reader) (after : VideoTrack) : Prop where
  pending : after.pending = before.pending
  pts : after.pts = reader.pts
  dts : after.dts = reader.dts
  samples : after.samples = before.samples
  decodeTimes : after.decodeTimes = before.decodeTimes
  assembles : ∀ current, Assembles before current → Assembles after current

theorem openVideo_started {video : Option VideoTrack}
    (pts : (video.getD .default).pts = reader.pts) (dts : (video.getD .default).dts = reader.dts)
    (header : Option PesStart) :
    Opened (video.getD .default) (reader.started header) (openVideo video
      (header.map fun header => ⟨header.encode.length, header.pts, header.dts⟩)) := by
  cases header with
  | none => exact ⟨rfl, pts, dts, rfl, rfl, fun _ => id⟩
  | some header =>
    exact ⟨rfl, rfl, rfl, rfl, rfl, fun _ same =>
      ⟨same.unit, same.hasSlice, same.sync, same.pts, same.dts⟩⟩

/-- One carrier more. -/
theorem Fed.step {carrier : Carrier} (fed : Fed carriers reader demuxer)
    (h : demuxer.videoPayload carrier.header.isSome carrier.payload = .ok next) :
    (∃ reader, Fed (carriers ++ [carrier]) reader next) ∧ next.video.isSome = true ∧
      SameTables demuxer next := by
  obtain ⟨header, data⟩ := startHeader_carrier carrier
  unfold videoPayload at h
  rw [header] at h
  obtain ⟨_, same, h⟩ := bind_ok h
  cases same
  obtain ⟨⟨pushed, completed⟩, ok, h⟩ := bind_ok h
  rw [data] at ok
  have opened := openVideo_started fed.pts fed.dts carrier.header
  generalize openVideo demuxer.video _ = track at ok opened
  obtain ⟨units, rest, scan⟩ := AnnexB.Scan.exists (reader.pending ++ carrier.data)
  have small : ∀ unit ∈ units, unit.length < 2 ^ 32 := by
    intro unit member
    have bound := scan.length_le unit member
    have share := carrier.fills
    have kept := fed.bounded
    unfold maxPending at kept
    simp only [List.length_append] at bound share
    omega
  have pushScan : AnnexB.Scan (track.pending ++ carrier.data) units rest := by
    rw [opened.pending, fed.pending]
    exact scan
  obtain ⟨emitted, assembled, stream, bounded⟩ :=
    push_assembles pushScan (opened.assembles _ fed.assembles) small ok
  have timed : timedBy track units = (reader.started carrier.header).timed units := by
    unfold timedBy Reader.timed
    rw [opened.pts, opened.dts]
  have held : Holds (assembleFrom [] reader.nals).1 pushed demuxer.output demuxer.written := by
    have holds := fed.holds
    refine ⟨?_, holds.bytes, holds.size⟩
    rw [stream.samples, stream.decodeTimes, opened.samples, opened.decodeTimes]
    exact holds.records
  subst emitted
  rw [timed] at assembled h
  have video : ({ demuxer with video := some pushed } : Demuxer).video = some pushed := rfl
  obtain ⟨after, final, unit, tables, holds⟩ := writeVideos_holds video held h
  have nals := assembleFrom_append [] reader.nals ((reader.started carrier.header).timed units)
  refine ⟨⟨_, .step fed.reads scan, ?_, ?_, ?_, ?_, ?_, ?_, ?_⟩, by rw [final]; rfl,
    ⟨tables.videoPid, tables.pmtPid, tables.audio⟩⟩
  · have kept : pushed.pending = rest := stream.pending
    rw [kept] at bounded
    exact bounded
  · intro nal member
    rcases List.mem_append.mp member with earlier | now
    · exact fed.small nal earlier
    · obtain ⟨unit, present, rfl⟩ := List.mem_map.mp now
      exact small unit (List.mem_of_mem_filter present)
  · rw [final]
    exact unit.pending.trans stream.pending
  · rw [final]
    exact unit.pts.trans (stream.pts.trans opened.pts)
  · rw [final]
    exact unit.dts.trans (stream.dts.trans opened.dts)
  · rw [final, nals]
    exact unit.assembles _ assembled
  · rw [final, nals]
    exact holds

/-! ## The other packets -/

theorem writeVideo_tables {unit : CompletedUnit} (h : demuxer.writeVideo unit = .ok next) :
    SameTables demuxer next := by
  unfold writeVideo at h
  split at h
  · cases h
  · dsimp only at h
    obtain ⟨_, h⟩ := throw_unless_ok h
    cases h
    exact ⟨rfl, rfl, rfl⟩

theorem writeVideo_seen {unit : CompletedUnit} (h : demuxer.writeVideo unit = .ok next) :
    demuxer.video.isSome = true ∧ next.video.isSome = true := by
  unfold writeVideo at h
  cases video : demuxer.video with
  | none =>
    rw [video] at h
    cases h
  | some track =>
    rw [video] at h
    obtain ⟨_, h⟩ := throw_unless_ok h
    cases h
    exact ⟨rfl, rfl⟩

theorem writeAudio_heard {frame : Bytes} (h : demuxer.writeAudio frame = .ok next) :
    next.audio.isSome = true ∧ next.videoPid = demuxer.videoPid ∧ next.video = demuxer.video := by
  unfold Demuxer.writeAudio at h
  split at h
  · cases h
  · obtain ⟨_, h⟩ := throw_unless_ok h
    cases h
    exact ⟨rfl, rfl, rfl⟩

variable {payload : Bytes} {start : Bool}

theorem videoPayload_tables (h : demuxer.videoPayload start payload = .ok next) :
    SameTables demuxer next := by
  unfold videoPayload at h
  obtain ⟨header, _, h⟩ := bind_ok h
  obtain ⟨⟨pushed, completed⟩, _, h⟩ := bind_ok h
  have start : SameTables demuxer { demuxer with video := some pushed } := ⟨rfl, rfl, rfl⟩
  refine foldlM_keeps (P := SameTables demuxer) (fun state unit after same wrote => ?_) start h
  have tables := writeVideo_tables wrote
  exact ⟨tables.videoPid.trans same.videoPid, tables.pmtPid.trans same.pmtPid,
    tables.audio.trans same.audio⟩

theorem videoPayload_isSome (h : demuxer.videoPayload start payload = .ok next) :
    next.video.isSome = true := by
  unfold videoPayload at h
  obtain ⟨header, _, h⟩ := bind_ok h
  obtain ⟨⟨pushed, completed⟩, _, h⟩ := bind_ok h
  have start : ({ demuxer with video := some pushed } : Demuxer).video.isSome = true := rfl
  refine foldlM_keeps (P := fun state : Demuxer => state.video.isSome = true)
    (fun state unit after _ wrote => (writeVideo_seen wrote).2) start h

/-- Once there is an audio track it stays, and handling audio leaves the video alone. -/
theorem audioPayload_heard (h : demuxer.audioPayload start payload = .ok next) :
    next.audio.isSome = true ∧ next.videoPid = demuxer.videoPid ∧ next.video = demuxer.video := by
  unfold Demuxer.audioPayload at h
  obtain ⟨header, _, h⟩ := bind_ok h
  obtain ⟨⟨pushed, frames⟩, _, h⟩ := bind_ok h
  have start : ({ demuxer with audio := some pushed } : Demuxer).audio.isSome = true ∧
      ({ demuxer with audio := some pushed } : Demuxer).videoPid = demuxer.videoPid ∧
      ({ demuxer with audio := some pushed } : Demuxer).video = demuxer.video := ⟨rfl, rfl, rfl⟩
  refine foldlM_keeps (P := fun state : Demuxer => state.audio.isSome = true ∧
    state.videoPid = demuxer.videoPid ∧ state.video = demuxer.video)
    (fun state frame after same wrote => ?_) start h
  obtain ⟨heard, named, video⟩ := writeAudio_heard wrote
  exact ⟨heard, named.trans same.2.1, video.trans same.2.2⟩

/-- What reading the tables leaves alone; a video PID they named stays. -/
structure SameMedia (before after : Demuxer) : Prop where
  video : after.video = before.video
  audio : after.audio = before.audio
  output : after.output = before.output
  written : after.written = before.written
  named : ∀ pid, before.videoPid = some pid → after.videoPid = some pid

theorem SameMedia.refl (demuxer : Demuxer) : SameMedia demuxer demuxer :=
  ⟨rfl, rfl, rfl, rfl, fun _ => id⟩

theorem SameMedia.trans {a b c : Demuxer} (first : SameMedia a b) (second : SameMedia b c) :
    SameMedia a c :=
  ⟨second.video.trans first.video, second.audio.trans first.audio,
    second.output.trans first.output, second.written.trans first.written,
    fun pid named => second.named pid (first.named pid named)⟩

theorem declare_media (demuxer : Demuxer) (stream : UInt8 × Nat) :
    SameMedia demuxer (demuxer.declare stream) := by
  unfold declare
  split
  · rename_i fresh
    refine ⟨rfl, rfl, rfl, rfl, fun pid named => ?_⟩
    rw [named] at fresh
    cases fresh.2
  · split
    · exact ⟨rfl, rfl, rfl, rfl, fun _ => id⟩
    · split
      · exact ⟨rfl, rfl, rfl, rfl, fun _ => id⟩
      · split
        · exact ⟨rfl, rfl, rfl, rfl, fun _ => id⟩
        · split
          · exact ⟨rfl, rfl, rfl, rfl, fun _ => id⟩
          · exact .refl demuxer

theorem declares_media (demuxer : Demuxer) (streams : List (UInt8 × Nat)) :
    SameMedia demuxer (streams.foldl declare demuxer) := by
  induction streams generalizing demuxer with
  | nil => exact .refl demuxer
  | cons stream streams ih => exact (declare_media demuxer stream).trans (ih _)

/-- What handling a packet can do: read tables, read video, or read audio. -/
inductive Handled (before : Demuxer) (pid : Nat) (after : Demuxer) : Prop where
  | tables (same : SameMedia before after)
  | video (own : before.videoPid = some pid) (tables : SameTables before after)
      (seen : after.video.isSome = true)
  | audio (heard : after.audio.isSome = true) (named : after.videoPid = before.videoPid)
      (video : after.video = before.video)

variable {pid : Nat}

theorem dispatch_handled (h : demuxer.dispatch pid start payload = .ok next) :
    Handled demuxer pid next := by
  unfold dispatch at h
  obtain ⟨_, h⟩ | ⟨_, h⟩ := ite_ok h
  · unfold Demuxer.programs at h
    obtain ⟨⟨pat, sections⟩, _, h⟩ := bind_ok h
    cases h
    exact .tables ⟨rfl, rfl, rfl, rfl, fun _ => id⟩
  obtain ⟨_, h⟩ | ⟨_, h⟩ := ite_ok h
  · unfold Demuxer.programMap at h
    obtain ⟨⟨pmt, sections⟩, _, h⟩ := bind_ok h
    cases h
    have read : SameMedia demuxer { demuxer with pmt := pmt } :=
      ⟨rfl, rfl, rfl, rfl, fun _ => id⟩
    exact .tables (read.trans (declares_media _ _))
  obtain ⟨own, h⟩ | ⟨_, h⟩ := ite_ok h
  · exact .video own.symm (videoPayload_tables h) (videoPayload_isSome h)
  obtain ⟨_, h⟩ | ⟨_, h⟩ := ite_ok h
  · obtain ⟨heard, named, video⟩ := audioPayload_heard h
    exact .audio heard named video
  · cases h
    exact .tables (.refl _)

variable {packet : Bytes}

theorem packet_handled (h : demuxer.packet packet = .ok next) :
    next = demuxer ∨ ¬ IsIdle packet ∧ Handled demuxer (packetPid packet) next := by
  unfold Demuxer.packet at h
  obtain ⟨_, h⟩ := throw_unless_ok h
  obtain ⟨_, h⟩ | ⟨sound, h⟩ := ite_ok h
  · cases h
    exact .inl rfl
  · obtain ⟨offset, _, h⟩ := bind_ok h
    obtain ⟨_, h⟩ | ⟨behind, h⟩ := ite_ok h
    · cases h
      exact .inl rfl
    · refine .inr ⟨?_, dispatch_handled h⟩
      rintro (damaged | alone)
      · exact sound damaged
      · exact behind (.inl alone)

/-- A video PID stays named, and tracks stay. -/
structure Keeps (before after : Demuxer) : Prop where
  named : ∀ pid, before.videoPid = some pid → after.videoPid = some pid
  silent : after.audio = none → before.audio = none
  seen : before.video.isSome = true → after.video.isSome = true

theorem packet_keeps (h : demuxer.packet packet = .ok next) :
    Keeps demuxer next := by
  rcases packet_handled h with rfl | ⟨_, handled⟩
  · exact ⟨fun _ => id, id, id⟩
  · cases handled with
    | tables same =>
      exact ⟨same.named, fun none => same.audio.symm.trans none, fun seen => by
        rw [same.video]; exact seen⟩
    | video own tables seen =>
      exact ⟨fun pid named => tables.videoPid.trans named,
        fun none => tables.audio.symm.trans none, fun _ => seen⟩
    | audio heard named video =>
      refine ⟨fun pid own => named.trans own, fun none => ?_, fun seen => by
        rw [video]; exact seen⟩
      rw [none] at heard
      cases heard

/-- A packet of another PID, or without payload, is none of the video's business. -/
theorem packet_other (h : demuxer.packet packet = .ok next)
    (elsewhere : packetPid packet ≠ pid ∨ IsIdle packet)
    (own : ∀ other, demuxer.videoPid = some other → other = pid) (silent : next.audio = none) :
    SameMedia demuxer next := by
  rcases packet_handled h with rfl | ⟨busy, handled⟩
  · exact .refl _
  · cases handled with
    | tables same => exact same
    | video named _ _ =>
      rcases elsewhere with other | idle
      · exact absurd (own _ named) other
      · exact absurd idle busy
    | audio heard _ _ =>
      rw [silent] at heard
      cases heard

/-! ## Runs -/

variable {packets : List Bytes} {final : Demuxer} {started started' : Bool}

theorem readPackets_cons
    (h : readPackets started demuxer (packet :: packets) = .ok (started', final)) :
    ∃ next, demuxer.packet packet = .ok next ∧
      readPackets true next packets = .ok (started', final) := by
  unfold readPackets at h
  obtain ⟨_, h⟩ := throw_unless_ok h
  exact bind_ok h

theorem readPackets_through {middle : Bool} {first : List Bytes} (second : List Bytes)
    (h : readPackets started demuxer first = .ok (middle, next)) :
    readPackets started demuxer (first ++ second) = readPackets middle next second := by
  induction first generalizing started demuxer with
  | nil =>
    cases h
    rfl
  | cons packet first ih =>
    obtain ⟨after, stepped, rest⟩ := readPackets_cons h
    unfold readPackets at h
    obtain ⟨sound, _⟩ := throw_unless_ok h
    rw [List.cons_append, readPackets, if_neg sound, stepped]
    exact ih rest

theorem readPackets_keeps (h : readPackets started demuxer packets = .ok (started', final)) :
    Keeps demuxer final := by
  induction packets generalizing started demuxer with
  | nil =>
    cases h
    exact ⟨fun _ => id, id, id⟩
  | cons packet packets ih =>
    obtain ⟨next, stepped, rest⟩ := readPackets_cons h
    have first := packet_keeps stepped
    have later := ih rest
    exact ⟨fun pid own => later.named pid (first.named pid own),
      fun none => first.silent (later.silent none), fun seen => later.seen (first.seen seen)⟩

/-- The state of the video is untouched. -/
theorem Fed.same (fed : Fed carriers reader demuxer) (same : SameMedia demuxer next) :
    Fed carriers reader next := by
  obtain ⟨reads, bounded, small, pending, pts, dts, assembles, holds⟩ := fed
  refine ⟨reads, bounded, small, ?_, ?_, ?_, ?_, ?_⟩ <;> rw [same.video]
  · exact pending
  · exact pts
  · exact dts
  · exact assembles
  · rw [same.output, same.written]
    exact holds

/-- While there is no track the packets leave nothing of the video behind. -/
theorem readPackets_before (fed : Fed carriers reader demuxer) (unseen : final.video = none)
    (silent : final.audio = none)
    (h : readPackets started demuxer packets = .ok (started', final)) :
    Fed carriers reader final := by
  induction packets generalizing started demuxer with
  | nil =>
    cases h
    exact fed
  | cons packet packets ih =>
    obtain ⟨next, stepped, later⟩ := readPackets_cons h
    have keeps := readPackets_keeps later
    rcases packet_handled stepped with rfl | ⟨_, handled⟩
    · exact ih fed later
    · cases handled with
      | tables same => exact ih (fed.same same) later
      | video _ _ seen =>
        have kept := keeps.seen seen
        rw [unseen] at kept
        cases kept
      | audio heard _ _ =>
        rw [keeps.silent silent] at heard
        cases heard

/-- The reader is never told to take the PID for that of a program map. -/
def neverTable (pid : Nat) : Demuxer → List Bytes → Bool
  | demuxer, [] => demuxer.pmtPid != some pid
  | demuxer, packet :: packets =>
      demuxer.pmtPid != some pid &&
        (demuxer.packet packet).toOption.all fun next => neverTable pid next packets

theorem neverTable_head (never : neverTable pid demuxer packets = true) :
    demuxer.pmtPid ≠ some pid := by
  cases packets with
  | nil => exact bne_iff_ne.mp never
  | cons packet packets => exact bne_iff_ne.mp (Bool.and_eq_true_iff.mp never).1

theorem neverTable_next (never : neverTable pid demuxer (packet :: packets) = true)
    (stepped : demuxer.packet packet = .ok next) : neverTable pid next packets = true := by
  have later := (Bool.and_eq_true_iff.mp never).2
  rw [stepped] at later
  exact later

theorem neverTable_run {middle : Bool} {first second : List Bytes}
    (never : neverTable pid demuxer (first ++ second) = true)
    (h : readPackets started demuxer first = .ok (middle, next)) :
    neverTable pid next second = true := by
  induction first generalizing started demuxer with
  | nil =>
    cases h
    exact never
  | cons packet first ih =>
    obtain ⟨after, stepped, rest⟩ := readPackets_cons h
    exact ih (neverTable_next never stepped) rest

/-- A carrier of the video PID is read as video. -/
theorem packet_carrier (pid_lt : pid < 8192) (pid_ne : pid ≠ 0) {carrier : Carrier}
    (named : demuxer.videoPid = some pid) (notTable : demuxer.pmtPid ≠ some pid) :
    demuxer.packet (carrier.encode pid) =
      demuxer.videoPayload carrier.header.isSome carrier.payload := by
  rw [carrier.packet_encode pid_lt]
  unfold dispatch
  rw [if_neg pid_ne, if_neg (Ne.symm notTable), if_pos named.symm]

theorem readPackets_fed (pid_lt : pid < 8192) (pid_ne : pid ≠ 0)
    (carries : Carries pid packets carriers) {earlier : List Carrier}
    (fed : Fed earlier reader demuxer) (named : demuxer.videoPid = some pid)
    (never : neverTable pid demuxer packets = true) (silent : final.audio = none)
    (h : readPackets started demuxer packets = .ok (started', final)) :
    ∃ reader, Fed (earlier ++ carriers) reader final := by
  induction carries generalizing started demuxer earlier reader with
  | nil =>
    cases h
    rw [List.append_nil]
    exact ⟨reader, fed⟩
  | other size elsewhere rest ih =>
    obtain ⟨next, stepped, later⟩ := readPackets_cons h
    have keeps := readPackets_keeps later
    have own : ∀ other, demuxer.videoPid = some other → other = pid := by
      intro other same
      rw [named] at same
      exact (Option.some.inj same).symm
    exact ih (fed.same (packet_other stepped elsewhere own (keeps.silent silent)))
      ((packet_keeps stepped).named pid named) (neverTable_next never stepped) later
  | carrier carrier rest ih =>
    obtain ⟨next, stepped, later⟩ := readPackets_cons h
    have read := stepped
    rw [packet_carrier pid_lt pid_ne named (neverTable_head never)] at read
    obtain ⟨⟨reader', fed'⟩, _, tables⟩ := fed.step read
    have all := ih fed' (tables.videoPid.trans named) (neverTable_next never stepped) later
    rw [List.append_assoc] at all
    exact all

/-! ## The end of the stream -/

/-- Draining emits the access unit still open. -/
theorem drain_holds (fed : Fed carriers reader demuxer) (seen : demuxer.video.isSome = true)
    (silent : demuxer.audio = none) (h : demuxer.drain = .ok final) :
    ∃ video, final.video = some video ∧ final.audio = none ∧
      Holds (assemble reader.nals) video final.output final.written := by
  obtain ⟨track, video⟩ := Option.isSome_iff_exists.mp seen
  have assembles := fed.assembles
  have holds := fed.holds
  rw [video, Option.getD_some] at assembles holds
  obtain ⟨flushed, flush_eq, _, same⟩ := flush_assembles assembles []
  unfold drain at h
  simp only [video, silent, Option.map_some, Option.map_none, Option.elim_some, Option.elim_none,
    flush_eq, List.nil_append] at h
  obtain ⟨written, wrote, h⟩ := bind_ok h
  cases h
  have held : Holds (assembleFrom [] reader.nals).1 flushed demuxer.output demuxer.written := by
    refine ⟨?_, holds.bytes, holds.size⟩
    rw [same.samples, same.decodeTimes]
    exact holds.records
  have opened : ({ demuxer with video := some flushed, audio := none } : Demuxer).video =
    some flushed := rfl
  obtain ⟨after, final, _, tables, all⟩ := writeVideos_holds opened held wrote
  exact ⟨after, final, tables.audio, all⟩

/-- Draining makes no track appear or vanish. -/
theorem drain_keeps (h : demuxer.drain = .ok final) :
    (final.audio = none → demuxer.audio = none) ∧
      final.video.isSome = demuxer.video.isSome := by
  unfold drain at h
  obtain ⟨written, video, audio⟩ := bind_ok h
  have drained : (written.audio = none → demuxer.audio = none) ∧
      written.video.isSome = demuxer.video.isSome := by
    refine foldlM_keeps (P := fun state : Demuxer => (state.audio = none → demuxer.audio = none) ∧
      state.video.isSome = demuxer.video.isSome)
      (fun state unit next same wrote => ?_) ⟨?_, ?_⟩ video
    · obtain ⟨before, after⟩ := writeVideo_seen wrote
      refine ⟨fun none => same.1 ((writeVideo_tables wrote).audio.symm.trans none), ?_⟩
      rw [after, ← before]
      exact same.2
    · exact fun none => Option.map_eq_none_iff.mp (Option.map_eq_none_iff.mp none)
    · simp
  refine foldlM_keeps (P := fun state : Demuxer => (state.audio = none → demuxer.audio = none) ∧
    state.video.isSome = demuxer.video.isSome) (fun state frame next same wrote => ?_) drained audio
  obtain ⟨heard, _, video⟩ := writeAudio_heard wrote
  constructor
  · intro none
    rw [none] at heard
    cases heard
  · rw [video]
    exact same.2

/-- Only durations are filled in. -/
theorem fillDurationsFrom_samples (previous : Nat) (samples : List ElementarySample)
    (times : List Nat) :
    (fillDurationsFrom previous samples times).map (fun sample =>
        (sample.offset, sample.size, sample.compositionOffset, sample.sync)) =
      samples.map fun sample =>
        (sample.offset, sample.size, sample.compositionOffset, sample.sync) := by
  induction samples generalizing previous times with
  | nil => cases times <;> rfl
  | cons sample samples ih =>
    cases times with
    | nil => rfl
    | cons time times => simp only [fillDurationsFrom, List.map_cons, ih]

end Gunda.Stream.Ts

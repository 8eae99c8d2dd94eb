import Gunda.Stream.Ts.Reading

/-!
# What is left of a transport stream

The samples of the video track against the elementary file, for a whole stream.
-/
namespace Gunda.Stream.Ts

open Gunda.Lib

/-- A transport stream: its packets up to where the program map has named the video PID,
those behind, and a rest too short for a packet. The carriers of the PID before that
point are lost on any reader. -/
structure Multiplex where
  pid : Nat
  before : List Bytes
  after : List Bytes
  tail : Bytes
  lost : List Carrier
  carriers : List Carrier
  pid_lt : pid < 8192
  pid_ne : pid ≠ 0
  tail_lt : tail.length < packetSize
  missed : Carries pid before lost
  carries : Carries pid after carriers
  announced : ∃ started demuxer, readPackets false .new before = .ok (started, demuxer) ∧
    demuxer.videoPid = some pid ∧ demuxer.video = none
  never : neverTable pid .new (before ++ after) = true

def Multiplex.source (stream : Multiplex) : Bytes :=
  (stream.before ++ stream.after).flatten ++ stream.tail

/-- The bytes of the elementary stream behind the program map. -/
def Multiplex.elementary (stream : Multiplex) : Bytes := stream.carriers.flatMap (·.data)

def Codec.isVideo : Codec → Bool
  | .avc _ _ _ => true
  | .aac _ _ _ => false

/-- The NAL units of all samples, read from the elementary file. -/
def emittedNals (track : ElementaryTrack) (file : Bytes) : Option (List Bytes) :=
  (track.samples.mapM fun sample => Bytes.readPrefixed (Bytes.slice file sample.offset sample.size)).map
    List.flatten

/-! ## Reading back the samples -/

section Records

variable {units : List AccessUnit} {samples : List ElementarySample} {times : List Nat}
  (records : Records units samples times)

include records

theorem Records.length : samples.length = units.length := by
  induction records with
  | nil => rfl
  | snoc _ _ _ _ ih => rw [List.length_append, List.length_append, ih]; rfl

theorem Records.timesLength : times.length = units.length := by
  induction records with
  | nil => rfl
  | snoc _ _ _ _ ih => rw [List.length_append, List.length_append, ih]; rfl

/-- Every sample lies where the bytes of its access unit do. -/
theorem Records.slices (rest : Bytes)
    (bound : (units.flatMap (·.data)).length ≤ maxU64) :
    samples.map (fun sample => Bytes.slice (units.flatMap (·.data) ++ rest) sample.offset sample.size) =
      units.map (·.data) := by
  induction records generalizing rest with
  | nil => rfl
  | @snoc units samples times unit sample time before offset size timing ih =>
    simp only [List.flatMap_append, List.flatMap_cons, List.flatMap_nil, List.append_nil,
      List.length_append] at bound
    have earlier := ih (unit.data ++ rest) (by omega)
    have last : Bytes.slice (units.flatMap (·.data) ++ unit.data ++ rest) sample.offset
        sample.size = unit.data := by
      rw [offset, size, Nat.min_eq_left (by omega)]
      exact Bytes.slice_append _ _ _
    simp only [List.flatMap_append, List.flatMap_cons, List.flatMap_nil, List.append_nil,
      List.map_append, List.map_cons, List.map_nil, last]
    rw [← earlier, List.append_assoc]

end Records

theorem mapM_some {α β γ : Type} {list : List α} {f : α → Option β} {g : γ → β}
    {others : List γ} (each : list.map f = others.map fun c => some (g c)) :
    list.mapM f = some (others.map g) := by
  induction list generalizing others with
  | nil =>
    cases others with
    | nil => rfl
    | cons c others => cases each
  | cons a list ih =>
    cases others with
    | nil => cases each
    | cons c others =>
      rw [List.map_cons, List.map_cons, List.cons.injEq] at each
      rw [List.mapM_cons, each.1, ih each.2]
      rfl

variable {track : ElementaryTrack}

theorem intoTrack_samples {video : VideoTrack} (h : video.intoTrack = .ok track) :
    track.samples = fillDurations video.samples video.decodeTimes := by
  unfold VideoTrack.intoTrack at h
  obtain ⟨_, h⟩ := throw_unless_ok h
  split at h
  · cases h
  · cases h
  · obtain ⟨configuration, _, h⟩ := bind_ok h
    obtain ⟨size, _, h⟩ := bind_ok h
    cases h
    rfl

/-- Filling in durations moves no sample. -/
theorem fillDurations_slices (samples : List ElementarySample) (times : List Nat) (file : Bytes) :
    (fillDurations samples times).map (fun sample => Bytes.slice file sample.offset sample.size) =
      samples.map fun sample => Bytes.slice file sample.offset sample.size := by
  have same := congrArg (List.map fun fields : Nat × Nat × Int × Bool =>
    Bytes.slice file fields.1 fields.2.1)
    (fillDurationsFrom_samples defaultFrameDuration samples times)
  rw [List.map_map, List.map_map] at same
  exact same

section

variable {units : List AccessUnit} {video : VideoTrack} {file : Bytes} {written : Nat}
  {track : ElementaryTrack} (holds : Holds units video file written) (bound : file.length ≤ maxU64)
  (small : ∀ unit ∈ units, ∀ nal ∈ unit, nal.nal.length < 2 ^ 32) (h : video.intoTrack = .ok track)
include holds bound small h

/-- The samples hold the NAL units of the access units, each behind its length. -/
theorem Holds.read :
    track.samples.map (fun sample =>
      Bytes.readPrefixed (Bytes.slice file sample.offset sample.size)) =
        units.map fun unit => some unit.nals := by
  have slices := holds.records.slices [] (by rw [← holds.bytes]; exact bound)
  rw [List.append_nil, ← holds.bytes, ← fillDurations_slices _ video.decodeTimes,
    ← intoTrack_samples h] at slices
  have read := congrArg (List.map Bytes.readPrefixed) slices
  rw [List.map_map, List.map_map] at read
  refine read.trans (List.map_congr_left fun unit member => ?_)
  refine Bytes.readPrefixed_flatMap fun nal inside => ?_
  obtain ⟨timed, present, rfl⟩ := List.mem_map.mp inside
  exact small unit member timed present

theorem Holds.emitted :
    emittedNals track file = some (units.flatMap AccessUnit.nals) := by
  unfold emittedNals
  rw [mapM_some (holds.read bound small h), Option.map_some, List.flatMap_def]

end

/-! ## The whole stream -/

theorem audioTrack_not_video {audio : AudioTrack} (h : audio.intoTrack = .ok track) :
    track.codec.isVideo = false := by
  unfold AudioTrack.intoTrack at h
  obtain ⟨_, h⟩ := throw_unless_ok h
  split at h
  · cases h
  · cases h
    rfl

theorem Multiplex.packets_source (stream : Multiplex) :
    packets stream.source.length stream.source = stream.before ++ stream.after := by
  have sizes : ∀ packet ∈ stream.before ++ stream.after, packet.length = packetSize := by
    intro packet member
    rcases List.mem_append.mp member with early | late
    · exact stream.missed.sizes packet early
    · exact stream.carries.sizes packet late
  refine packets_flatten ?_ sizes stream.tail_lt
  have count : ∀ list : List Bytes, (∀ packet ∈ list, packet.length = packetSize) →
      list.length ≤ list.flatten.length := by
    intro list
    induction list with
    | nil => exact fun _ => Nat.le_refl _
    | cons packet list ih =>
      intro all
      have size := all packet List.mem_cons_self
      have others := ih fun other member => all other (List.mem_cons_of_mem _ member)
      unfold packetSize at size
      rw [List.flatten_cons, List.length_cons, List.length_append]
      omega
  have all := count _ sizes
  have whole : stream.source.length =
      (stream.before ++ stream.after).flatten.length + stream.tail.length := List.length_append
  omega

theorem Multiplex.readPackets_fed (stream : Multiplex) {started : Bool} {final : Demuxer}
    (silent : final.audio = none)
    (h : readPackets false .new (stream.before ++ stream.after) = .ok (started, final)) :
    ∃ reader, Fed stream.carriers reader final := by
  obtain ⟨middle, next, announced, named, unseen⟩ := stream.announced
  have never := neverTable_run stream.never announced
  rw [readPackets_through _ announced] at h
  have quiet := (readPackets_keeps h).silent silent
  have fresh := readPackets_before .new unseen quiet announced
  exact Ts.readPackets_fed stream.pid_lt stream.pid_ne stream.carries fresh named never silent h

/-- The video track that the samples are taken from. -/
def recordedVideo (source : Bytes) : Except MuxError (Option VideoTrack) := do
  let demuxer ← readStream source
  let drained ← demuxer.drain
  pure drained.video

/-- What a stream is demuxed into is what its carriers hold. -/
theorem Multiplex.demux_holds (stream : Multiplex) {file : Bytes}
    (isVideo : track.codec.isVideo = true) (h : demux stream.source = .ok (track, file)) :
    ∃ reader video written, Reads stream.carriers reader ∧
      (∀ unit ∈ assemble reader.nals, ∀ nal ∈ unit, nal.nal.length < 2 ^ 32) ∧
      Holds (assemble reader.nals) video file written ∧ video.intoTrack = .ok track ∧
      recordedVideo stream.source = .ok (some video) := by
  unfold demux at h
  obtain ⟨demuxer, read, h⟩ := bind_ok h
  have again := read
  unfold readStream at read
  obtain ⟨⟨started, last⟩, ran, read⟩ := bind_ok read
  obtain ⟨_, read⟩ := guard_ok read
  cases read
  unfold Demuxer.finish at h
  obtain ⟨drained, drain, h⟩ := bind_ok h
  obtain ⟨made, intoTrack, h⟩ := bind_ok h
  cases h
  rw [stream.packets_source] at ran
  obtain ⟨quiet, seen⟩ := drain_keeps drain
  unfold Demuxer.track at intoTrack
  cases video : drained.video with
  | none =>
    rw [video] at intoTrack
    cases audio : drained.audio with
    | none =>
      rw [audio] at intoTrack
      cases intoTrack
    | some other =>
      rw [audio] at intoTrack
      rw [audioTrack_not_video intoTrack] at isVideo
      cases isVideo
  | some kept =>
    rw [video] at intoTrack seen
    cases audio : drained.audio with
    | some other =>
      rw [audio] at intoTrack
      cases intoTrack
    | none =>
      rw [audio] at intoTrack
      obtain ⟨reader, fed⟩ := stream.readPackets_fed (quiet audio) ran
      obtain ⟨video', same, _, holds⟩ := drain_holds fed seen.symm (quiet audio) drain
      rw [video] at same
      cases same
      refine ⟨reader, _, _, fed.reads, ?_, holds, intoTrack, ?_⟩
      · intro unit member nal present
        refine fed.small nal ?_
        rw [← assemble_flatten reader.nals]
        exact List.mem_flatten.mpr ⟨unit, member, present⟩
      · unfold recordedVideo
        rw [again]
        simp only [bind, Except.bind, drain, video]
        rfl

theorem Multiplex.emitted (stream : Multiplex) {file : Bytes}
    (isVideo : track.codec.isVideo = true) (bound : file.length ≤ maxU64)
    (h : demux stream.source = .ok (track, file)) :
    ∃ units rest, AnnexB.Scan stream.elementary units rest ∧ units ≠ [] ∧
      emittedNals track file = some (units.filter (· ≠ [])) := by
  obtain ⟨reader, video, written, reads, small, holds, intoTrack, _⟩ :=
    stream.demux_holds isVideo h
  obtain ⟨units, scan, nals⟩ := reads.scan
  refine ⟨units, _, scan, ?_, ?_⟩
  · rintro rfl
    have none : reader.nals = [] := List.map_eq_nil_iff.mp nals
    have noSamples : video.samples = [] := by
      have count := holds.records.length
      rw [none] at count
      exact List.length_eq_zero_iff.mp count
    unfold VideoTrack.intoTrack at intoTrack
    rw [if_pos noSamples] at intoTrack
    cases intoTrack
  · have flat : (assemble reader.nals).flatMap AccessUnit.nals = reader.nals.map (·.nal) := by
      conv_rhs => rw [← assemble_flatten reader.nals, List.map_flatten]
      rfl
    rw [holds.emitted bound small intoTrack, flat, nals]

/-! ## A stream of one program -/

/-- A table alone in a packet, behind a zero pointer. -/
def tablePacket (pid : Nat) (table : Bytes) : Bytes :=
  [sync, UInt8.ofNat (64 + pid / 256), UInt8.ofNat (pid % 256), 16, 0] ++ table ++
    List.replicate (183 - table.length) 0xFF

/-- One program, whose map has PID 4096. -/
def associationTable : Bytes :=
  [0x00, 0xB0, 0x0D, 0x00, 0x01, 0xC1, 0x00, 0x00, 0x00, 0x01, 0xF0, 0x00, 0, 0, 0, 0]

/-- One H.264 stream, of PID 256. -/
def mapTable : Bytes :=
  [0x02, 0xB0, 0x12, 0x00, 0x01, 0xC1, 0x00, 0x00, 0xFF, 0xFF, 0xF0, 0x00, 0x1B, 0xE1, 0x00,
    0xF0, 0x00, 0, 0, 0, 0]

def tables : List Bytes := [tablePacket 0 associationTable, tablePacket 4096 mapTable]

theorem carries_map (pid : Nat) (carriers : List Carrier) :
    Carries pid (carriers.map (·.encode pid)) carriers := by
  induction carriers with
  | nil => exact .nil
  | cons carrier carriers ih => exact .carrier carrier ih

/-- Whether the tables made the PID that of the video. -/
def announces (pid : Nat) (state : Bool × Demuxer) : Bool :=
  state.2.videoPid == some pid && state.2.video.isNone

theorem tables_announce : (readPackets false .new tables).toOption.any (announces 256) = true := by
  decide +kernel

def Multiplex.ofCarriers (carriers : List Carrier)
    (never : neverTable 256 .new (tables ++ carriers.map (·.encode 256)) = true) : Multiplex where
  pid := 256
  before := tables
  after := carriers.map (·.encode 256)
  tail := []
  lost := []
  carriers := carriers
  pid_lt := by decide
  pid_ne := by decide
  tail_lt := by decide
  missed := .other (by decide +kernel) (.inl (by decide +kernel))
    (.other (by decide +kernel) (.inl (by decide +kernel)) .nil)
  carries := carries_map 256 carriers
  announced := by
    obtain ⟨⟨started, demuxer⟩, ran, announced⟩ := toOption_any_ok tables_announce
    obtain ⟨named, unseen⟩ := Bool.and_eq_true_iff.mp announced
    exact ⟨started, demuxer, ran, beq_iff_eq.mp named, Option.isNone_iff_eq_none.mp unseen⟩
  never := by exact never

/-- A PES header with a presentation time. -/
def PesStart.timed (time : Nat) (small : time < 2 ^ 33) : PesStart where
  streamId := 0xE0
  packetLength := 0
  marks := 0
  flags := 0
  pts := some time
  dts := none
  others := []
  optional := by decide
  marks_lt := by decide
  flags_lt := by decide
  pts_lt := by
    intro other same
    cases same
    exact small
  dts_lt := nofun
  paired := nofun
  fits := by simp [encodeStamps]

theorem unscrambled_lt : 0 < 4 := by decide

theorem uncounted_lt : 0 < 16 := by decide

theorem whole_fills {payload : Bytes} (short : payload.length ≤ 182) :
    4 + ((0 :: List.replicate (182 - payload.length) (0xFF : UInt8)).length + 1) + payload.length =
      188 := by
  simp only [List.length_cons, List.length_replicate]
  omega

/-- A PES packet in a packet of its own, stuffed by the adaptation field. -/
def Carrier.whole (header : PesStart) (data : Bytes)
    (short : (header.encode ++ data).length ≤ 182) : Carrier where
  priority := false
  scrambling := 0
  continuity := 0
  adaptation := some (0 :: List.replicate (182 - (header.encode ++ data).length) 0xFF)
  header := some header
  data := data
  scrambling_lt := unscrambled_lt
  continuity_lt := uncounted_lt
  payload_ne := by simp [PesStart.encode]
  fills := whole_fills short

/-- A sequence parameter set for 1280x720. -/
def sps : Bytes := [0x67, 0x42, 0xC0, 0x1E, 0xF4, 0x02, 0x80, 0x2D, 0x88]

def pps : Bytes := [0x68, 0xCE, 0x3C, 0x80]

def units (list : List Bytes) : Bytes := AnnexB.encode (list.map (⟨1, ·⟩))

/-- The NAL units of three pictures. -/
def pictures : List (List Bytes) :=
  [[sps, pps, [0x65, 0x88, 0x84]], [[0x41, 0x9A, 0x02]], [[0x41, 0x9A, 0x04]]]

theorem pictures_delimitable : ∀ nal ∈ pictures.flatten, AnnexB.Delimitable nal := by
  have checked : ∀ nal ∈ pictures.flatten, ¬ AnnexB.startCode <:+: nal ∧
      nal.getLast? ≠ none ∧ nal.getLast? ≠ some 0 := by decide +kernel
  intro nal member
  obtain ⟨clean, some_, last⟩ := checked nal member
  exact .of_getLast clean some_ last

theorem firstTime_lt : 90000 < 2 ^ 33 := by decide

theorem secondTime_lt : 93000 < 2 ^ 33 := by decide

theorem thirdTime_lt : 96000 < 2 ^ 33 := by decide

theorem first_short : ((PesStart.timed 90000 firstTime_lt).encode ++
    units [sps, pps, [0x65, 0x88, 0x84]]).length ≤ 182 := by decide +kernel

theorem second_short : ((PesStart.timed 93000 secondTime_lt).encode ++
    units [[0x41, 0x9A, 0x02]]).length ≤ 182 := by decide +kernel

theorem third_short : ((PesStart.timed 96000 thirdTime_lt).encode ++
    units [[0x41, 0x9A, 0x04]]).length ≤ 182 := by decide +kernel

def pictureCarriers : List Carrier :=
  [.whole (.timed 90000 firstTime_lt) (units [sps, pps, [0x65, 0x88, 0x84]]) first_short,
    .whole (.timed 93000 secondTime_lt) (units [[0x41, 0x9A, 0x02]]) second_short,
    .whole (.timed 96000 thirdTime_lt) (units [[0x41, 0x9A, 0x04]]) third_short]

/-- Three pictures, each in a PES packet of its own. -/
def threePictures : Multiplex := .ofCarriers pictureCarriers (by decide +kernel)

end Gunda.Stream.Ts

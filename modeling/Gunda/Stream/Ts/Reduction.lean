import Gunda.Stream.Ts.Completeness

/-!
# Streams a transport stream is reduced to

The demuxer follows the first H.264 and the first AAC stream of the program maps, each
from its declaration on, and refuses only when both of them had a payload.
-/
namespace Gunda.Stream.Ts

open Gunda.Lib

/-! ## What a transport stream carries -/

/-- The payload of an undamaged packet. -/
def payloadOf (packet : Bytes) : Option Bytes :=
  if byteAt packet 1 &&& 0x80 ≠ 0 ∨ (byteAt packet 3 >>> 4) &&& 0x03 = 0x02 then none
  else match Demuxer.payloadOffset packet with
    | .ok offset => if packetSize ≤ offset then none else some (packet.drop offset)
    | .error _ => none

/-- The PID of the first stream of a kind. -/
def firstPid (kind : UInt8) (streams : List (UInt8 × Nat)) : Option Nat :=
  (streams.find? (·.1 = kind)).map (·.2)

/-- The tables of a stream as far as it is read, and which of the two tracks had a
payload behind its declaration. -/
structure Overview where
  pmtPid : Option Nat
  pat : Section
  pmt : Section
  streams : List (UInt8 × Nat)
  picture : Bool
  sound : Bool

namespace Overview

def new : Overview := ⟨none, .default, .default, [], false, false⟩

def readPayload (overview : Overview) (pid : Nat) (start : Bool) (payload : Bytes) : Overview :=
  if pid = 0 then
    match overview.pat.push payload start with
    | .ok (pat, sections) => { overview with
        pat := pat
        pmtPid := (sections.findSome? associationPid).or overview.pmtPid }
    | .error _ => overview
  else if some pid = overview.pmtPid then
    match overview.pmt.push payload start with
    | .ok (pmt, sections) => { overview with
        pmt := pmt
        streams := overview.streams ++ sections.flatMap mapStreams }
    | .error _ => overview
  else if some pid = firstPid 0x1B overview.streams then { overview with picture := true }
  else if some pid = firstPid 0x0F overview.streams then { overview with sound := true }
  else overview

def read (overview : Overview) (packet : Bytes) : Overview :=
  match payloadOf packet with
  | some payload =>
      overview.readPayload (Demuxer.packetPid packet) (byteAt packet 1 &&& 0x40 ≠ 0) payload
  | none => overview

end Overview

def overview (source : Bytes) : Overview :=
  (packets source.length source).foldl Overview.read .new

/-- The elementary streams the program maps declare, with their kinds. -/
def declared (source : Bytes) : List (UInt8 × Nat) := (overview source).streams

def carriesPayload (source : Bytes) (pid : Nat) : Bool :=
  (packets source.length source).any fun packet =>
    Demuxer.packetPid packet = pid && (payloadOf packet).isSome

/-- The kind and PID of the stream whose track this is. -/
def streamOf (source : Bytes) (track : ElementaryTrack) : Option (UInt8 × Nat) :=
  (declared source).find? (·.1 = if track.codec.isVideo then 0x1B else 0x0F)

/-- The stream is one the demuxer follows, and had a payload while it was followed. -/
def Followed (source : Bytes) (stream : UInt8 × Nat) : Prop :=
  (declared source).find? (·.1 = 0x1B) = some stream ∧ (overview source).picture = true ∨
    (declared source).find? (·.1 = 0x0F) = some stream ∧ (overview source).sound = true

instance (source : Bytes) (stream : UInt8 × Nat) : Decidable (Followed source stream) :=
  inferInstanceAs (Decidable (_ ∨ _))

/-! ## The demuxer knows no more -/

/-- The demuxer's tables and tracks are those of the overview. -/
structure Overview.Of (overview : Overview) (demuxer : Demuxer) : Prop where
  pmtPid : demuxer.pmtPid = overview.pmtPid
  pat : demuxer.pat = overview.pat
  pmt : demuxer.pmt = overview.pmt
  videoPid : demuxer.videoPid = firstPid 0x1B overview.streams
  audioPid : demuxer.audioPid = firstPid 0x0F overview.streams
  video : demuxer.video.isSome = overview.picture
  audio : demuxer.audio.isSome = overview.sound

namespace Overview.Of

variable {overview : Overview} {demuxer next : Demuxer}
variable {start : Bool} {payload : Bytes}

theorem new : Overview.new.Of .new := ⟨rfl, rfl, rfl, rfl, rfl, rfl, rfl⟩

section

variable (same : overview.Of demuxer)
include same

theorem writeVideo {unit : CompletedUnit}
    (h : demuxer.writeVideo unit = .ok next) : overview.Of next := by
  unfold Demuxer.writeVideo at h
  split at h
  · cases h
  · rename_i track video
    obtain ⟨_, h⟩ := throw_unless_ok h
    cases h
    have seen := same.video
    rw [video] at seen
    exact { same with video := seen }

theorem writeAudio {frame : Bytes}
    (h : demuxer.writeAudio frame = .ok next) : overview.Of next := by
  unfold Demuxer.writeAudio at h
  split at h
  · cases h
  · rename_i track audio
    obtain ⟨_, h⟩ := throw_unless_ok h
    cases h
    have heard := same.audio
    rw [audio] at heard
    exact { same with audio := heard }

theorem videoPayload (h : demuxer.videoPayload start payload = .ok next) :
    Overview.Of { overview with picture := true } next := by
  unfold Demuxer.videoPayload at h
  obtain ⟨header, _, h⟩ := bind_ok h
  obtain ⟨⟨pushed, completed⟩, _, h⟩ := bind_ok h
  have opened : Overview.Of { overview with picture := true }
      { demuxer with video := some pushed } := { same with video := rfl }
  exact foldlM_keeps (P := Overview.Of { overview with picture := true })
    (fun _ _ _ kept wrote => kept.writeVideo wrote) opened h

theorem audioPayload (h : demuxer.audioPayload start payload = .ok next) :
    Overview.Of { overview with sound := true } next := by
  unfold Demuxer.audioPayload at h
  obtain ⟨header, _, h⟩ := bind_ok h
  obtain ⟨⟨pushed, frames⟩, _, h⟩ := bind_ok h
  have opened : Overview.Of { overview with sound := true }
      { demuxer with audio := some pushed } := { same with audio := rfl }
  exact foldlM_keeps (P := Overview.Of { overview with sound := true })
    (fun _ _ _ kept wrote => kept.writeAudio wrote) opened h

omit same in
theorem firstPid_append (kind : UInt8) (first second : List (UInt8 × Nat)) :
    firstPid kind (first ++ second) = (firstPid kind first).or (firstPid kind second) := by
  unfold firstPid
  rw [List.find?_append, Option.map_or]

theorem declare (stream : UInt8 × Nat) :
    Overview.Of { overview with streams := overview.streams ++ [stream] }
      (demuxer.declare stream) := by
  obtain ⟨kind, pid⟩ := stream
  have video := same.videoPid
  have audio := same.audioPid
  have only (wanted : UInt8) :
      firstPid wanted [(kind, pid)] = if kind = wanted then some pid else none := by
    unfold firstPid
    by_cases named : kind = wanted
    · simp [named]
    · simp [named]
  unfold Demuxer.declare
  split
  · rename_i fresh
    obtain ⟨rfl, unset⟩ := fresh
    rw [Option.isNone_iff_eq_none.mp unset] at video
    refine { same with videoPid := ?_, audioPid := ?_ }
    · rw [firstPid_append, ← video, only, if_pos rfl, Option.none_or]
    · rw [firstPid_append, ← audio, only, if_neg (by decide), Option.or_none]
  · rename_i notVideo
    have videoKept : (firstPid 0x1B overview.streams).or (firstPid 0x1B [(kind, pid)]) =
        firstPid 0x1B overview.streams := by
      rw [← video, only]
      cases known : demuxer.videoPid with
      | some other => rfl
      | none =>
        rw [known] at notVideo
        rw [if_neg (fun named => notVideo ⟨named, rfl⟩), Option.or_none]
    split
    · rename_i fresh
      obtain ⟨rfl, unset⟩ := fresh
      rw [Option.isNone_iff_eq_none.mp unset] at audio
      refine { same with videoPid := ?_, audioPid := ?_ }
      · rw [firstPid_append, videoKept, video]
      · rw [firstPid_append, ← audio, only, if_pos rfl, Option.none_or]
    · rename_i notAudio
      have audioKept : (firstPid 0x0F overview.streams).or (firstPid 0x0F [(kind, pid)]) =
          firstPid 0x0F overview.streams := by
        rw [← audio, only]
        cases known : demuxer.audioPid with
        | some other => rfl
        | none =>
          rw [known] at notAudio
          rw [if_neg (fun named => notAudio ⟨named, rfl⟩), Option.or_none]
      have kept : Overview.Of { overview with streams := overview.streams ++ [(kind, pid)] }
          demuxer := by
        refine { same with videoPid := ?_, audioPid := ?_ }
        · rw [firstPid_append, videoKept, video]
        · rw [firstPid_append, audioKept, audio]
      split
      · exact { kept with }
      · split
        · exact { kept with }
        · split
          · exact { kept with }
          · exact kept

theorem declares (streams : List (UInt8 × Nat)) :
    Overview.Of { overview with streams := overview.streams ++ streams }
      (streams.foldl Demuxer.declare demuxer) := by
  induction streams generalizing overview demuxer with
  | nil => rwa [List.append_nil]
  | cons stream streams ih =>
    have later := ih (same.declare stream)
    rwa [List.append_assoc] at later

theorem dispatch {pid : Nat} (h : demuxer.dispatch pid start payload = .ok next) :
    (overview.readPayload pid start payload).Of next := by
  unfold Demuxer.dispatch at h
  unfold Overview.readPayload
  rw [same.pmtPid, same.videoPid, same.audioPid] at h
  split
  · rename_i association
    rw [if_pos association] at h
    unfold Demuxer.programs at h
    obtain ⟨⟨pat, sections⟩, pushed, h⟩ := bind_ok h
    rw [same.pat] at pushed
    rw [pushed]
    cases h
    refine { same with pmtPid := ?_, pat := rfl }
    rw [same.pmtPid]
  · rename_i notAssociation
    rw [if_neg notAssociation] at h
    split
    · rename_i map
      rw [if_pos map] at h
      unfold Demuxer.programMap at h
      obtain ⟨⟨pmt, sections⟩, pushed, h⟩ := bind_ok h
      rw [same.pmt] at pushed
      rw [pushed]
      cases h
      have read : Overview.Of { overview with pmt := pmt } { demuxer with pmt := pmt } :=
        { same with pmt := rfl }
      exact read.declares _
    · rename_i notMap
      rw [if_neg notMap] at h
      split
      · rename_i picture
        rw [if_pos picture] at h
        exact same.videoPayload h
      · rename_i notPicture
        rw [if_neg notPicture] at h
        split
        · rename_i sound
          rw [if_pos sound] at h
          exact same.audioPayload h
        · rename_i notSound
          rw [if_neg notSound] at h
          cases h
          exact same

theorem packet {packet : Bytes}
    (h : demuxer.packet packet = .ok next) : (overview.read packet).Of next := by
  unfold Demuxer.packet at h
  unfold Overview.read payloadOf
  obtain ⟨_, h⟩ := throw_unless_ok h
  obtain ⟨damaged, h⟩ | ⟨sound, h⟩ := ite_ok h
  · cases h
    rw [if_pos (Or.inl damaged)]
    exact same
  · obtain ⟨offset, found, h⟩ := bind_ok h
    obtain ⟨idle, h⟩ | ⟨busy, h⟩ := ite_ok h
    · cases h
      rw [found]
      obtain alone | behind := idle
      · rw [if_pos (Or.inr alone)]
        exact same
      · dsimp only
        rw [if_pos behind, ite_self]
        exact same
    · have some_ : ¬ (byteAt packet 1 &&& 0x80 ≠ 0 ∨ (byteAt packet 3 >>> 4) &&& 0x03 = 0x02) := by
        rintro (damaged | alone)
        · exact sound damaged
        · exact busy (Or.inl alone)
      rw [if_neg some_, found]
      dsimp only
      rw [if_neg (fun behind => busy (Or.inr behind))]
      exact same.dispatch h

theorem readPackets {packets : List Bytes} {started started' : Bool}
    (h : readPackets started demuxer packets = .ok (started', next)) :
    (packets.foldl Overview.read overview).Of next := by
  induction packets generalizing started overview demuxer with
  | nil =>
    cases h
    exact same
  | cons packet packets ih =>
    obtain ⟨after, stepped, rest⟩ := readPackets_cons h
    exact ih (same.packet stepped) rest

theorem drain (h : demuxer.drain = .ok next) : overview.Of next := by
  unfold Demuxer.drain at h
  obtain ⟨written, video, audio⟩ := bind_ok h
  have flushed : overview.Of { demuxer with
      video := (demuxer.video.map (·.flush [])).map (·.1)
      audio := (demuxer.audio.map (·.flush [])).map (·.1) } := by
    refine { same with video := ?_, audio := ?_ }
    · simpa using same.video
    · simpa using same.audio
  have pictures := foldlM_keeps (P := overview.Of) (fun _ _ _ kept wrote => kept.writeVideo wrote)
    flushed video
  exact foldlM_keeps (P := overview.Of) (fun _ _ _ kept wrote => kept.writeAudio wrote)
    pictures audio

end

end Overview.Of

theorem videoTrack_isVideo {video : VideoTrack} {track : ElementaryTrack}
    (h : video.intoTrack = .ok track) : track.codec.isVideo = true := by
  unfold VideoTrack.intoTrack at h
  obtain ⟨_, h⟩ := throw_unless_ok h
  split at h
  · cases h
  · cases h
  · obtain ⟨configuration, _, h⟩ := bind_ok h
    obtain ⟨size, _, h⟩ := bind_ok h
    cases h
    rfl

/-- Exactly one of the two streams had a payload, and it is the one returned. -/
theorem demux_overview {source file : Bytes} {track : ElementaryTrack}
    (h : demux source = .ok (track, file)) :
    (overview source).picture = track.codec.isVideo ∧
      (overview source).sound = !track.codec.isVideo := by
  unfold demux readStream at h
  obtain ⟨demuxer, read, h⟩ := bind_ok h
  obtain ⟨⟨started, last⟩, ran, read⟩ := bind_ok read
  obtain ⟨_, read⟩ := throw_unless_ok read
  cases read
  unfold Demuxer.finish at h
  obtain ⟨drained, drain, h⟩ := bind_ok h
  obtain ⟨made, found, h⟩ := bind_ok h
  cases h
  have same : (overview source).Of drained := (Overview.Of.new.readPackets ran).drain drain
  have video := same.video
  have audio := same.audio
  unfold Demuxer.track at found
  split at found
  · rename_i some_ none_
    rw [some_] at video
    rw [none_] at audio
    rw [videoTrack_isVideo found]
    exact ⟨video.symm, audio.symm⟩
  · rename_i none_ some_
    rw [none_] at video
    rw [some_] at audio
    rw [audioTrack_not_video found]
    exact ⟨video.symm, audio.symm⟩
  · cases found
  · cases found

/-- The pictures and sounds that `declare` knows. -/
def isKnownMedia (kind : UInt8) : Bool := [0x1B, 0x24, 0x0F, 0x03, 0x04, 0x81, 0x87].contains kind

/-- One H.264 stream, of PID 256, and one of Dolby audio, of PID 257. -/
def dolbyMap : Bytes :=
  [0x02, 0xB0, 0x17, 0x00, 0x01, 0xC1, 0x00, 0x00, 0xFF, 0xFF, 0xF0, 0x00, 0x1B, 0xE1, 0x00,
    0xF0, 0x00, 0x81, 0xE1, 0x01, 0xF0, 0x00, 0, 0, 0, 0]

def picturesWithDolby : Bytes :=
  ([tablePacket 0 associationTable, tablePacket 4096 dolbyMap] ++
    pictureCarriers.map (·.encode 256) ++
    [(Carrier.whole (.timed 90000 firstTime_lt) [0x0B, 0x77] (by decide +kernel)).encode 257]).flatten

end Gunda.Stream.Ts

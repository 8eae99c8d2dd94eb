import Gunda.Lib.AnnexB
import Gunda.Stream.Ts.Elementary

/-!
# Demuxing a transport stream

`gunda-stream/src/ts.rs`: packets, program tables, PES headers, and the video and
audio tracks they fill. Reading and writing files does not fail here. Loops take
bytes off a buffer in every round, so as many rounds as bytes are enough.
-/
namespace Gunda.Stream.Ts

open Gunda.Lib

def packetSize : Nat := 188

def sync : UInt8 := 0x47

def maxSection : Nat := 4 * 1024

def maxPending : Nat := 8 * 1024 * 1024

def sampleRates : List Nat :=
  [96000, 88200, 64000, 48000, 44100, 32000, 24000, 22050, 16000, 12000, 11025, 8000, 7350]

/-- The byte at an index the source has checked. -/
def byteAt (bytes : Bytes) (index : Nat) : UInt8 := bytes.getD index 0

/-- A big-endian number of two bytes. -/
def u16At (bytes : Bytes) (index : Nat) : Nat :=
  (byteAt bytes index).toNat <<< 8 ||| (byteAt bytes (index + 1)).toNat

/-! ## Start codes -/

/-- The search for a start code in a rest of the bytes that begins at the index. -/
def startCodeFrom : Bytes → Nat → Option Nat
  | a :: b :: c :: rest, index =>
      if a = 0 ∧ b = 0 ∧ c = 1 then some (index + 2) else startCodeFrom (b :: c :: rest) (index + 1)
  | _, _ => none

/-- The index of the last byte of the first start code at or after the index. -/
def findStartCode (bytes : Bytes) (start : Nat) : Option Nat :=
  startCodeFrom (bytes.drop start) start

/-- Drops the zero bytes a start code leaves in front of itself. -/
def trimTrailingZeros (bytes : Bytes) : Bytes := AnnexB.trimTrailingZeros bytes

/-! ## Video -/

structure CompletedUnit where
  data : Bytes
  pts : Option Nat
  dts : Option Nat
  sync : Bool
  deriving DecidableEq, Repr

structure VideoTrack where
  pending : Bytes
  unit : Bytes
  unitPts : Option Nat
  unitDts : Option Nat
  pts : Option Nat
  dts : Option Nat
  lastDts : Nat
  hasSlice : Bool
  sync : Bool
  sps : Option Bytes
  pps : Option Bytes
  samples : List ElementarySample
  decodeTimes : List Nat
  deriving DecidableEq, Repr

namespace VideoTrack

def default : VideoTrack :=
  ⟨[], [], none, none, none, none, 0, false, false, none, none, [], []⟩

def timed (track : VideoTrack) (pts dts : Option Nat) : VideoTrack :=
  { track with pts := pts, dts := dts }

def nextDecodeTime (track : VideoTrack) : Nat :=
  match track.decodeTimes.getLast?, track.samples.getLast? with
  | some dts, some sample => saturatingAdd dts sample.duration
  | _, _ => track.lastDts

/-- Emits the access unit being assembled. -/
def flush (track : VideoTrack) (complete : List CompletedUnit) :
    VideoTrack × List CompletedUnit :=
  if track.unit = [] then (track, complete)
  else
    ({ track with unit := [], unitPts := none, unitDts := none, hasSlice := false, sync := false },
      complete ++ [⟨track.unit, track.unitPts, track.unitDts, track.sync⟩])

/-- The kind of a NAL unit, from its first byte. -/
def nalKind (first : UInt8) : UInt8 := first &&& 0x1F

def isSlice (kind : UInt8) : Bool := 1 ≤ kind && kind ≤ 5

/-- What a NAL unit tells about the access unit and the track. -/
def learn (track : VideoTrack) (kind : UInt8) (nal : Bytes) : VideoTrack :=
  if isSlice kind then { track with hasSlice := true, sync := track.sync || kind = 5 }
  else if kind = 7 then { track with sps := some nal }
  else if kind = 8 then { track with pps := some nal }
  else track

/-- The times of the PES packet being read are those of a unit that opens. -/
def stamp (track : VideoTrack) : VideoTrack :=
  if track.unit = [] then { track with unitPts := track.pts, unitDts := track.dts } else track

/-- Appends a NAL unit behind its length. -/
def append (track : VideoTrack) (nal : Bytes) : VideoTrack :=
  if 2 ^ 32 ≤ nal.length then track
  else { track with unit := track.unit ++ Bytes.be 4 nal.length ++ nal }

/-- Adds one NAL unit to the access unit being assembled. -/
def nal (track : VideoTrack) (nal : Bytes) (complete : List CompletedUnit) :
    VideoTrack × List CompletedUnit :=
  match nal with
  | [] => (track, complete)
  | first :: _ =>
      let kind := nalKind first
      let boundary := kind = 9 ∨ isSlice kind && track.hasSlice
      let (track, complete) := if boundary then track.flush complete else (track, complete)
      ((track.stamp.learn kind nal).append nal, complete)

/-- The loop of `push`: one NAL unit a round. -/
def pushRounds : Nat → VideoTrack → List CompletedUnit → VideoTrack × List CompletedUnit
  | 0, track, complete => (track, complete)
  | rounds + 1, track, complete =>
      match findStartCode track.pending 0 with
      | none => (track, complete)
      | some code =>
          let track := if 2 < code then { track with pending := track.pending.drop (code - 2) }
            else track
          match findStartCode track.pending 3 with
          | none => (track, complete)
          | some next =>
              let body := Bytes.slice track.pending 3 (next - 2 - 3)
              let unit := trimTrailingZeros body
              let (track, complete) := nal { track with pending := track.pending.drop (next - 2) }
                unit complete
              pushRounds rounds track complete

/-- Feeds one PES payload and collects the access units it completed. -/
def push (track : VideoTrack) (payload : Bytes) (complete : List CompletedUnit) :
    Except MuxError (VideoTrack × List CompletedUnit) :=
  let track := { track with pending := track.pending ++ payload }
  let (track, complete) := pushRounds track.pending.length track complete
  if maxPending < track.pending.length then
    .error (.malformed "a video NAL unit exceeds the supported size")
  else .ok (track, complete)

def intoTrack (track : VideoTrack) : Except MuxError ElementaryTrack :=
  if track.samples = [] then .error (.malformed "no video sample survived the transport stream")
  else match track.sps, track.pps with
    | none, _ => .error (.malformed "the video has no sequence parameter set")
    | some _, none => .error (.malformed "the video has no picture parameter set")
    | some sps, some pps => do
        let configuration ← avcConfiguration sps pps
        let (width, height) ← dimensions sps
        let samples := fillDurations track.samples track.decodeTimes
        pure
          { codec := .avc configuration width height
            timescale := videoTimescale
            samples := samples
            duration := totalDuration samples }

end VideoTrack

/-! ## Audio -/

/-- `container::id3v2_length`: the length of an ID3v2 tag at the start. -/
def id3v2Length (bytes : Bytes) : Option Nat :=
  if bytes.length < 10 ∨ bytes.take 3 ≠ [0x49, 0x44, 0x33] then none
  else
    let size := (byteAt bytes 6 &&& 0x7F).toNat <<< 21 ||| (byteAt bytes 7 &&& 0x7F).toNat <<< 14 |||
      (byteAt bytes 8 &&& 0x7F).toNat <<< 7 ||| (byteAt bytes 9 &&& 0x7F).toNat
    let footer := if byteAt bytes 5 &&& 0x10 ≠ 0 then 10 else 0
    some (10 + size + footer)

structure AudioTrack where
  pending : Bytes
  sampleRate : Option Nat
  channelCount : Nat
  objectType : Nat
  frequencyIndex : Nat
  samples : List ElementarySample
  deriving DecidableEq, Repr

namespace AudioTrack

def default : AudioTrack := ⟨[], none, 0, 0, 0, []⟩

def isAdtsSync (first second : UInt8) : Bool := first = 0xFF && second &&& 0xF6 = 0xF0

def adtsSyncFrom : Bytes → Nat → Option Nat
  | a :: b :: rest, index =>
      if isAdtsSync a b then some index else adtsSyncFrom (b :: rest) (index + 1)
  | _, _ => none

/-- The first ADTS sync word at or after the index. -/
def findAdtsSync (bytes : Bytes) (start : Nat) : Option Nat :=
  adtsSyncFrom (bytes.drop start) start

/-- The length of a frame's header. -/
def adtsHeader (bytes : Bytes) : Nat := if byteAt bytes 1 &&& 0x01 = 0 then 9 else 7

/-- The length of a frame, header included. -/
def adtsLength (bytes : Bytes) : Nat :=
  (byteAt bytes 3 &&& 0x03).toNat <<< 11 ||| (byteAt bytes 4).toNat <<< 3 |||
    (byteAt bytes 5).toNat >>> 5

/-- Checks a frame's configuration against the track's, or adopts it. -/
def configure (track : AudioTrack) : Except MuxError AudioTrack :=
  let profile := ((byteAt track.pending 2 >>> 6) &&& 0x03).toNat
  let frequencyIndex := ((byteAt track.pending 2 >>> 2) &&& 0x0F).toNat
  let channelConfiguration :=
    (((byteAt track.pending 2 &&& 0x01) <<< 2) ||| (byteAt track.pending 3 >>> 6)).toNat
  match sampleRates[frequencyIndex]? with
  | none => .error (.malformed "an AAC frame names no sample rate")
  | some rate =>
      if channelConfiguration = 0 then
        .error (.unsupported "the AAC audio leaves its channel layout to the stream")
      else match track.sampleRate with
        | some known =>
            if known ≠ rate then
              .error (.unsupported "the AAC audio changes sample rate partway through")
            else .ok track
        | none => .ok { track with
            sampleRate := some rate
            frequencyIndex := frequencyIndex
            objectType := profile + 1
            channelCount := channelConfiguration }

/-- One round of `push`: whether to go on, and the frame found. -/
inductive Round where
  | stop (track : AudioTrack)
  | again (track : AudioTrack)
  | frame (track : AudioTrack) (frame : Bytes)

def tagRound (track : AudioTrack) : Round :=
  if track.pending.length < 10 then .stop track
  else match id3v2Length track.pending with
    | none => .stop track
    | some tag =>
        if track.pending.length < tag then .stop track
        else .again { track with pending := track.pending.drop tag }

def frameRound (track : AudioTrack) : Except MuxError Round :=
  let header := adtsHeader track.pending
  let length := adtsLength track.pending
  if track.pending.length < header then .ok (.stop track)
  else if length < header then .error (.malformed "an AAC frame is shorter than its own header")
  else if track.pending.length < length then .ok (.stop track)
  else do
    let track ← track.configure
    pure (.frame { track with pending := track.pending.drop length }
      (Bytes.slice track.pending header (length - header)))

def round (track : AudioTrack) : Except MuxError Round :=
  if track.pending.take 3 = [0x49, 0x44, 0x33] then .ok track.tagRound
  else if track.pending.length < 7 then .ok (.stop track)
  else if !isAdtsSync (byteAt track.pending 0) (byteAt track.pending 1) then
    match findAdtsSync track.pending 1 with
    | none => .ok (.stop { track with pending := [] })
    | some next => .ok (.again { track with pending := track.pending.drop next })
  else track.frameRound

def pushRounds : Nat → AudioTrack → List Bytes → Except MuxError (AudioTrack × List Bytes)
  | 0, track, frames => .ok (track, frames)
  | rounds + 1, track, frames => do
      let round ← track.round
      match round with
      | .stop track => pure (track, frames)
      | .again track => pushRounds rounds track frames
      | .frame track frame => pushRounds rounds track (frames ++ [frame])

/-- Feeds one PES payload and collects the complete ADTS frames. -/
def push (track : AudioTrack) (payload : Bytes) (frames : List Bytes) :
    Except MuxError (AudioTrack × List Bytes) := do
  let track := { track with pending := track.pending ++ payload }
  let (track, frames) ← pushRounds (track.pending.length + 1) track frames
  if maxPending < track.pending.length then
    throw (.malformed "an AAC frame exceeds the supported size")
  pure (track, frames)

/-- Emits the frame still being assembled, if any. -/
def flush (track : AudioTrack) (frames : List Bytes) : AudioTrack × List Bytes :=
  let header := adtsHeader track.pending
  let length := adtsLength track.pending
  let last := if 7 ≤ track.pending.length ∧
      isAdtsSync (byteAt track.pending 0) (byteAt track.pending 1) ∧
      header ≤ length ∧ length ≤ track.pending.length
    then [Bytes.slice track.pending header (length - header)] else []
  ({ track with pending := [] }, frames ++ last)

def intoTrack (track : AudioTrack) : Except MuxError ElementaryTrack :=
  if track.samples = [] then .error (.malformed "no AAC frame survived the transport stream")
  else match track.sampleRate with
    | none => .error (.malformed "the AAC audio declares no sample rate")
    | some rate =>
        .ok
          { codec := .aac (track.objectType <<< 11 ||| track.frequencyIndex <<< 7 |||
              track.channelCount <<< 3) track.channelCount rate
            timescale := rate
            samples := track.samples
            duration := totalDuration track.samples }

end AudioTrack

/-! ## PES headers -/

/-- The 33-bit timestamp of five bytes. -/
def readTimestamp (bytes : Bytes) : Nat :=
  ((byteAt bytes 0 >>> 1).toNat &&& 0x07) <<< 30 ||| (byteAt bytes 1).toNat <<< 22 |||
    ((byteAt bytes 2 >>> 1).toNat &&& 0x7F) <<< 15 ||| (byteAt bytes 3).toNat <<< 7 |||
    ((byteAt bytes 4).toNat >>> 1 &&& 0x7F)

/-- A timestamp at an offset of a payload. -/
def timestampAt (payload : Bytes) (offset : Nat) : Except MuxError Nat :=
  if payload.length < offset + 5 then .error (.malformed "a PES timestamp runs past its packet")
  else .ok (readTimestamp (Bytes.slice payload offset 5))

/-- A timestamp that is there when its flag is set. -/
def flaggedTimestamp (payload : Bytes) (flag : Bool) (offset : Nat) :
    Except MuxError (Option Nat) :=
  if flag then (timestampAt payload offset).map some else .ok none

/-- Stream kinds whose packets have no optional header. -/
def plainStreamIds : List UInt8 := [0xBC, 0xBE, 0xBF, 0xF0, 0xF1, 0xF2, 0xF8, 0xFF]

structure PesHeader where
  length : Nat
  pts : Option Nat
  dts : Option Nat
  deriving DecidableEq, Repr

/-- Where the payload of a PES packet begins, and its timestamps. -/
def readPesHeader (payload : Bytes) : Except MuxError PesHeader :=
  if payload.length < 9 ∨ payload.take 3 ≠ [0, 0, 1] then
    .error (.malformed "a packet that should start a PES packet does not")
  else if byteAt payload 3 ∈ plainStreamIds then .ok ⟨6, none, none⟩
  else if byteAt payload 6 &&& 0xC0 ≠ 0x80 then
    .error (.malformed "a PES packet is not MPEG-2 shaped")
  else do
    let flags := byteAt payload 7
    let length := (byteAt payload 8).toNat
    let pts ← flaggedTimestamp payload (flags &&& 0x80 ≠ 0) 9
    let dts ← flaggedTimestamp payload (flags &&& 0x40 ≠ 0) (if flags &&& 0x80 ≠ 0 then 14 else 9)
    if payload.length < 9 + length then
      throw (.malformed "a PES header runs past the packet that starts it")
    pure ⟨9 + length, pts, dts⟩

/-! ## Program tables -/

structure Section where
  bytes : Bytes
  expected : Option Nat
  deriving DecidableEq, Repr

namespace Section

def default : Section := ⟨[], none⟩

/-- The length of the section being read, once it is known. -/
inductive Expectation where
  | wait (table : Section)
  | known (table : Section) (total : Nat)

def expect (table : Section) : Except MuxError Expectation :=
  match table.expected with
  | some total => .ok (.known table total)
  | none =>
      if table.bytes.length < 3 then .ok (.wait table)
      else if byteAt table.bytes 0 = 0xFF then .ok (.wait { table with bytes := [] })
      else
        let total := ((byteAt table.bytes 1 &&& 0x0F).toNat <<< 8 |||
          (byteAt table.bytes 2).toNat) + 3
        if maxSection < total then
          .error (.malformed "a program table declares a length no table has")
        else .ok (.known { table with expected := some total } total)

def sectionRounds : Nat → Section → List Bytes → Except MuxError (Section × List Bytes)
  | 0, table, complete => .ok (table, complete)
  | rounds + 1, table, complete => do
      let expectation ← table.expect
      match expectation with
      | .wait table => pure (table, complete)
      | .known table total =>
          if table.bytes.length < total then pure (table, complete)
          else
            sectionRounds rounds ⟨table.bytes.drop total, none⟩
              (complete ++ [table.bytes.take total])

/-- Appends one packet's payload and returns the sections it completed. -/
def push (table : Section) (payload : Bytes) (start : Bool) :
    Except MuxError (Section × List Bytes) :=
  if start then
    match payload with
    | [] => .error (.malformed "a program table packet is empty")
    | pointer :: rest =>
        if rest.length < pointer.toNat then
          .error (.malformed "a program table pointer runs past its packet")
        else
          let bytes := rest.drop pointer.toNat
          sectionRounds (bytes.length + 1) ⟨bytes, none⟩ []
  else if table.expected.isNone then .ok (table, [])
  else
    let bytes := table.bytes ++ payload
    sectionRounds (bytes.length + 1) { table with bytes := bytes } []

end Section

/-- The first program a program association section names; the loop of
`programs` over four-byte entries. -/
def firstProgram (bytes : Bytes) (tableEnd : Nat) : Nat → Nat → Option Nat
  | 0, _ => none
  | rounds + 1, index =>
      if index + 4 ≤ tableEnd then
        if u16At bytes index ≠ 0 then some (u16At bytes (index + 2) &&& 0x1FFF)
        else firstProgram bytes tableEnd rounds (index + 4)
      else none

/-- The program map PID of a section, where it is a program association. -/
def associationPid (bytes : Bytes) : Option Nat :=
  if bytes.head? ≠ some 0 ∨ bytes.length < 12 then none
  else firstProgram bytes (bytes.length - 4) bytes.length 8

/-- The stream kinds and PIDs a program map section lists; the loop of
`program_map`. -/
def mapEntries (bytes : Bytes) (tableEnd : Nat) : Nat → Nat → List (UInt8 × Nat)
  | 0, _ => []
  | rounds + 1, index =>
      if index + 5 ≤ tableEnd then
        let pid := u16At bytes (index + 1) &&& 0x1FFF
        let info := (byteAt bytes (index + 3) &&& 0x0F).toNat <<< 8 |||
          (byteAt bytes (index + 4)).toNat
        (byteAt bytes index, pid) :: mapEntries bytes tableEnd rounds (index + 5 + info)
      else []

def mapStreams (bytes : Bytes) : List (UInt8 × Nat) :=
  if bytes.head? ≠ some 2 ∨ bytes.length < 16 then []
  else
    let programInfo := (byteAt bytes 10 &&& 0x0F).toNat <<< 8 ||| (byteAt bytes 11).toNat
    mapEntries bytes (bytes.length - 4) bytes.length (12 + programInfo)

/-! ## The demuxer -/

structure Demuxer where
  output : Bytes
  written : Nat
  pmtPid : Option Nat
  videoPid : Option Nat
  audioPid : Option Nat
  video : Option VideoTrack
  audio : Option AudioTrack
  unsupportedVideo : Option String
  unsupportedAudio : Option String
  pat : Section
  pmt : Section
  deriving DecidableEq, Repr

namespace Demuxer

def new : Demuxer :=
  ⟨[], 0, none, none, none, none, none, none, none, Section.default, Section.default⟩

/-- Remembers one elementary stream the program map declared. -/
def declare (demuxer : Demuxer) (stream : UInt8 × Nat) : Demuxer :=
  if stream.1 = 0x1B ∧ demuxer.videoPid.isNone then { demuxer with videoPid := some stream.2 }
  else if stream.1 = 0x0F ∧ demuxer.audioPid.isNone then { demuxer with audioPid := some stream.2 }
  else if stream.1 = 0x24 then
    { demuxer with unsupportedVideo := some "the transport stream carries HEVC video" }
  else if stream.1 = 0x03 ∨ stream.1 = 0x04 then
    { demuxer with unsupportedAudio := some "the transport stream carries MPEG audio, not AAC" }
  else if stream.1 = 0x81 ∨ stream.1 = 0x87 then
    { demuxer with unsupportedAudio := some "the transport stream carries Dolby audio, not AAC" }
  else demuxer

/-- Reads a program association table. -/
def programs (demuxer : Demuxer) (start : Bool) (payload : Bytes) : Except MuxError Demuxer := do
  let (pat, sections) ← demuxer.pat.push payload start
  pure { demuxer with
    pat := pat
    pmtPid := (sections.findSome? associationPid).or demuxer.pmtPid }

/-- Reads a program map table. -/
def programMap (demuxer : Demuxer) (start : Bool) (payload : Bytes) : Except MuxError Demuxer := do
  let (pmt, sections) ← demuxer.pmt.push payload start
  pure ((sections.flatMap mapStreams).foldl declare { demuxer with pmt := pmt })

/-- Presentation minus decode time, where that is a signed 32-bit number. -/
def compositionOffset (pts dts : Nat) : Int :=
  let offset : Int := pts - dts
  if pts < 2 ^ 63 ∧ dts < 2 ^ 63 ∧ -2 ^ 31 ≤ offset ∧ offset < 2 ^ 31 then offset else 0

/-- Writes one complete video access unit and records its sample. -/
def writeVideo (demuxer : Demuxer) (unit : CompletedUnit) : Except MuxError Demuxer :=
  match demuxer.video with
  | none => .error (.malformed "a video unit arrived before its track")
  | some track =>
      let dts := (unit.dts.or unit.pts).getD track.nextDecodeTime
      let pts := unit.pts.getD dts
      let size := unit.data.length
      if 2 ^ 32 ≤ size then .error .tooLarge
      else .ok { demuxer with
        output := demuxer.output ++ unit.data
        video := some { track with
          samples := track.samples ++
            [⟨demuxer.written, size, 0, max (compositionOffset pts dts) 0, unit.sync⟩]
          decodeTimes := track.decodeTimes ++ [dts]
          lastDts := dts }
        written := saturatingAdd demuxer.written size }

/-- Writes one complete AAC frame and records its sample. -/
def writeAudio (demuxer : Demuxer) (frame : Bytes) : Except MuxError Demuxer :=
  match demuxer.audio with
  | none => .error (.malformed "an audio frame arrived before its track")
  | some track =>
      if 2 ^ 32 ≤ frame.length then .error .tooLarge
      else .ok { demuxer with
        output := demuxer.output ++ frame
        audio := some { track with
          samples := track.samples ++ [⟨demuxer.written, frame.length, aacFrameSamples, 0, true⟩] }
        written := saturatingAdd demuxer.written frame.length }

/-- The track of a video payload: timed by the header that starts a PES packet,
new where there is none. -/
def openVideo (video : Option VideoTrack) (header : Option PesHeader) : VideoTrack :=
  match header with
  | some header => (video.getD .default).timed header.pts header.dts
  | none => video.getD .default

/-- The header of a payload that starts a PES packet. -/
def startHeader (start : Bool) (payload : Bytes) : Except MuxError (Option PesHeader) :=
  if start then (readPesHeader payload).map some else .ok none

/-- Reads one packet of the video elementary stream. -/
def videoPayload (demuxer : Demuxer) (start : Bool) (payload : Bytes) :
    Except MuxError Demuxer := do
  let header ← startHeader start payload
  let (video, units) ← (openVideo demuxer.video header).push
    (payload.drop (header.elim 0 (·.length))) []
  units.foldlM writeVideo { demuxer with video := some video }

/-- Reads one packet of the audio elementary stream. -/
def audioPayload (demuxer : Demuxer) (start : Bool) (payload : Bytes) :
    Except MuxError Demuxer := do
  let header ← startHeader start payload
  let (audio, frames) ← (demuxer.audio.getD .default).push
    (payload.drop (header.elim 0 (·.length))) []
  frames.foldlM writeAudio { demuxer with audio := some audio }

/-- Where the payload of a packet begins. -/
def payloadOffset (packet : Bytes) : Except MuxError Nat :=
  if (byteAt packet 3 >>> 4) &&& 0x02 ≠ 0 then
    let offset := 5 + (byteAt packet 4).toNat
    if packetSize < offset then .error (.malformed "a packet's adaptation field runs past its end")
    else .ok offset
  else .ok 4

def packetPid (packet : Bytes) : Nat :=
  (byteAt packet 1 &&& 0x1F).toNat <<< 8 ||| (byteAt packet 2).toNat

/-- Hands a payload to the reader its PID names. -/
def dispatch (demuxer : Demuxer) (pid : Nat) (start : Bool) (payload : Bytes) :
    Except MuxError Demuxer :=
  if pid = 0 then demuxer.programs start payload
  else if some pid = demuxer.pmtPid then demuxer.programMap start payload
  else if some pid = demuxer.videoPid then demuxer.videoPayload start payload
  else if some pid = demuxer.audioPid then demuxer.audioPayload start payload
  else .ok demuxer

/-- Reads one 188-byte packet. -/
def packet (demuxer : Demuxer) (packet : Bytes) : Except MuxError Demuxer :=
  if packet.length ≠ packetSize then
    .error (.malformed "a transport-stream packet is not 188 bytes")
  else if byteAt packet 1 &&& 0x80 ≠ 0 then .ok demuxer
  else do
    let start := byteAt packet 1 &&& 0x40 ≠ 0
    let adaptation := (byteAt packet 3 >>> 4) &&& 0x03
    let offset ← payloadOffset packet
    if adaptation = 0x02 ∨ packetSize ≤ offset then pure demuxer
    else demuxer.dispatch (packetPid packet) start (packet.drop offset)

/-- The refusal for a stream that named no track this can read. -/
def missingTrack (demuxer : Demuxer) : MuxError :=
  match demuxer.unsupportedVideo, demuxer.unsupportedAudio with
  | some reason, _ => .unsupported reason
  | none, some reason => .unsupported reason
  | none, none => .unsupported "the transport stream declares no track this can read"

/-- Writes the last access unit and the last frame. -/
def drain (demuxer : Demuxer) : Except MuxError Demuxer := do
  let video := demuxer.video.map (·.flush [])
  let audio := demuxer.audio.map (·.flush [])
  let demuxer ← (video.elim [] (·.2)).foldlM writeVideo
    { demuxer with video := video.map (·.1), audio := audio.map (·.1) }
  (audio.elim [] (·.2)).foldlM writeAudio demuxer

/-- The one track the stream carried. -/
def track (demuxer : Demuxer) : Except MuxError ElementaryTrack :=
  match demuxer.video, demuxer.audio with
  | some video, none => video.intoTrack
  | none, some audio => audio.intoTrack
  | some _, some _ => .error (.unsupported "the transport stream already carries both tracks")
  | none, none => .error demuxer.missingTrack

/-- Closes the stream. -/
def finish (demuxer : Demuxer) : Except MuxError (ElementaryTrack × Bytes) := do
  let demuxer ← demuxer.drain
  let track ← demuxer.track
  pure (track, demuxer.output)

end Demuxer

/-- The packets of a stream; a rest shorter than a packet is left unread. -/
def packets : Nat → Bytes → List Bytes
  | 0, _ => []
  | rounds + 1, source =>
      if source.length < packetSize then []
      else source.take packetSize :: packets rounds (source.drop packetSize)

/-- Reads the packets in order; the mark says whether one was read before. -/
def readPackets : Bool → Demuxer → List Bytes → Except MuxError (Bool × Demuxer)
  | started, demuxer, [] => .ok (started, demuxer)
  | started, demuxer, packet :: packets =>
      if packet.head? ≠ some sync then
        .error (.malformed (if started then "the transport stream stops being packet aligned"
          else "the transport stream does not begin on a packet boundary"))
      else do
        let demuxer ← demuxer.packet packet
        readPackets true demuxer packets

/-- The demuxer when all packets are read. -/
def readStream (source : Bytes) : Except MuxError Demuxer := do
  let (started, demuxer) ← readPackets false .new (packets source.length source)
  if !started then
    throw (.malformed "the transport stream is empty")
  pure demuxer

/-- The one track of a transport stream, and the elementary file. -/
def demux (source : Bytes) : Except MuxError (ElementaryTrack × Bytes) := do
  let demuxer ← readStream source
  demuxer.finish

/-! ## ADTS files -/

structure AdtsFile where
  output : Bytes
  written : Nat
  samples : List ElementarySample

def writeAdtsFrame (file : AdtsFile) (frame : Bytes) : Except MuxError AdtsFile :=
  if 2 ^ 32 ≤ frame.length then .error .tooLarge
  else .ok
    { output := file.output ++ frame
      written := saturatingAdd file.written frame.length
      samples := file.samples ++ [⟨file.written, frame.length, aacFrameSamples, 0, true⟩] }

def readAdtsChunk (state : AudioTrack × AdtsFile) (chunk : Bytes) :
    Except MuxError (AudioTrack × AdtsFile) := do
  let (audio, frames) ← state.1.push chunk []
  let file ← frames.foldlM writeAdtsFrame state.2
  pure (audio, file)

/-- An ADTS file, read in chunks, as an elementary track and file. -/
def demuxAdts (chunks : List Bytes) : Except MuxError (ElementaryTrack × Bytes) := do
  let (audio, file) ← chunks.foldlM readAdtsChunk (.default, ⟨[], 0, []⟩)
  let (audio, frames) := audio.flush []
  let file ← frames.foldlM writeAdtsFrame file
  let track ← ({ audio with samples := file.samples }).intoTrack
  pure (track, file.output)

end Gunda.Stream.Ts

import Gunda.Stream.Mux.Fragments

/-!
# Writing one file

`gunda-stream/src/mux.rs`: the tracks are written as one plain file, whose movie box holds
the tables of every track and whose media data holds the samples of one track after another.
-/
namespace Gunda.Stream.Mux

open Gunda.Lib Gunda.Lib.Bytes
open Gunda.Lib.IsoMedia (kind)

/-- A demuxed track, and the content of the file its samples are read from. -/
structure Track where
  source : Bytes
  demuxed : DemuxedTrack

def DemuxedTrack.sampleBytes (track : DemuxedTrack) : Nat := (track.samples.map (·.size)).sum

def DemuxedTrack.durationIn (track : DemuxedTrack) (timescale : Nat) : Nat :=
  min (track.duration * timescale) (2 ^ 64 - 1) / track.timescale

/-! ## Boxes -/

def overwrite (bytes : Bytes) (position : Nat) (field : Bytes) : Bytes :=
  bytes.take position ++ (field ++ bytes.drop (position + field.length))

/-- A field inside a payload is written over, if the payload reaches that far. -/
def put (body : Bytes) (offset : Nat) (field : Bytes) (short : String) : Except MuxError Bytes :=
  if body.length < offset + field.length then .error (.malformed short)
  else .ok (overwrite body offset field)

/-- The box tree written so far, and where a chunk offset is left to be filled in. -/
structure Writer where
  bytes : Bytes
  patch : List Nat

def Writer.default : Writer := ⟨[], []⟩

def Writer.write (writer : Writer) (bytes : Bytes) : Writer :=
  { writer with bytes := writer.bytes ++ bytes }

/-- Starts a box; its size field is where the bytes so far end. -/
def Writer.openBox (writer : Writer) (name : Kind) : Writer :=
  (writer.write [0, 0, 0, 0]).write name

/-- Finishes the box that began at the position. -/
def Writer.closeBox (writer : Writer) (position : Nat) : Writer :=
  { writer with
    bytes := overwrite writer.bytes position
      (be 4 (min (writer.bytes.length - position) (2 ^ 32 - 1))) }

/-- Writes a box whose payload is already at hand. -/
def Writer.full (writer : Writer) (name : Kind) (body : Bytes) : Writer :=
  ((writer.openBox name).write body).closeBox writer.bytes.length

/-- Writes a box whose payload is built in place. -/
def Writer.container (writer : Writer) (name : Kind) (build : Writer → Except MuxError Writer) :
    Except MuxError Writer := do
  let built ← build (writer.openBox name)
  return built.closeBox writer.bytes.length

/-! ## Tables -/

def number (n : Nat) : Except MuxError Bytes :=
  if 2 ^ 32 ≤ n then .error .tooLarge else .ok (be 4 n)

/-- One more value: it lengthens the last run, or begins another. -/
def addRun {α : Type} [DecidableEq α] (runs : List (Nat × α)) (value : α) :
    Except MuxError (List (Nat × α)) :=
  match runs.getLast? with
  | some (count, last) =>
      if last = value then
        if 2 ^ 32 ≤ count + 1 then .error .tooLarge
        else .ok (runs.dropLast ++ [(count + 1, last)])
      else .ok (runs ++ [(1, value)])
  | none => .ok [(1, value)]

def buildRuns {α : Type} [DecidableEq α] (values : List α) : Except MuxError (List (Nat × α)) :=
  values.foldlM addRun []

/-- The 32 bits of a signed number. -/
def beI32 (n : Int) : Bytes := be 4 (n % 2 ^ 32).toNat

def buildStts (samples : List Sample) : Except MuxError Bytes := do
  let runs ← buildRuns (samples.map (·.duration))
  let count ← number runs.length
  return be 4 0 ++ count ++ runs.flatMap fun run => be 4 run.1 ++ be 4 run.2

def buildCtts (samples : List Sample) : Except MuxError (Option Bytes) :=
  if samples.all fun sample => sample.compositionOffset = 0 then .ok none
  else do
    -- Version one is the signed form, which a negative offset needs.
    let version : Nat := if samples.any fun sample => sample.compositionOffset < 0 then 1 else 0
    let runs ← buildRuns (samples.map (·.compositionOffset))
    let count ← number runs.length
    return some (be 1 version ++ be 3 0 ++ count ++
      runs.flatMap fun run => be 4 run.1 ++ beI32 run.2)

def buildStsc (samples : List Sample) : Except MuxError Bytes := do
  let count ← number samples.length
  return be 4 0 ++ be 4 1 ++ (be 4 1 ++ count ++ be 4 1)

def buildStsz (samples : List Sample) : Except MuxError Bytes := do
  let count ← number samples.length
  return be 4 0 ++ be 4 0 ++ count ++ samples.flatMap fun sample => be 4 sample.size

/-- The numbers of the sync samples, from one. -/
def syncNumbers (samples : List Sample) : List Nat :=
  (samples.zipIdx.filter (·.1.sync)).map (·.2 + 1)

def buildStss (samples : List Sample) : Except MuxError (Option Bytes) :=
  if samples.all (·.sync) then .ok none
  else do
    let numbers ← (syncNumbers samples).mapM number
    let count ← number numbers.length
    return some (be 4 0 ++ count ++ numbers.flatten)

def offsetKind (largeOffsets : Bool) : Kind := if largeOffsets then kind "co64" else kind "stco"

def offsetWidth (largeOffsets : Bool) : Nat := if largeOffsets then 8 else 4

/-- Leaves the one chunk offset to be filled in. -/
def Writer.writeStco (writer : Writer) (largeOffsets : Bool) : Writer :=
  let opened := ((writer.openBox (offsetKind largeOffsets)).write (be 4 0)).write (be 4 1)
  let marked := { opened with patch := opened.patch ++ [opened.bytes.length] }
  (marked.write (List.replicate (offsetWidth largeOffsets) 0)).closeBox writer.bytes.length

/-! ## The movie -/

def buildFtyp : Bytes :=
  let opened := Writer.default.openBox (kind "ftyp")
  let written := (opened.write (kind "isom" ++ be 4 0x00000200)).write
    ([kind "isom", kind "iso2", kind "mp41", kind "mp42"].flatten)
  (written.closeBox 0).bytes

def identityMatrix : Bytes :=
  [0x00010000, 0, 0, 0, 0x00010000, 0, 0, 0, 0x40000000].flatMap (be 4)

def Writer.writeMvhd (writer : Writer) (timescale duration trackCount : Nat) :
    Except MuxError Writer := do
  let duration ← number duration
  let next ← number (trackCount + 1)
  return writer.full (kind "mvhd") (be 1 0 ++ be 3 0 ++ be 4 0 ++ be 4 0 ++ be 4 timescale ++
    duration ++ be 4 0x00010000 ++ be 2 0x0100 ++ be 2 0 ++ be 8 0 ++ identityMatrix ++
    List.replicate 24 0 ++ next)

/-- Where a track header keeps its identifier. -/
def identifierField (version : UInt8) : Nat := if version = 1 then 20 else 12

/-- Where a track header keeps its duration, and in how many bytes. -/
def durationField (version : UInt8) : Nat × Nat := if version = 1 then (28, 8) else (20, 4)

def mediaHeaderField (version : UInt8) : Nat × Nat := if version = 1 then (24, 8) else (16, 4)

def shortHeader : String := "a header is too short for its fields"

def putU32 (body : Bytes) (offset value : Nat) : Except MuxError Bytes :=
  put body offset (be 4 value) shortHeader

def putDuration (body : Bytes) (field : Nat × Nat) (value : Nat) : Except MuxError Bytes :=
  if body.length < field.1 + field.2 then .error (.malformed shortHeader)
  else if field.2 = 8 then put body field.1 (be 8 value) shortHeader
  else if 2 ^ 32 ≤ value then .error .tooLarge
  else put body field.1 (be 4 value) shortHeader

def Writer.fullIfAny (writer : Writer) (name : Kind) (body : Option Bytes) : Writer :=
  match body with
  | some body => writer.full name body
  | none => writer

def Writer.writeTrak (writer : Writer) (track : Track) (index movieTimescale : Nat)
    (largeOffsets : Bool) : Except MuxError Writer := do
  let demuxed := track.demuxed
  if 2 ^ 32 ≤ index + 1 then .error .tooLarge
  else
    let version := demuxed.tkhd.head?.getD 0
    let tkhd ← putU32 demuxed.tkhd (identifierField version) (index + 1)
    let tkhd ← putDuration tkhd (durationField version) (demuxed.durationIn movieTimescale)
    let version := demuxed.mdhd.head?.getD 0
    let mdhd ← putDuration demuxed.mdhd (mediaHeaderField version) demuxed.duration
    let stts ← buildStts demuxed.samples
    let ctts ← buildCtts demuxed.samples
    let stsc ← buildStsc demuxed.samples
    let stsz ← buildStsz demuxed.samples
    let stss ← buildStss demuxed.samples
    writer.container (kind "trak") fun writer =>
      (writer.full (kind "tkhd") tkhd).container (kind "mdia") fun writer =>
        ((writer.full (kind "mdhd") mdhd).full (kind "hdlr") demuxed.hdlr).container (kind "minf")
          fun writer =>
            ((writer.full demuxed.mediaHeader.1 demuxed.mediaHeader.2).full (kind "dinf")
              demuxed.dinf).container (kind "stbl") fun writer =>
                let timed := ((writer.full (kind "stsd") demuxed.stsd).full (kind "stts")
                  stts).fullIfAny (kind "ctts") ctts
                let sized := ((timed.full (kind "stsc") stsc).full (kind "stsz")
                  stsz).fullIfAny (kind "stss") stss
                .ok (sized.writeStco largeOffsets)

def Writer.writeTraks (movieTimescale : Nat) (largeOffsets : Bool) :
    Writer → (index : Nat) → List Track → Except MuxError Writer
  | writer, _, [] => .ok writer
  | writer, index, track :: rest => do
      let written ← writer.writeTrak track index movieTimescale largeOffsets
      writeTraks movieTimescale largeOffsets written (index + 1) rest

/-- The movie box, and where each chunk offset has to be filled in. -/
def buildMoov (tracks : List Track) (movieTimescale movieDuration : Nat) (largeOffsets : Bool) :
    Except MuxError Writer :=
  Writer.default.container (kind "moov") fun writer => do
    let headed ← writer.writeMvhd movieTimescale movieDuration tracks.length
    headed.writeTraks movieTimescale largeOffsets 0 tracks

/-! ## The file -/

def movieTimescale : Nat := 1000

def mdatHeaderSize (payload : Nat) : Nat := if 2 ^ 32 - 1 - 8 < payload then 16 else 8

def mdatHeader (payload : Nat) : Bytes :=
  if mdatHeaderSize payload = 8 then be 4 (payload + 8) ++ kind "mdat"
  else be 4 1 ++ kind "mdat" ++ be 8 (payload + 16)

/-- Where the samples of each track start. -/
def chunkStarts : (start : Nat) → List Track → Except MuxError (List Nat)
  | _, [] => .ok []
  | start, track :: rest =>
      let next := start + track.demuxed.sampleBytes
      if 2 ^ 64 ≤ next then .error .tooLarge
      else (chunkStarts next rest).map (start :: ·)

/-- Fills in one chunk offset. -/
def fillIn (largeOffsets : Bool) (moov : Bytes) (at_ : Nat × Nat) : Except MuxError Bytes :=
  let missing := "a chunk offset was not written"
  if largeOffsets then put moov at_.1 (be 8 at_.2) missing
  else if 2 ^ 32 ≤ at_.2 then .error .tooLarge
  else put moov at_.1 (be 4 at_.2) missing

/-- One track's sample data, in order. -/
def copySamples (source : Bytes) : List Sample → Except MuxError Bytes
  | [] => .ok []
  | sample :: rest =>
      if 0 < sample.size ∧ source.length < sample.offset + sample.size then
        .error (.malformed "a sample runs past the end of its track")
      else (copySamples source rest).map (slice source sample.offset sample.size ++ ·)

structure Output where
  bytes : Bytes
  total : Nat

def payloadBytes (tracks : List Track) : Nat :=
  (tracks.map fun track => track.demuxed.sampleBytes).sum

def movieDuration (tracks : List Track) : Nat :=
  (tracks.map fun track => track.demuxed.durationIn movieTimescale).max?.getD 0

/-- Whether the chunk offsets take 64 bits, for a compact movie box of some length. -/
def usesLarge (tracks : List Track) (forceLargeOffsets : Bool) (compact : Nat) : Bool :=
  forceLargeOffsets || decide (2 ^ 32 - 1 < buildFtyp.length + compact + 8 + payloadBytes tracks)

/-- The movie box is built again when its chunk offsets take 64 bits. -/
def rebuilt (tracks : List Track) (compact : Writer) (largeOffsets : Bool) : Except MuxError Writer :=
  if largeOffsets then buildMoov tracks movieTimescale (movieDuration tracks) true else .ok compact

/-- Writes the tracks as one plain file, and says how large it is. -/
def writeMp4Layout (tracks : List Track) (forceLargeOffsets : Bool) : Except MuxError Output := do
  let compact ← buildMoov tracks movieTimescale (movieDuration tracks) false
  let largeOffsets := usesLarge tracks forceLargeOffsets compact.bytes.length
  let movie ← rebuilt tracks compact largeOffsets
  let header := buildFtyp.length + movie.bytes.length + mdatHeaderSize (payloadBytes tracks)
  if 2 ^ 64 ≤ header + payloadBytes tracks then .error .tooLarge
  else
    let starts ← chunkStarts header tracks
    let moov ← (movie.patch.zip starts).foldlM (fillIn largeOffsets) movie.bytes
    let copied ← tracks.mapM fun track => copySamples track.source track.demuxed.samples
    return { bytes := buildFtyp ++ moov ++ mdatHeader (payloadBytes tracks) ++ copied.flatten
             total := header + payloadBytes tracks }

end Gunda.Stream.Mux

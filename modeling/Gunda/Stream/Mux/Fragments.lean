import Gunda.Stream.Mux.Boxes

/-!
# Fragmented tracks

`gunda-stream/src/mux.rs`: a track is read from its initialization segment and from the
fragments that follow, box by box.
-/
namespace Gunda.Stream.Mux

open Gunda.Lib Gunda.Lib.Bytes
open Gunda.Lib.IsoMedia (kind)

/-- One sample of a track: where its bytes are, and how it plays. -/
structure Sample where
  offset : Nat
  size : Nat
  duration : Nat
  compositionOffset : Int
  sync : Bool
  deriving DecidableEq, Repr

/-- A track read from an initialization segment and the fragments that follow. -/
structure DemuxedTrack where
  tkhd : Bytes
  mdhd : Bytes
  hdlr : Bytes
  mediaHeader : Kind × Bytes
  dinf : Bytes
  stsd : Bytes
  timescale : Nat
  samples : List Sample
  duration : Nat
  deriving DecidableEq, Repr

/-- The samples read from the fragments so far. -/
structure Fragments where
  samples : List Sample
  decoded : Nat
  origin : Option Nat
  deriving DecidableEq

def Fragments.default : Fragments := ⟨[], 0, none⟩

/-! ## A track fragment -/

/-- The parts of a fragment's track header that describe how samples are stored. -/
structure TrackHeader where
  baseDataOffset : Option Nat
  sampleDescriptionIndex : Option Nat
  defaultSampleDuration : Option Nat
  defaultSampleSize : Option Nat
  defaultSampleFlags : Option Nat
  deriving DecidableEq

def TrackHeader.fields : Reader TrackHeader := do
  let (_, flags) ← full
  let _ ← u32
  let baseDataOffset ← field flags 0x000001 u64
  let sampleDescriptionIndex ← field flags 0x000002 u32
  let defaultSampleDuration ← field flags 0x000008 u32
  let defaultSampleSize ← field flags 0x000010 u32
  let defaultSampleFlags ← field flags 0x000020 u32
  return { baseDataOffset, sampleDescriptionIndex, defaultSampleDuration, defaultSampleSize,
           defaultSampleFlags }

def TrackHeader.read (body : Bytes) : Except MuxError TrackHeader := TrackHeader.fields.of body

/-- A field of a sample, or the default of its track fragment. -/
def fieldOr (flags mask : Nat) (default : Option Nat) (missing : String) : Reader Nat := do
  match ← field flags mask u32 with
  | some value => return value
  | none => Reader.lift (required (.unsupported missing) default)

def isSync (flags : Nat) : Bool := flags &&& 0x00010000 = 0

/-- The position and the samples after each sample of a run. -/
def Fragments.pushSamples (version flags : Nat) (firstSampleFlags : Option Nat)
    (header : TrackHeader) : (remaining index offset : Nat) → Fragments → Reader (Fragments × Nat)
  | 0, _, offset, fragments => return (fragments, offset)
  | remaining + 1, index, offset, fragments => do
      let duration ← fieldOr flags 0x000100 header.defaultSampleDuration
        "a sample declares no duration"
      let size ← fieldOr flags 0x000200 header.defaultSampleSize "a sample declares no size"
      let stated ← field flags 0x000400 u32
      let sampleFlags := stated.or
        (if index = 0 then firstSampleFlags.or header.defaultSampleFlags
        else header.defaultSampleFlags)
      -- The unsigned and the signed form hold the same 32 bits.
      let compositionOffset ← field flags 0x000800
        (if version = 0 then (fun n : Nat => asI32 n) <$> u32 else i32)
      let sample : Sample :=
        { offset, size, duration, compositionOffset := compositionOffset.getD 0,
          sync := sampleFlags.all isSync }
      if 2 ^ 64 ≤ fragments.decoded + duration then Reader.lift (.error .tooLarge)
      else if 2 ^ 64 ≤ offset + size then Reader.lift (.error .tooLarge)
      else
        pushSamples version flags firstSampleFlags header remaining (index + 1) (offset + size)
          { fragments with
            samples := fragments.samples ++ [sample]
            decoded := fragments.decoded + duration }

/-- Where a run starts: at its own offset, or where the run before it ended. -/
def runOffset (base : Nat) (dataOffset : Option Int) (cursor : Option Nat) : Except MuxError Nat :=
  match dataOffset with
  | some dataOffset =>
      if (base : Int) + dataOffset < 0 ∨ 2 ^ 64 ≤ (base : Int) + dataOffset then
        .error (.malformed "a run starts outside its file")
      else .ok ((base : Int) + dataOffset).toNat
  | none => required (.malformed "a run has nowhere to start") cursor

def Fragments.pushRun (fragments : Fragments) (run : Bytes) (header : TrackHeader)
    (fragment : Nat) (cursor : Option Nat) : Except MuxError (Fragments × Nat) :=
  let read : Reader (Fragments × Nat) := do
    let (version, flags) ← full
    let count ← u32
    let dataOffset ← field flags 0x000001 i32
    let firstSampleFlags ← field flags 0x000004 u32
    let base := header.baseDataOffset.getD fragment
    let offset ← Reader.lift (runOffset base dataOffset cursor)
    fragments.pushSamples version flags firstSampleFlags header count 0 offset
  read.of run

/-- Brings the timeline to the absolute decode time a fragment declares; a gap is carried
by the sample before it. -/
def Fragments.align (fragments : Fragments) (base : Nat) : Except MuxError Fragments :=
  match fragments.origin with
  | none => .ok { fragments with origin := some base }
  | some origin =>
      let reached := saturatingAdd origin fragments.decoded
      if base = reached then .ok fragments
      else if base < reached then
        .error (.malformed "two fragments cover the same decode time")
      else
        let gap := base - reached
        if 2 ^ 32 ≤ gap then .error .tooLarge
        else match fragments.samples.getLast? with
          | none => .error (.malformed "a fragment precedes every sample")
          | some last =>
              if 2 ^ 32 ≤ last.duration + gap then .error .tooLarge
              else .ok { fragments with
                samples := fragments.samples.dropLast ++
                  [{ last with duration := last.duration + gap }]
                decoded := fragments.decoded + gap }

/-- A fragment without a decode time continues where the one before it ended. -/
def Fragments.alignTo (fragments : Fragments) (base : Option Nat) : Except MuxError Fragments :=
  match base with
  | some base => fragments.align base
  | none => .ok fragments

/-- The runs of a track fragment, each knowing where the one before it ended. -/
def Fragments.pushRuns (header : TrackHeader) (fragment : Nat) :
    Fragments → Option Nat → List (Kind × Bytes) → Except MuxError Fragments
  | fragments, _, [] => .ok fragments
  | fragments, cursor, (name, run) :: rest =>
      if name = kind "trun" then do
        let (fragments, stop) ← fragments.pushRun run header fragment cursor
        pushRuns header fragment fragments (some stop) rest
      else pushRuns header fragment fragments cursor rest

def Fragments.pushTraf (fragments : Fragments) (traf : Bytes) (fragment : Nat) :
    Except MuxError Fragments := do
  let tfhd ← required (.malformed "a fragment has no track header") (findBox [kind "tfhd"] traf)
  let header ← TrackHeader.read tfhd
  if header.sampleDescriptionIndex.any (· ≠ 1) then
    .error (.unsupported "a fragment selects a second sample entry")
  else
    let aligned ← fragments.alignTo ((findBox [kind "tfdt"] traf).bind readDecodeTime)
    aligned.pushRuns header fragment none (boxes traf)

/-- Reads one fragment box, whose first byte is at `start`. -/
def Fragments.push (fragments : Fragments) (moof : Bytes) (start : Nat) :
    Except MuxError Fragments :=
  (boxes moof).foldlM
    (fun fragments box => if box.1 = kind "traf" then fragments.pushTraf box.2 start
      else .ok fragments) fragments

/-! ## A track file -/

def mediaHeaderKinds : List Kind := [kind "vmhd", kind "smhd", kind "nmhd"]

/-- Reads everything a track needs in order to be written again. -/
def readInitialization (moov : Bytes) (fragments : Fragments) : Except MuxError DemuxedTrack := do
  let missing : MuxError := .malformed "the initialization segment describes no track"
  let track ← required missing (findBox [kind "trak"] moov)
  let tkhd ← required missing (findBox [kind "tkhd"] track)
  let mdhd ← required missing (findBox [kind "mdia", kind "mdhd"] track)
  let timescale ← required missing (readTimescale mdhd)
  if timescale = 0 then .error (.malformed "the media header declares no timescale")
  else
    let hdlr ← required missing (findBox [kind "mdia", kind "hdlr"] track)
    let mediaHeader ← required missing (mediaHeaderKinds.findSome? fun name =>
      (findBox [kind "mdia", kind "minf", name] track).map (name, ·))
    let dinf ← required missing (findBox [kind "mdia", kind "minf", kind "dinf"] track)
    let stsd ← required missing (findBox [kind "mdia", kind "minf", kind "stbl", kind "stsd"] track)
    if fragments.samples = [] then .error (.malformed "the track carries no samples")
    else return { tkhd, mdhd, hdlr, mediaHeader, dinf, stsd, timescale,
                  samples := fragments.samples, duration := fragments.decoded }

/-- The boxes of a file from a position on; as many rounds as bytes are enough. -/
def demuxRounds (file : Bytes) : (rounds position : Nat) → Option Bytes → Fragments →
    Except MuxError (Option Bytes × Fragments)
  | 0, _, initialization, fragments => .ok (initialization, fragments)
  | rounds + 1, position, initialization, fragments =>
      if file.length < position + 8 then .ok (initialization, fragments)
      else do
        let header ← readHeader file position
        if header.kind = kind "moov" then
          let body ← readBody file header
          demuxRounds file rounds header.stop (some body) fragments
        else if header.kind = kind "moof" then
          let body ← readBody file header
          let fragments ← fragments.push body header.start
          demuxRounds file rounds header.stop initialization fragments
        else demuxRounds file rounds header.stop initialization fragments

/-- Reads one track: its initialization segment, and every sample of its fragments. -/
def demux (file : Bytes) : Except MuxError DemuxedTrack := do
  let (initialization, fragments) ← demuxRounds file file.length 0 none .default
  let initialization ← required (.malformed "there is no initialization segment") initialization
  readInitialization initialization fragments

end Gunda.Stream.Mux

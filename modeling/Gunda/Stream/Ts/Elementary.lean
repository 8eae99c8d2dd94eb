import Gunda.Lib.Bytes
import Gunda.Lib.Durable
import Gunda.Stream.Manifest
import Mathlib.Data.Int.Basic

/-!
# Elementary tracks

`gunda-stream/src/ts.rs`: the track read out of a transport stream, its sample
durations, and what the parameter sets of its video say.
-/
namespace Gunda.Stream

open Gunda.Lib

inductive MuxError where
  | malformed (what : String)
  | unsupported (what : String)
  | tooLarge
  | io (kind : IoErrorKind)
  deriving DecidableEq, Repr

namespace Ts

def videoTimescale : Nat := 90000

def defaultFrameDuration : Nat := videoTimescale / 30

def maxFrameDuration : Nat := videoTimescale

def aacFrameSamples : Nat := 1024

structure ElementarySample where
  offset : Nat
  size : Nat
  duration : Nat
  compositionOffset : Int
  sync : Bool
  deriving DecidableEq, Repr

inductive Codec where
  | avc (configuration : Bytes) (width height : Nat)
  | aac (configuration channelCount sampleRate : Nat)
  deriving DecidableEq, Repr

structure ElementaryTrack where
  codec : Codec
  timescale : Nat
  samples : List ElementarySample
  duration : Nat
  deriving DecidableEq, Repr

/-! ## Durations -/

/-- The duration up to the next decode time, where that is a plausible one. -/
def frameDuration (previous : Nat) (decodeTime : Nat) (next : Option Nat) : Nat :=
  match next with
  | some next =>
      let delta := next - decodeTime
      if 0 < delta ∧ delta ≤ maxFrameDuration then delta else previous
  | none => previous

def fillDurationsFrom (previous : Nat) :
    List ElementarySample → List Nat → List ElementarySample
  | sample :: samples, decodeTime :: decodeTimes =>
      let duration := frameDuration previous decodeTime decodeTimes.head?
      { sample with duration := duration } :: fillDurationsFrom duration samples decodeTimes
  | samples, _ => samples

def fillDurations (samples : List ElementarySample) (decodeTimes : List Nat) :
    List ElementarySample :=
  fillDurationsFrom defaultFrameDuration samples decodeTimes

def totalDuration (samples : List ElementarySample) : Nat :=
  samples.foldl (fun total sample => saturatingAdd total sample.duration) 0

/-! ## Parameter sets -/

def avcConfiguration (sps pps : Bytes) : Except MuxError Bytes :=
  if sps.length < 4 then
    .error (.malformed "the sequence parameter set is too short to describe a profile")
  else if 2 ^ 16 ≤ sps.length then
    .error (.malformed "the sequence parameter set is too long")
  else if 2 ^ 16 ≤ pps.length then
    .error (.malformed "the picture parameter set is too long")
  else
    .ok ([1] ++ Bytes.slice sps 1 3 ++ [0xFF, 0xE1] ++ Bytes.be 2 sps.length ++ sps ++
      [1] ++ Bytes.be 2 pps.length ++ pps)

structure Bits where
  bytes : Bytes
  position : Nat

abbrev BitReader := StateT Bits (Except MuxError)

namespace BitReader

def bit : BitReader Nat := fun bits =>
  match bits.bytes[bits.position / 8]? with
  | none => .error (.malformed "a parameter set ends too early")
  | some byte => .ok (byte.toNat >>> (7 - bits.position % 8) &&& 1,
      { bits with position := bits.position + 1 })

def readOnto : Nat → Nat → BitReader Nat
  | 0, value => pure value
  | count + 1, value => do
      let bit ← bit
      readOnto count (value <<< 1 ||| bit)

def read (count : Nat) : BitReader Nat := readOnto count 0

/-- Counts zero bits up to the first one; more than 32 are refused, so as many
rounds are enough. -/
def leadingZeros : Nat → Nat → BitReader Nat
  | 0, zeros => pure zeros
  | rounds + 1, zeros => do
      let bit ← read 1
      if bit ≠ 0 then pure zeros
      else if 32 < zeros + 1 then
        throw (.malformed "a parameter set holds an impossible Exp-Golomb code")
      else leadingZeros rounds (zeros + 1)

/-- An unsigned Exp-Golomb code. -/
def unsigned : BitReader Nat := do
  let zeros ← leadingZeros 33 0
  if zeros = 0 then pure 0
  else do
    let rest ← read zeros
    pure (1 <<< zeros - 1 + rest)

/-- A signed Exp-Golomb code. -/
def signed : BitReader Int := do
  let value ← unsigned
  pure (if value % 2 = 0 then -(value / 2 : Nat) else ((value + 1) / 2 : Nat))

def skipSigned : Nat → BitReader Unit
  | 0 => pure ()
  | count + 1 => do
      let _ ← signed
      skipSigned count

/-- A scaling list, which is delta-coded. -/
def skipScalingListFrom : Nat → Int → Int → BitReader Unit
  | 0, _, _ => pure ()
  | size + 1, last, next => do
      let next ← if next ≠ 0 then (fun delta => (last + delta + 256).tmod 256) <$> signed
        else pure next
      skipScalingListFrom size (if next ≠ 0 then next else last) next

def skipScalingList (size : Nat) : BitReader Unit := skipScalingListFrom size 8 8

def skipScalingLists : List Nat → BitReader Unit
  | [] => pure ()
  | size :: sizes => do
      let present ← read 1
      if present = 1 then skipScalingList size else pure ()
      skipScalingLists sizes

/-- The fields of the high profiles; the chroma format. -/
def highProfileFields : BitReader Nat := do
  let chroma ← unsigned
  if chroma = 3 then discard (read 1) else pure ()
  let _ ← unsigned
  let _ ← unsigned
  let _ ← read 1
  let matrix ← read 1
  if matrix = 1 then
    skipScalingLists (List.replicate 6 16 ++ List.replicate (if chroma ≠ 3 then 2 else 6) 64)
  else pure ()
  pure chroma

def pictureOrderCountFields : BitReader Unit := do
  let kind ← unsigned
  if kind = 0 then discard unsigned
  else if kind = 1 then do
    let _ ← read 1
    let _ ← signed
    let _ ← signed
    let cycle ← unsigned
    skipSigned cycle
  else pure ()

/-- The luma samples cropped off in each direction. -/
def croppedSamples (chroma frameMbsOnly : Nat) : BitReader (Nat × Nat) := do
  let cropping ← read 1
  if cropping = 1 then do
    let left ← unsigned
    let right ← unsigned
    let top ← unsigned
    let bottom ← unsigned
    let unitX := if chroma = 1 ∨ chroma = 2 then 2 else 1
    let unitY := if chroma = 1 then 2 else 1
    pure (saturatingMul (saturatingAdd left right) unitX,
      saturatingMul (saturatingMul (saturatingAdd top bottom) unitY)
        (if frameMbsOnly = 1 then 1 else 2))
  else pure (0, 0)

def isHighProfile (profile : Nat) : Bool :=
  [100, 110, 122, 244, 44, 83, 86, 118, 128, 138, 139, 134, 135].contains profile

/-- The cropped size in luma samples, not yet bounded. -/
def pictureSize : BitReader (Nat × Nat) := do
  let _ ← read 8
  let profile ← read 8
  let _ ← read 8
  let _ ← read 8
  let _ ← unsigned
  let chroma ← if isHighProfile profile then highProfileFields else pure 1
  let _ ← unsigned
  pictureOrderCountFields
  let _ ← unsigned
  let _ ← read 1
  let widthUnits ← unsigned
  let heightUnits ← unsigned
  let frameMbsOnly ← read 1
  if frameMbsOnly = 0 then discard (read 1) else pure ()
  let _ ← read 1
  let cropped ← croppedSamples chroma frameMbsOnly
  pure (saturatingMul (saturatingAdd widthUnits 1) 16 - cropped.1,
    saturatingMul (saturatingAdd heightUnits 1) (if frameMbsOnly = 1 then 16 else 32) - cropped.2)

end BitReader

/-- Drops the `03` after every two zero bytes. -/
def removeEmulationFrom : Nat → Bytes → Bytes
  | _, [] => []
  | zeros, byte :: bytes =>
      if 2 ≤ zeros ∧ byte = 3 then removeEmulationFrom 0 bytes
      else byte :: removeEmulationFrom (if byte = 0 then zeros + 1 else 0) bytes

def removeEmulationPrevention (bytes : Bytes) : Bytes := removeEmulationFrom 0 bytes

/-- The picture size a sequence parameter set declares. -/
def dimensions (sps : Bytes) : Except MuxError (Nat × Nat) := do
  let (size, _) ← BitReader.pictureSize.run ⟨removeEmulationPrevention sps, 0⟩
  if 2 ^ 16 ≤ size.1 then
    throw (.malformed "the sequence parameter set declares no usable width")
  if 2 ^ 16 ≤ size.2 then
    throw (.malformed "the sequence parameter set declares no usable height")
  if size.1 = 0 ∨ size.2 = 0 then
    throw (.malformed "the sequence parameter set declares an empty picture")
  pure size

end Ts

end Gunda.Stream

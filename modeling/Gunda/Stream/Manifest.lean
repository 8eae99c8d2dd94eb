import Gunda.Core.Download
import Gunda.Lib.Result
import Gunda.Lib.Text

/-!
# Manifests

What the manifest readers of `gunda-stream` share: their errors, the bound on
segments, and the two things the model takes from outside: URLs (the `url`
crate) and the readings that go through floating point.
-/
namespace Gunda.Stream

open Gunda.Lib
open Gunda.Core (Url)

inductive UnsupportedFeature where
  | encryptedSegments | dataUriSegments | segmentIndex | separateTracks | multiPeriod
  | incompletePresentation
  deriving DecidableEq, Repr

inductive ManifestError where
  | notAManifest | malformed | ambiguousPlaylist | invalidByteRange | invalidNumber
  | selectionUnavailable | tooManySegments
  | unsupported (feature : UnsupportedFeature)
  deriving DecidableEq, Repr

def maxSegments : Nat := 200000

def maxU64 : Nat := 2 ^ 64 - 1

def saturatingAdd (a b : Nat) : Nat := min (a + b) maxU64

def saturatingMul (a b : Nat) : Nat := min (a * b) maxU64

/-- `url::Url` as far as planning uses it. -/
structure UrlLibrary where
  join : Url → Text → Option Url
  scheme : Url → Text
  path : Url → Text

/-- Readings and renderings of decimal fractions. -/
structure Decimals where
  /-- Seconds as a decimal fraction, rounded to milliseconds. -/
  durationMillis : Text → Except ManifestError Nat
  /-- An ISO 8601 duration, rounded to milliseconds. -/
  iso8601DurationMillis : Text → Except ManifestError Nat
  /-- A bandwidth of a megabit and more, with one decimal place. -/
  megabits : Nat → Text

/-- `Option::ok_or`. -/
def required {α : Type} (error : ManifestError) : Option α → Except ManifestError α
  | some value => .ok value
  | none => .error error

theorem required_ok {α : Type} {error : ManifestError} {found : Option α} {value : α}
    (h : required error found = .ok value) : found = some value := by
  cases found with
  | none => cases h
  | some other =>
    cases h
    rfl

/-- The container a plan's bytes are in, where the format implies one. -/
inductive Container where
  | mp4 | m4a | ts | matroska | webm | aac | mp3
  deriving DecidableEq, Repr

def Container.canBeMuxed : Container → Bool
  | .mp4 | .m4a | .ts | .aac => true
  | _ => false

end Gunda.Stream

import Gunda.Lib.Fields
import Gunda.Stream.Hls

/-!
# Track selectors

`gunda-stream/src/selection.rs`: writing the selector of a track that is offered,
and reading the one a job was created with.
-/
namespace Gunda.Stream.Selection

open Gunda.Lib Gunda.Lib.Text
open Gunda.Core (ExecutionSelection)

structure HlsSelection where
  variant : Nat
  bandwidth : Option Nat
  resolution : Option (Nat × Nat)
  declaredTotal : Option Nat
  audioRendition : Option Nat
  audioLanguage : Option Text
  deriving DecidableEq, Repr

structure DashSelection where
  videoSet : Option Nat
  videoRepresentation : Option Nat
  videoBandwidth : Option Nat
  audioSet : Option Nat
  audioRepresentation : Option Nat
  audioBandwidth : Option Nat
  deriving DecidableEq, Repr

/-- A number; sizes and indices are 64 bits wide alike. -/
def number (part : Option Text) : Except ManifestError Nat := do
  required .selectionUnavailable (parseU64 (← required .selectionUnavailable part))

def optionalNumberValue (part : Option Text) : Except ManifestError (Option Nat) :=
  match part with
  | none => .ok none
  | some value =>
      if value = "-".toList then .ok none
      else (required .selectionUnavailable (parseU64 value)).map some

def resolutionOf (width height : Option Nat) : Except ManifestError (Option (Nat × Nat)) :=
  match width, height with
  | some width, some height =>
      if width < 2 ^ 32 ∧ height < 2 ^ 32 then .ok (some (width, height))
      else .error .selectionUnavailable
  | none, none => .ok none
  | _, _ => .error .selectionUnavailable

def parseHls (selection : ExecutionSelection) : Except ManifestError HlsSelection := do
  let parts := splitAll ':' selection.value
  if parts[0]? ≠ some "hls".toList then
    throw .selectionUnavailable
  let version ← required .selectionUnavailable parts[1]?
  if version ≠ "1".toList ∧ version ≠ "2".toList then
    throw .selectionUnavailable
  let variant ← number parts[2]?
  let bandwidth ← optionalNumberValue parts[3]?
  let width ← optionalNumberValue parts[4]?
  let height ← optionalNumberValue parts[5]?
  let withAudio : Bool := version = "2".toList
  let audioRendition ← if withAudio then optionalNumberValue parts[6]? else pure none
  let audioLanguage := if withAudio then parts[7]?.filter (· ≠ "-".toList) else none
  let last := if withAudio then 8 else 6
  let declaredTotal ← optionalNumberValue parts[last]?
  if parts[last + 1]?.isSome then
    throw .selectionUnavailable
  let resolution ← resolutionOf width height
  pure ⟨variant, bandwidth, resolution, declaredTotal, audioRendition, audioLanguage⟩

def parseDash (selection : ExecutionSelection) : Except ManifestError DashSelection := do
  let parts := splitAll ':' selection.value
  if parts[0]? ≠ some "dash".toList ∨ parts[1]? ≠ some "1".toList then
    throw .selectionUnavailable
  let videoSet ← optionalNumberValue parts[2]?
  let videoRepresentation ← optionalNumberValue parts[3]?
  let videoBandwidth ← optionalNumberValue parts[4]?
  let audioSet ← optionalNumberValue parts[5]?
  let audioRepresentation ← optionalNumberValue parts[6]?
  let audioBandwidth ← optionalNumberValue parts[7]?
  if parts[8]?.isSome then
    throw .selectionUnavailable
  pure ⟨videoSet, videoRepresentation, videoBandwidth, audioSet, audioRepresentation,
    audioBandwidth⟩

/-! ## Writing -/

def optionalNumber (value : Option Nat) : Text := value.elim ['-'] ofNat

def resolutionFields (resolution : Option (Nat × Nat)) : List Text :=
  match resolution with
  | some (width, height) => [ofNat width, ofNat height]
  | none => [['-'], ['-']]

def isLanguageCharacter (c : Char) : Bool := c.isAlphanum || c = '-' || c = '_'

/-- The language of a rendition; other characters become hyphens. -/
def languageField (language : Option Text) : Text :=
  (language.getD ['-']).map fun c => if isLanguageCharacter c then c else '-'

def newSelection (fields : List Text) : Except ManifestError ExecutionSelection :=
  required .malformed (ExecutionSelection.new (joinWith ':' fields))

def hlsSelection (variantIndex : Nat) (variant : Hls.Variant) :
    Except ManifestError ExecutionSelection :=
  newSelection (["hls".toList, "1".toList, ofNat variantIndex, optionalNumber variant.bandwidth] ++
    resolutionFields variant.resolution)

def hlsSelectionWithAudio (variantIndex : Nat) (variant : Hls.Variant) (audioIndex : Nat)
    (language : Option Text) : Except ManifestError ExecutionSelection :=
  newSelection (["hls".toList, "2".toList, ofNat variantIndex, optionalNumber variant.bandwidth] ++
    resolutionFields variant.resolution ++ [ofNat audioIndex, languageField language])

/-- The set, representation and bandwidth of a track, or none of them. -/
def choiceFields (choice : Option (Nat × Nat × Option Nat)) : List Text :=
  match choice with
  | some (set, representation, bandwidth) =>
      [ofNat set, ofNat representation, optionalNumber bandwidth]
  | none => [['-'], ['-'], ['-']]

def dashSelection (video audio : Option (Nat × Nat × Option Nat)) :
    Except ManifestError ExecutionSelection :=
  newSelection (["dash".toList, "1".toList] ++ choiceFields video ++ choiceFields audio)

end Gunda.Stream.Selection

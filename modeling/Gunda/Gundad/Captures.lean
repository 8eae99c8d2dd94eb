import Gunda.Capture.Protocol
import Gunda.Gundad.Engines
import Gunda.Stream.Presentation

/-!
# Captures and their formats

The catalog of `gunda-capture/src/candidate.rs`, and what `gundad/src/lib.rs` lists for a
capture and reads back from a choice. The numbers of a size shown to the user and the
names of output files are parameters.
-/
namespace Gunda.Gundad

open Gunda.Lib Gunda.Lib.Text
open Gunda.Core (Url ResourceKind DownloadOrigin)
open Gunda.Stream (PresentationTrack TrackSize saturatingAdd)
open Gunda.Capture (MediaFormat Refusal)

abbrev CandidateId := Nat

/-- One directly downloadable quality of a presentation. -/
structure MediaVariant (urls : UrlCrate) where
  url : ParsedUrl urls
  width : Option Nat
  height : Option Nat
  size : Option Nat
  named : Option Text
  fits : ∀ bytes ∈ size, bytes ≤ Stream.maxU64
  deriving DecidableEq

namespace MediaVariant

variable {urls : UrlCrate}

theorem unsized : ∀ bytes ∈ (none : Option Nat), bytes ≤ Stream.maxU64 := by simp

def resolution (variant : MediaVariant urls) : Option (Nat × Nat) :=
  match variant.width, variant.height with
  | some width, some height => some (width, height)
  | _, _ => none

def label (variant : MediaVariant urls) : Text :=
  match variant.named, variant.resolution with
  | some label, _ => label
  | none, some (width, height) => ofNat width ++ 'x' :: ofNat height
  | none, none => "Media".toList

end MediaVariant

/-- A validated report from the browser. -/
structure Report (urls : UrlCrate) where
  url : ParsedUrl urls
  kind : ResourceKind
  contentType : Option String
  sizeBytes : Option Nat
  pageUrl : Url
  pageTitle : Option String
  filename : Option String
  variants : List (MediaVariant urls)
  deriving DecidableEq

structure Candidate (urls : UrlCrate) where
  id : CandidateId
  url : ParsedUrl urls
  kind : ResourceKind
  contentType : Option String
  sizeBytes : Option Nat
  pageUrl : Url
  pageTitle : Option String
  filename : Option String
  variants : List (MediaVariant urls)
  deriving DecidableEq

section

variable {urls : UrlCrate}

def Candidate.origin (candidate : Candidate urls) : DownloadOrigin :=
  .browser candidate.pageUrl candidate.pageTitle

/-- What a later report of the same URL changes. -/
def Candidate.reported (existing : Candidate urls) (report : Report urls) : Candidate urls :=
  { existing with
    contentType := report.contentType.or existing.contentType
    filename := report.filename.or existing.filename
    sizeBytes := report.sizeBytes.or existing.sizeBytes
    variants := if report.variants.isEmpty then existing.variants else report.variants }

def Report.candidate (report : Report urls) (id : CandidateId) : Candidate urls where
  id := id
  url := report.url
  kind := report.kind
  contentType := report.contentType
  sizeBytes := report.sizeBytes
  pageUrl := report.pageUrl
  pageTitle := report.pageTitle
  filename := report.filename
  variants := report.variants

/-- The candidates seen so far, newest first. -/
structure Catalog (urls : UrlCrate) where
  candidates : List (Candidate urls)
  nextId : CandidateId
  capacity : Nat

namespace Catalog

def new (urls : UrlCrate) (capacity : Nat) : Catalog urls := ⟨[], 0, max capacity 1⟩

/-- The first candidate of the report's URL, updated. -/
def updateFirst (report : Report urls) :
    List (Candidate urls) → Option (CandidateId × List (Candidate urls))
  | [] => none
  | candidate :: rest =>
      if candidate.url = report.url then
        some (candidate.id, candidate.reported report :: rest)
      else (updateFirst report rest).map fun updated => (updated.1, candidate :: updated.2)

structure Recorded where
  id : CandidateId
  duplicate : Bool
  deriving DecidableEq, Repr

def record (catalog : Catalog urls) (report : Report urls) : Catalog urls × Recorded :=
  match updateFirst report catalog.candidates with
  | some (id, candidates) => ({ catalog with candidates := candidates }, ⟨id, true⟩)
  | none =>
      ({ catalog with
          candidates := (report.candidate catalog.nextId :: catalog.candidates).take
            catalog.capacity
          nextId := saturatingAdd catalog.nextId 1 },
        ⟨catalog.nextId, false⟩)

def get (catalog : Catalog urls) (id : CandidateId) : Option (Candidate urls) :=
  catalog.candidates.find? (·.id = id)

def remove (catalog : Catalog urls) (id : CandidateId) : Catalog urls :=
  { catalog with candidates := catalog.candidates.filter (·.id ≠ id) }

def clear (catalog : Catalog urls) : Catalog urls := { catalog with candidates := [] }

end Catalog

/-! ## Engines -/

/-- `capture_engine`: a stream is only taken where its URL names its format. -/
def captureEngine (candidate : Candidate urls) : Except String JobEngine :=
  match candidate.kind with
  | .file => .ok .http
  | .hls | .dash =>
      if pathNamesStream urls candidate.url.1 then .ok .stream
      else .error "This capture is a segmented stream whose URL does not name its format."
  | .unknown => .error "This capture is not something Gunda can download."

/-! ## Listing -/

/-- Texts and names that no choice depends on. -/
structure Wording (urls : UrlCrate) where
  formatSize : Nat → Text
  captureTypeName : Candidate urls → Text
  defaultDownloadDirectory : Option String
  /-- `preferred_capture_filename` of what `formats_for_candidate` suggests. -/
  suggestedFilename : Candidate urls → Option String
  /-- The filename `download_capture` falls back to. -/
  captureFilename : Candidate urls → Option String

structure CaptureTrackView where
  label : Text
  group : Option Text
  details : Text
  sizeBytes : Option Nat
  url : Text
  filename : Option String
  selection : Option Text
  deriving DecidableEq, Repr

structure CaptureTrackChoice where
  url : Text
  filename : Option String
  selection : Option Text
  deriving DecidableEq, Repr

/-- The inspected tracks for one captured presentation. -/
structure CaptureTracks where
  id : CandidateId
  tracks : List CaptureTrackView
  problem : Option String
  deriving DecidableEq, Repr

def separator : Text := " · ".toList

def captureVariantView (wording : Wording urls) (variant : MediaVariant urls) :
    CaptureTrackView where
  label := variant.label
  group := none
  details := "Video".toList ++ (variant.size.elim [] fun bytes =>
    separator ++ wording.formatSize bytes)
  sizeBytes := variant.size
  url := variant.url.1.serialization
  filename := none
  selection := none

def trackKindName : Stream.Dash.TrackKind → Text
  | .video => "Video".toList
  | .audio => "Audio".toList
  | .text => "Subtitles".toList
  | .unknown => "Media".toList

def sizeBytes : TrackSize → Option Nat
  | .exact total | .estimated total => some total
  | .unknown => none

def sizeHint (wording : Wording urls) : TrackSize → Text
  | .exact total => wording.formatSize total
  | .estimated total => '~' :: wording.formatSize total
  | .unknown => "Size unknown".toList

/-- `capture_track_view`; the filename of a track is the caller's. -/
def captureTrackView (wording : Wording urls) (filename : PresentationTrack → Option String)
    (track : PresentationTrack) : CaptureTrackView where
  label := track.label
  group := track.group
  details := trackKindName track.kind ++ separator ++ sizeHint wording track.size
  sizeBytes := sizeBytes track.size
  url := track.url.serialization
  filename := filename track
  selection := track.selection.map (·.value)

def largest (sizes : List Nat) : Option Nat := sizes.max?

def declaredTrackSize (candidate : Candidate urls) (track : PresentationTrack) : Option Nat :=
  let audio := largest ((candidate.variants.filter (·.resolution.isNone)).filterMap (·.size))
  match track.kind with
  | .video =>
      (largest ((candidate.variants.filter (·.resolution = track.resolution)).filterMap
        (·.size))).map fun video => saturatingAdd video (audio.getD 0)
  | .audio => audio
  | .text | .unknown => sizeBytes track.size

/-- Only an HLS selector carries a declared total. -/
def selectionWithSize (selection : Text) (size : Option Nat) : Text :=
  if "hls:".toList.isPrefixOf selection then
    match size with
    | some size => selection ++ ':' :: ofNat size
    | none => selection
  else selection

def variantFormat (wording : Wording urls) (variant : MediaVariant urls) (index : Nat) :
    MediaFormat :=
  let view := captureVariantView wording variant
  { label := view.label
    group := view.group
    details := view.details
    format := "variant:".toList ++ ofNat index }

def trackFormat (wording : Wording urls) (candidate : Candidate urls) (track : PresentationTrack)
    (index : Nat) : MediaFormat :=
  let size := declaredTrackSize candidate track
  { label := track.label
    group := track.group
    details := trackKindName track.kind ++ ((size.or (sizeBytes track.size)).elim [] fun bytes =>
      separator ++ wording.formatSize bytes)
    format := match track.selection with
      | none => "track:".toList ++ ofNat index
      | some selection => "selection:".toList ++ selectionWithSize selection.value size }

def bestFormat (wording : Wording urls) (candidate : Candidate urls) : MediaFormat where
  label := ((candidate.filename.or candidate.pageTitle).getD "Original file").toList
  group := none
  details := wording.captureTypeName candidate ++
    ((candidate.sizeBytes.or (largest (candidate.variants.filterMap (·.size)))).elim [] fun bytes =>
      separator ++ wording.formatSize bytes)
  format := "best".toList

/-- The formats listed for a capture, with what its manifest holds where that is asked. -/
def listedFormats (wording : Wording urls) (candidate : Candidate urls)
    (inspected : Option (List PresentationTrack)) : Option (List MediaFormat) :=
  if candidate.kind = .file ∧ candidate.variants ≠ [] then
    some (candidate.variants.zipIdx.map fun indexed => variantFormat wording indexed.1 indexed.2)
  else if candidate.kind = .hls ∨ candidate.kind = .dash then
    inspected.map fun tracks =>
      tracks.zipIdx.map fun indexed => trackFormat wording candidate indexed.1 indexed.2
  else some [bestFormat wording candidate]

structure FormatsResponse where
  captureId : CandidateId
  formats : List MediaFormat
  directory : Option String
  filename : Option String

def formatsForCandidate (wording : Wording urls) (lastDownloadDirectory : Option String)
    (candidate : Candidate urls) (inspected : Option (List PresentationTrack)) :
    Except Refusal FormatsResponse :=
  match listedFormats wording candidate inspected with
  | none | some [] => .error .captureUnavailable
  | some formats =>
      .ok
        { captureId := candidate.id
          formats := formats
          directory := lastDownloadDirectory.or wording.defaultDownloadDirectory
          filename := wording.suggestedFilename candidate }

/-! ## Choosing -/

def invalidFormat : String := "That capture format is invalid."

def captureChoice (candidate : Candidate urls) (format : Option Text) (filename : Option String) :
    Except String (Option CaptureTrackChoice) :=
  let whole : Option CaptureTrackChoice := filename.map fun filename =>
    ⟨candidate.url.1.serialization, some filename, none⟩
  match format.filter fun format => format ≠ [] && format ≠ "best".toList with
  | none => .ok whole
  | some format =>
      match stripPrefix "variant:".toList format with
      | some index =>
          match parseU64 index with
          | none => .error invalidFormat
          | some index =>
              match candidate.variants[index]? with
              | none => .error "That capture format is no longer available."
              | some variant => .ok (some ⟨variant.url.1.serialization, filename, none⟩)
      | none =>
          match stripPrefix "selection:".toList format with
          | some selection =>
              .ok (some ⟨candidate.url.1.serialization, filename, some selection⟩)
          | none =>
              if "track:".toList.isPrefixOf format then .ok whole
              else .error invalidFormat

theorem captureChoice_indexed (candidate : Candidate urls) (index : Text)
    (filename : Option String) :
    captureChoice candidate (some ("variant:".toList ++ index)) filename =
      match parseU64 index with
      | none => .error invalidFormat
      | some index =>
          match candidate.variants[index]? with
          | none => .error "That capture format is no longer available."
          | some variant => .ok (some ⟨variant.url.1.serialization, filename, none⟩) := rfl

end

end Gunda.Gundad

import Gunda.Stream.Plan
import Mathlib.Data.List.Sort

/-!
# What a manifest offers

`gunda-stream/src/presentation.rs`: the tracks a user may choose from, each with
the selector a job is created with. A track whose plan is refused is offered all
the same; its refusal is reported when it is downloaded.
-/
namespace Gunda.Stream

open Gunda.Lib Gunda.Lib.Text
open Gunda.Core (Url ExecutionSelection)
open Gunda.Stream.Hls (Playlist MasterPlaylist Variant Rendition)
open Gunda.Stream.Dash (Mpd Period AdaptationSet Representation TrackKind)

inductive TrackSize where
  | exact (total : Nat)
  | estimated (total : Nat)
  | unknown
  deriving DecidableEq, Repr

structure PresentationTrack where
  label : Text
  group : Option Text
  kind : TrackKind
  url : Url
  resolution : Option (Nat × Nat)
  bandwidth : Option Nat
  codecs : Option Text
  durationMillis : Option Nat
  size : TrackSize
  container : Option Container
  selection : Option ExecutionSelection
  deriving DecidableEq, Repr

def maxDescribedVariants : Nat := 24

def kindLabel : TrackKind → Text
  | .video => "Video".toList
  | .audio => "Audio".toList
  | .text => "Text".toList
  | .unknown => "Media".toList

def kindOf : Option Container → TrackKind
  | some .m4a | some .aac | some .mp3 => .audio
  | some .mp4 | some .ts | some .matroska | some .webm => .video
  | none => .unknown

def sizeOf (known bandwidth durationMillis : Option Nat) : TrackSize :=
  match known, bandwidth, durationMillis with
  | some total, _, _ => .exact total
  | none, some bandwidth, some duration => .estimated (saturatingMul bandwidth duration / 8000)
  | none, _, _ => .unknown

/-- Video qualities first, best first. -/
def ranksBefore (a b : PresentationTrack) : Prop :=
  toLex ((if a.kind ≠ .video then 1 else 0 : Nat), OrderDual.toDual (a.bandwidth.getD 0)) ≤
    toLex ((if b.kind ≠ .video then 1 else 0 : Nat), OrderDual.toDual (b.bandwidth.getD 0))

instance (a b : PresentationTrack) : Decidable (ranksBefore a b) :=
  inferInstanceAs (Decidable (_ ≤ _))

def sortTracks (tracks : List PresentationTrack) : List PresentationTrack :=
  tracks.insertionSort ranksBefore

/-! ## HLS -/

def withLanguage (language : Text) : Text := "Audio (".toList ++ language ++ [')']

def renditionLabel (rendition : Rendition) : Text :=
  match rendition.name, rendition.language with
  | some name, some language => name ++ " (".toList ++ language ++ [')']
  | some name, none => name
  | none, some language => withLanguage language
  | none, none => "Audio".toList

/-- The renditions of a variant's audio group that have a playlist of their own. -/
def audioRenditions (master : MasterPlaylist) (variant : Variant) : List (Nat × Rendition) :=
  match variant.audioGroup with
  | none => []
  | some group =>
      (master.renditions.zipIdx.filter fun indexed =>
        eqIgnoreAsciiCase indexed.1.kind "AUDIO".toList && indexed.1.groupId = some group &&
          indexed.1.uri.isSome).map fun indexed => (indexed.2, indexed.1)

section

variable (decimals : Decimals) (manifest : Url)

def describedVariant (index : Nat) (variant : Variant) (audio : Option (Nat × Rendition)) :
    Option PresentationTrack := do
  let selection ← (match audio with
    | none => Selection.hlsSelection index variant
    | some (audioIndex, rendition) =>
        Selection.hlsSelectionWithAudio index variant audioIndex rendition.language).toOption
  pure
    { label := (labelForVariant decimals variant).getD ("Variant ".toList ++ ofNat (index + 1))
      group := audio.map fun audio => renditionLabel audio.2
      kind := .video
      url := manifest
      resolution := variant.resolution
      bandwidth := variant.bandwidth
      codecs := variant.codecs
      durationMillis := none
      size := .unknown
      container := none
      selection := some selection }

/-- The tracks of one variant, one for every rendition, up to the limit. -/
def describeRenditions (index : Nat) (variant : Variant) :
    List (Nat × Rendition) → List PresentationTrack → List PresentationTrack
  | [], tracks => tracks
  | audio :: audios, tracks =>
      if maxDescribedVariants ≤ tracks.length then tracks
      else describeRenditions index variant audios
        (tracks ++ (describedVariant decimals manifest index variant (some audio)).toList)

def describeVariants (master : MasterPlaylist) :
    List (Variant × Nat) → List PresentationTrack → List PresentationTrack
  | [], tracks => tracks
  | (variant, index) :: variants, tracks =>
      let audio := audioRenditions master variant
      let tracks :=
        if audio.isEmpty then
          tracks ++ (describedVariant decimals manifest index variant none).toList
        else describeRenditions decimals manifest index variant audio tracks
      if maxDescribedVariants ≤ tracks.length then tracks
      else describeVariants master variants tracks

end

/-- A rendition on its own has no selector. -/
def describedRendition (urls : UrlLibrary) (base : Url) (rendition : Rendition) :
    Option PresentationTrack := do
  guard (eqIgnoreAsciiCase rendition.kind "AUDIO".toList)
  let uri ← rendition.uri
  let url ← urls.join base uri
  pure
    { label := renditionLabel rendition
      group := none
      kind := .audio
      url := url
      resolution := none
      bandwidth := none
      codecs := none
      durationMillis := none
      size := .unknown
      container := none
      selection := none }

def describedPlaylist (urls : UrlLibrary) (decimals : Decimals) (base : Url)
    (playlist : Playlist) : PresentationTrack :=
  match planHls urls decimals base playlist with
  | .ok (.ready plan) =>
      { label := plan.label.getD (kindLabel (kindOf plan.containerHint))
        group := none
        kind := kindOf plan.containerHint
        url := base
        resolution := none
        bandwidth := none
        codecs := none
        durationMillis := plan.durationMillis
        size := sizeOf plan.knownTotalBytes none plan.durationMillis
        container := plan.containerHint
        selection := none }
  | _ =>
      { label := kindLabel .unknown
        group := none
        kind := .unknown
        url := base
        resolution := none
        bandwidth := none
        codecs := none
        durationMillis := none
        size := .unknown
        container := none
        selection := none }

def inspectHls (urls : UrlLibrary) (decimals : Decimals) (base : Url) :
    Playlist → List PresentationTrack
  | .media media => [describedPlaylist urls decimals base (.media media)]
  | .master master =>
      sortTracks (describeVariants decimals base master master.variants.zipIdx [] ++
        master.renditions.filterMap (describedRendition urls base))

/-! ## DASH -/

def combinedBandwidth (video : Option Nat) (audio : Option (Nat × Nat × Option Nat)) :
    Option Nat :=
  sumOption video (audio.bind (·.2.2))

def dashVideoLabel (representation : Representation) : Text :=
  match representation.resolution, representation.id with
  | some (width, height), some id =>
      ofNat width ++ 'x' :: ofNat height ++ " (".toList ++ id ++ [')']
  | some (width, height), none => ofNat width ++ 'x' :: ofNat height
  | none, some id => id
  | none, none => "Video".toList

def audioLabel (set : AdaptationSet) : Text := set.lang.elim "Audio".toList withLanguage

def dashAudioLabel (decimals : Decimals) (set : AdaptationSet)
    (representation : Representation) : Text :=
  match representation.bandwidth with
  | some bandwidth => audioLabel set ++ " · ".toList ++ bandwidthHint decimals bandwidth
  | none => audioLabel set

/-- The set whose qualities are offered as video, and the one offered as audio. -/
def offeredSets (period : Period) : Option Nat × Option Nat :=
  match selectSetIndex period with
  | some index =>
      if (period.adaptationSets[index]?).map (·.kind) = some .video then
        (some index, audioSetIndex period)
      else (none, some index)
  | none => (none, audioSetIndex period)

/-- The audio every video quality is offered with. -/
def offeredAudio (period : Period) (audioSet : Option Nat) : Option (Nat × Nat × Option Nat) := do
  let index ← audioSet
  let set ← period.adaptationSets[index]?
  let representation ← bestRepresentationIndex set
  pure (index, representation, set.representations[representation]?.bind (·.bandwidth))

section

variable (urls : UrlLibrary) (base : Url) (mpd : Mpd)

def describedDashTrack (representation : Representation) (kind : TrackKind) (label : Text)
    (group : Option Text) (selection : ExecutionSelection) (duration estimate : Option Nat) :
    PresentationTrack :=
  let plan := (planDashSelected urls base mpd (some selection)).toOption
  let durationMillis := (plan.bind (·.durationMillis)).or duration
  { label := label
    group := group
    kind := kind
    url := base
    resolution := representation.resolution
    bandwidth := representation.bandwidth
    codecs := representation.codecs
    durationMillis := durationMillis
    size := sizeOf (plan.bind (·.knownTotalBytes)) estimate durationMillis
    container := plan.bind (·.containerHint)
    selection := some selection }

def describedDashVideo (duration : Option Nat) (audio : Option (Nat × Nat × Option Nat))
    (group : Option Text) (setIndex : Nat) (indexed : Representation × Nat) :
    Except ManifestError PresentationTrack := do
  let representation := indexed.1
  let selection ← Selection.dashSelection
    (some (setIndex, indexed.2, representation.bandwidth)) audio
  pure (describedDashTrack urls base mpd representation .video (dashVideoLabel representation)
    group selection duration (combinedBandwidth representation.bandwidth audio))

def describedDashAudio (decimals : Decimals) (duration : Option Nat) (set : AdaptationSet)
    (setIndex : Nat) (indexed : Representation × Nat) :
    Except ManifestError PresentationTrack := do
  let representation := indexed.1
  let selection ← Selection.dashSelection none
    (some (setIndex, indexed.2, representation.bandwidth))
  pure (describedDashTrack urls base mpd representation .audio
    (dashAudioLabel decimals set representation) none selection duration representation.bandwidth)

/-- The qualities of a set that are described. -/
def describedRepresentations (set : AdaptationSet) : List (Representation × Nat) :=
  (set.representations.take maxDescribedVariants).zipIdx

def presentationDuration (period : Period) : Option Nat :=
  period.durationMillis.or mpd.durationMillis

/-- The qualities of the video set, each with the same audio beside it. -/
def offeredVideos (period : Period) : Except ManifestError (List PresentationTrack) :=
  let audio := offeredAudio period (offeredSets period).2
  let group := audio.bind fun choice => period.adaptationSets[choice.1]?.map audioLabel
  match (offeredSets period).1 with
  | none => .ok []
  | some index =>
      match period.adaptationSets[index]? with
      | none => .ok []
      | some set => (describedRepresentations set).mapM
          (describedDashVideo urls base mpd (presentationDuration mpd period) audio group index)

def offeredAudios (decimals : Decimals) (period : Period) :
    Except ManifestError (List PresentationTrack) :=
  match (offeredSets period).2 with
  | none => .ok []
  | some index =>
      match period.adaptationSets[index]? with
      | none => .ok []
      | some set => (describedRepresentations set).mapM
          (describedDashAudio urls base mpd decimals (presentationDuration mpd period) set index)

def inspectMpd (decimals : Decimals) : Except ManifestError (List PresentationTrack) := do
  let period ← mpd.mediaPeriod
  if mpd.kind = .dynamic then
    throw (.unsupported .incompletePresentation)
  if (offeredSets period).1.isNone ∧ (offeredSets period).2.isNone then
    throw .malformed
  let videos ← offeredVideos urls base mpd period
  let audios ← offeredAudios urls base mpd decimals period
  pure (sortTracks (videos ++ audios))

end

end Gunda.Stream

import Gunda.Stream.Dash
import Gunda.Stream.Selection
import Gunda.Lib.Select
import Mathlib.Data.Bool.Basic
import Mathlib.Data.Nat.Basic
import Mathlib.Data.Prod.Lex

/-!
# Download plans

`gunda-stream/src/plan.rs`: from a parsed manifest to the ordered resources of
one output file.
-/
namespace Gunda.Stream

open Gunda.Lib Gunda.Lib.Text
open Gunda.Core (Url ExecutionSelection)
open Gunda.Stream.Hls (ByteRange ResourceRef Playlist MediaPlaylist MasterPlaylist Variant Rendition)
open Gunda.Stream.Dash (Mpd Period AdaptationSet Representation SegmentTemplate SegmentList)

inductive StreamKind where
  | hls | dash
  deriving DecidableEq, Repr

structure StreamResource where
  url : Url
  byteRange : Option ByteRange
  track : Nat
  deriving DecidableEq, Repr

def StreamResource.withTrack (resource : StreamResource) (track : Nat) : StreamResource :=
  { resource with track := track }

@[simp] theorem StreamResource.withTrack_url (resource : StreamResource) (track : Nat) :
    (resource.withTrack track).url = resource.url := rfl

/-- What the manifest alone says a resource contributes. -/
def StreamResource.knownLength (resource : StreamResource) : Option Nat :=
  resource.byteRange.map (·.length)

/-- The inclusive interval of a resource that is part of a larger one. -/
def StreamResource.byteInterval (resource : StreamResource) : Option (Nat × Nat) :=
  resource.byteRange.map fun range =>
    (range.offset.getD 0, saturatingAdd (range.offset.getD 0) (range.length - 1))

structure TrackPlan where
  kind : StreamKind
  resources : List StreamResource
  durationMillis : Option Nat
  label : Option Text
  bandwidth : Option Nat
  declaredTotalBytes : Option Nat
  containerHint : Option Container
  deriving DecidableEq, Repr

/-- The larger of two optional numbers; any number beats none. -/
def maxOption : Option Nat → Option Nat → Option Nat
  | some a, some b => some (max a b)
  | some a, none => some a
  | none, b => b

/-- The sum of two optional numbers, saturating; one alone stands for itself. -/
def sumOption : Option Nat → Option Nat → Option Nat
  | some a, some b => some (saturatingAdd a b)
  | some a, none => some a
  | none, b => b

namespace TrackPlan

def new (kind : StreamKind) (resources : List StreamResource) (durationMillis : Option Nat)
    (label : Option Text) : Except ManifestError TrackPlan :=
  if resources = [] then .error .malformed
  else if maxSegments < resources.length then .error .malformed
  else .ok ⟨kind, resources, durationMillis, label, none, none, none⟩

def withContainerHint (plan : TrackPlan) (hint : Container) : TrackPlan :=
  { plan with containerHint := some hint }

def withBandwidth (plan : TrackPlan) (bandwidth : Option Nat) : TrackPlan :=
  { plan with bandwidth := bandwidth }

def withDeclaredTotal (plan : TrackPlan) (total : Option Nat) : TrackPlan :=
  { plan with declaredTotalBytes := total }

def retracked (plan : TrackPlan) (track : Nat) : TrackPlan :=
  { plan with resources := plan.resources.map (·.withTrack track) }

@[simp] theorem withContainerHint_resources (plan : TrackPlan) (hint : Container) :
    (plan.withContainerHint hint).resources = plan.resources := rfl

@[simp] theorem withBandwidth_resources (plan : TrackPlan) (bandwidth : Option Nat) :
    (plan.withBandwidth bandwidth).resources = plan.resources := rfl

def trackCount (plan : TrackPlan) : Nat :=
  (plan.resources.map (·.track + 1)).foldl max 0

def resourcesOf (plan : TrackPlan) (track : Nat) : List StreamResource :=
  plan.resources.filter fun resource => resource.track = track

/-- The total when every resource declares a length. -/
def knownTotalBytes (plan : TrackPlan) : Option Nat :=
  (plan.resources.map (·.knownLength)).foldlM (fun total length => length.bind fun length =>
    if maxU64 < total + length then none else some (total + length)) 0

def estimatedTotalBytes (plan : TrackPlan) : Option Nat :=
  plan.declaredTotalBytes.or
    (plan.durationMillis.bind fun duration => plan.bandwidth.map fun bandwidth =>
      saturatingMul bandwidth duration / 8000)

def withAudio (plan audio : TrackPlan) : Except ManifestError TrackPlan :=
  let muxable (container : Option Container) : Bool := container.any Container.canBeMuxed
  if !muxable plan.containerHint || !muxable audio.containerHint then
    .error (.unsupported .separateTracks)
  else if maxSegments < plan.resources.length + audio.resources.length then .error .malformed
  else .ok { plan with
    resources := plan.resources ++ audio.resources.map (·.withTrack 1)
    containerHint := some .mp4
    durationMillis := maxOption plan.durationMillis audio.durationMillis
    bandwidth := sumOption plan.bandwidth audio.bandwidth
    declaredTotalBytes := sumOption plan.declaredTotalBytes audio.declaredTotalBytes }

theorem new_ok {kind : StreamKind} {resources : List StreamResource} {duration : Option Nat}
    {label : Option Text} {plan : TrackPlan} (h : new kind resources duration label = .ok plan) :
    plan.resources = resources := by
  unfold new at h
  split at h
  · cases h
  · split at h
    · cases h
    · cases h
      rfl

theorem withAudio_ok {plan audio both : TrackPlan} (h : plan.withAudio audio = .ok both) :
    both.resources = plan.resources ++ audio.resources.map (·.withTrack 1) := by
  unfold withAudio at h
  dsimp only at h
  split at h
  · cases h
  · split at h
    · cases h
    · cases h
      rfl

end TrackPlan

inductive HlsOutcome where
  | fetchVariant (url : Url) (label : Option Text) (bandwidth declaredTotal : Option Nat)
      (audio : Option Url)
  | ready (plan : TrackPlan)
  deriving DecidableEq, Repr

section

variable (urls : UrlLibrary)

def isFetchable (url : Url) : Bool :=
  urls.scheme url = "http".toList || urls.scheme url = "https".toList

/-- Joins a reference and accepts only fetchable schemes. -/
def resolve (base : Url) (uri : Text) (byteRange : Option ByteRange) :
    Except ManifestError StreamResource := do
  let url ← required .malformed (urls.join base uri)
  if !isFetchable urls url then
    throw .malformed
  pure ⟨url, byteRange, 0⟩

theorem resolve_ok {base : Url} {uri : Text} {byteRange : Option ByteRange}
    {resource : StreamResource} (h : resolve urls base uri byteRange = .ok resource) :
    urls.join base uri = some resource.url ∧ isFetchable urls resource.url = true ∧
      resource = ⟨resource.url, byteRange, 0⟩ := by
  unfold resolve at h
  obtain ⟨url, joined, h⟩ := bind_ok h
  have found := required_ok joined
  by_cases fetchable : isFetchable urls url = true
  · simp only [fetchable, Bool.not_true, Bool.false_eq_true, if_false] at h
    cases h
    exact ⟨found, fetchable, rfl⟩
  · rw [Bool.not_eq_true] at fetchable
    simp only [fetchable, Bool.not_false, if_true] at h
    cases h

/-! ## HLS -/

/-- Bandwidth first, then the declared picture size. -/
def Hls.Variant.rank (variant : Variant) : Nat ×ₗ Nat ×ₗ Nat :=
  toLex (variant.bandwidth.getD 0, toLex (variant.width.getD 0, variant.height.getD 0))

def Hls.MasterPlaylist.bestVariant (master : MasterPlaylist) : Option Variant :=
  maxByKey Hls.Variant.rank master.variants

def Hls.MasterPlaylist.defaultAudioRendition (master : MasterPlaylist) (variant : Variant) :
    Option Rendition := do
  let group ← variant.audioGroup
  minByKey (fun rendition => !rendition.default) (master.renditions.filter fun rendition =>
    eqIgnoreAsciiCase rendition.kind "AUDIO".toList && rendition.groupId = some group &&
      rendition.uri.isSome)

def declaresAac (codecs : Option Text) : Bool :=
  codecs.any fun codecs => (splitAll ',' codecs).any fun codec =>
    (stripPrefix "mp4a".toList (toAsciiLowercase (trim codec))).isSome

def selectVariant (master : MasterPlaylist) : Option Variant :=
  let groups := (master.variants.filterMap (·.audioGroup)).eraseDups
  if 1 < groups.length then
    (maxByKey Hls.Variant.rank
      (master.variants.filter fun variant => declaresAac variant.codecs)).or master.bestVariant
  else master.bestVariant

def selectedAudioRendition (master : MasterPlaylist) (variant : Variant)
    (selection : Option ExecutionSelection) : Except ManifestError (Option Rendition) :=
  match selection with
  | none => .ok (master.defaultAudioRendition variant)
  | some selection => do
      let selected ← Selection.parseHls selection
      match selected.audioRendition with
      | none => pure (master.defaultAudioRendition variant)
      | some index => do
          let rendition ← required .selectionUnavailable master.renditions[index]?
          if !eqIgnoreAsciiCase rendition.kind "AUDIO".toList || rendition.uri.isNone ||
              rendition.groupId ≠ variant.audioGroup ||
              rendition.language ≠ selected.audioLanguage then
            throw .selectionUnavailable
          pure (some rendition)

def selectedVariant (master : MasterPlaylist) (selection : ExecutionSelection) :
    Except ManifestError Variant := do
  let selected ← Selection.parseHls selection
  let variant ← required .selectionUnavailable master.variants[selected.variant]?
  if variant.bandwidth ≠ selected.bandwidth ∨ variant.resolution ≠ selected.resolution then
    throw .selectionUnavailable
  pure variant

def bandwidthHint (decimals : Decimals) (bandwidth : Nat) : Text :=
  if 1000000 ≤ bandwidth then decimals.megabits bandwidth ++ " Mbps".toList
  else Text.ofNat (bandwidth / 1000) ++ " kbps".toList

def labelForVariant (decimals : Decimals) (variant : Variant) : Option Text :=
  match variant.resolution, variant.bandwidth with
  | some (width, height), some bandwidth =>
      some (Text.ofNat width ++ 'x' :: Text.ofNat height ++ " (".toList ++
        bandwidthHint decimals bandwidth ++ ")".toList)
  | some (width, height), none => some (Text.ofNat width ++ 'x' :: Text.ofNat height)
  | none, some bandwidth => some (bandwidthHint decimals bandwidth)
  | none, none => none

/-- The map of a segment, where it is not the one already in force. -/
def planInit (base : Url) (track : Nat) (currentInit : Option ResourceRef)
    (segment : Hls.Segment) : Except ManifestError (List StreamResource) :=
  match segment.init with
  | some init =>
      if currentInit ≠ some init then
        (resolve urls base init.uri init.byteRange).map fun resource => [resource.withTrack track]
      else .ok []
  | none => .ok []

/-- The resources of the segments, each new map ahead of the first segment it
applies to. -/
def planSegments (base : Url) (track : Nat) :
    Option ResourceRef → List Hls.Segment → Except ManifestError (List StreamResource)
  | _, [] => .ok []
  | currentInit, segment :: segments => do
      let initialization ← planInit urls base track currentInit segment
      let media ← resolve urls base segment.resource.uri segment.resource.byteRange
      let resources ← planSegments base track segment.init segments
      pure (initialization ++ media.withTrack track :: resources)

def planMediaPlaylist (base : Url) (playlist : MediaPlaylist) (track : Nat) :
    Except ManifestError TrackPlan := do
  if playlist.isEncrypted then
    throw (.unsupported .encryptedSegments)
  if !playlist.ended then
    throw (.unsupported .incompletePresentation)
  if maxSegments < playlist.segments.length + 1 then
    throw .tooManySegments
  let resources ← planSegments urls base track none playlist.segments
  let hint : Container := if playlist.segments.any (·.init.isSome) then .mp4 else .ts
  let plan ← TrackPlan.new .hls resources playlist.totalDurationMillis none
  pure (plan.withContainerHint hint)

def chosenVariant (master : MasterPlaylist) (selection : Option ExecutionSelection) :
    Except ManifestError Variant :=
  match selection with
  | some selection => selectedVariant master selection
  | none => required .malformed (selectVariant master)

def planHlsSelected (decimals : Decimals) (base : Url) (playlist : Playlist)
    (selection : Option ExecutionSelection) : Except ManifestError HlsOutcome :=
  match playlist with
  | .master master => do
      let variant ← chosenVariant master selection
      let picture ← resolve urls base variant.uri none
      let rendition ← selectedAudioRendition master variant selection
      let audio ← (rendition.bind (·.uri)).mapM fun uri =>
        (resolve urls base uri none).map (·.url)
      pure (.fetchVariant picture.url (labelForVariant decimals variant) variant.bandwidth
        (selection.bind fun selection =>
          (Selection.parseHls selection).toOption.bind (·.declaredTotal)) audio)
  | .media media =>
      if selection.isNone then (planMediaPlaylist urls base media 0).map .ready
      else .error .selectionUnavailable

def planHls (decimals : Decimals) (base : Url) (playlist : Playlist) :
    Except ManifestError HlsOutcome :=
  planHlsSelected urls decimals base playlist none

/-! ## DASH templates -/

/-- A number in the width of a `%0<width>d` format. -/
def formatNumber (value : Nat) (format : Option Text) : Except ManifestError Text :=
  match format with
  | none => .ok (Text.ofNat value)
  | some format =>
      let width := ((stripSuffix ['d'] format).getD format).dropWhile (· = '0')
      if width = [] then .ok (Text.ofNat value)
      else do
        let width ← required .malformed (parseU64 width)
        if width = 0 ∨ 32 < width then
          throw .malformed
        let digits := Text.ofNat value
        pure (List.replicate (width - digits.length) '0' ++ digits)

/-- What a token between two dollar signs stands for. -/
def substituteToken (token : Text) (representationId : Option Text)
    (bandwidth number time : Option Nat) : Except ManifestError Text :=
  if token = [] then .ok ['$']
  else
    let (identifier, format) := match splitOnce '%' token with
      | some (identifier, format) => (identifier, some format)
      | none => (token, none)
    if identifier = "RepresentationID".toList then
      if format.isSome then .error .malformed else required .malformed representationId
    else if identifier = "Bandwidth".toList then do
      formatNumber (← required .malformed bandwidth) format
    else if identifier = "Number".toList then do
      formatNumber (← required .malformed number) format
    else if identifier = "Time".toList then do
      formatNumber (← required .malformed time) format
    else .error .malformed

/-- The source's loop; every round takes a token off the rest. -/
def substituteRounds (representationId : Option Text) (bandwidth number time : Option Nat) :
    Nat → Text → Except ManifestError Text
  | 0, rest => .ok rest
  | rounds + 1, rest =>
      match splitOnce '$' rest with
      | none => .ok rest
      | some (literal, after) => do
          let (token, rest) ← required .malformed (splitOnce '$' after)
          let value ← substituteToken token representationId bandwidth number time
          let tail ← substituteRounds representationId bandwidth number time rounds rest
          pure (literal ++ value ++ tail)

def substituteTemplate (template : Text) (representationId : Option Text)
    (bandwidth number time : Option Nat) : Except ManifestError Text :=
  substituteRounds representationId bandwidth number time template.length template

def segmentCount (durationMillis : Option Nat) (timescale duration : Nat) :
    Except ManifestError Nat := do
  let durationMillis ← required (.unsupported .incompletePresentation) durationMillis
  if duration = 0 ∨ timescale = 0 then
    throw .malformed
  let count := (durationMillis * timescale + (duration * 1000 - 1)) / (duration * 1000)
  if maxU64 < count then
    throw .invalidNumber
  pure count

/-! ## DASH -/

/-- The base URLs of the enclosing levels, each joined to the one before. -/
def resolveChain (base : Url) (chain : List (List Text)) : Except ManifestError Url :=
  chain.foldlM (fun resolved baseUrls => match baseUrls with
    | first :: _ => required .malformed (urls.join resolved first)
    | [] => .ok resolved) base

def planTemplate (resolved : Url) (representation : Representation)
    (template : SegmentTemplate) (periodEndMillis : Option Nat) :
    Except ManifestError (List StreamResource) := do
  let media ← required .malformed template.media
  let expand (pattern : Text) (number time : Option Nat) : Except ManifestError StreamResource := do
    let uri ← substituteTemplate pattern representation.id representation.bandwidth number time
    resolve urls resolved uri none
  let initialization ← template.initialization.mapM fun pattern => expand pattern none none
  let resources := initialization.toList
  match template.timeline with
  | some timeline => do
      let periodEnd := periodEndMillis.map fun millis =>
        saturatingMul millis template.timescale / 1000
      let times ← Dash.expandTimeline timeline periodEnd
      if maxSegments < resources.length + times.length then
        throw .tooManySegments
      let segments ← times.mapM fun time => expand media none (some time)
      pure (resources ++ segments)
  | none => do
      let duration ← required .malformed template.duration
      let count ← segmentCount periodEndMillis template.timescale duration
      if maxSegments - resources.length < count then
        throw .tooManySegments
      let segments ← (List.range count).mapM fun index =>
        expand media (some (saturatingAdd template.startNumber index)) none
      pure (resources ++ segments)

/-- An inclusive range as offset and length. -/
def rangeToByteRange (range : Nat × Nat) : ByteRange :=
  ⟨saturatingAdd (range.2 - range.1) 1, some range.1⟩

def planList (resolved : Url) (list : SegmentList) :
    Except ManifestError (List StreamResource) := do
  let initialization ← list.initialization.mapM fun initialization =>
    resolve urls resolved initialization.sourceUrl (initialization.range.map rangeToByteRange)
  let resources := initialization.toList
  let segmentUrls ← required .malformed list.segmentUrls
  if maxSegments < resources.length + segmentUrls.length then
    throw .tooManySegments
  let segments ← segmentUrls.mapM fun segment =>
    resolve urls resolved (segment.media.getD []) (segment.mediaRange.map rangeToByteRange)
  pure (resources ++ segments)

def planSingleFile (resolved : Url) : Except ManifestError (List StreamResource) :=
  if urls.path resolved = [] ∨ (stripSuffix ['/'] (urls.path resolved)).isSome then
    .error (.unsupported .segmentIndex)
  else .ok [⟨resolved, none, 0⟩]

structure PlannedSet where
  resources : List StreamResource
  label : Option Text
  container : Container
  durationMillis : Option Nat
  deriving DecidableEq, Repr

/-- The URL a representation's references are relative to. -/
def representationBase (base : Url) (mpd : Mpd) (period : Period) (set : AdaptationSet)
    (representation : Representation) : Except ManifestError Url :=
  resolveChain urls base [mpd.baseUrls, period.baseUrls, set.baseUrls, representation.baseUrls]

def labelForRepresentation (representation : Representation) : Option Text :=
  match representation.resolution, representation.id with
  | some (width, height), some id =>
      some (Text.ofNat width ++ 'x' :: Text.ofNat height ++ " (".toList ++ id ++ ")".toList)
  | some (width, height), none => some (Text.ofNat width ++ 'x' :: Text.ofNat height)
  | none, id => id

def planAddressing (resolved : Url) (representation : Representation)
    (periodEndMillis : Option Nat) :
    Dash.RepresentationAddressing → Except ManifestError (List StreamResource)
  | .template template => planTemplate urls resolved representation template periodEndMillis
  | .list list => planList urls resolved list
  | .base _ => .error (.unsupported .segmentIndex)
  | .singleFile => planSingleFile urls resolved

def planSet (base : Url) (mpd : Mpd) (period : Period) (set : AdaptationSet)
    (representationIndex : Nat) : Except ManifestError PlannedSet := do
  let representation ← required .selectionUnavailable set.representations[representationIndex]?
  let resolved ← representationBase urls base mpd period set representation
  let periodEndMillis := period.durationMillis.or mpd.durationMillis
  let resources ← planAddressing urls resolved representation periodEndMillis
    (representation.addressing set period)
  pure
    { resources := resources
      label := labelForRepresentation representation
      container := if set.kind = .audio then .m4a else .mp4
      durationMillis := periodEndMillis }

def planDashTrack (base : Url) (mpd : Mpd) (period : Period) (setIndex representationIndex : Nat) :
    Except ManifestError TrackPlan := do
  let set ← required .selectionUnavailable period.adaptationSets[setIndex]?
  let planned ← planSet urls base mpd period set representationIndex
  let bandwidth := set.representations[representationIndex]?.bind (·.bandwidth)
  let plan ← TrackPlan.new .dash planned.resources planned.durationMillis planned.label
  pure ((plan.withContainerHint planned.container).withBandwidth bandwidth)

end

/-! ## DASH track choice -/

def bestBandwidth (set : AdaptationSet) : Nat :=
  ((set.representations.map fun representation => representation.bandwidth.getD 0).max?).getD 0

/-- Bandwidth first, then the declared picture size. -/
def Dash.Representation.rank (representation : Representation) : Nat ×ₗ Nat ×ₗ Nat :=
  toLex (representation.bandwidth.getD 0,
    toLex ((representation.resolution.map (·.1)).getD 0,
      (representation.resolution.map (·.2)).getD 0))

def bestRepresentationIndex (set : AdaptationSet) : Option Nat :=
  lastMaxIndex (fun _ => true) Dash.Representation.rank set.representations

/-- Index of the last set of greatest bandwidth among those that qualify. -/
def bestSetIndex (period : Period) (qualifies : AdaptationSet → Bool) : Option Nat :=
  lastMaxIndex (fun set => qualifies set && !set.representations.isEmpty) bestBandwidth
    period.adaptationSets

def audioSetIndex (period : Period) : Option Nat := bestSetIndex period (·.kind = .audio)

def selectSetIndex (period : Period) : Option Nat :=
  (bestSetIndex period (·.kind = .video)).or (bestSetIndex period (·.kind ≠ .text))

/-- The adaptation set and representation of each track. -/
structure DashTracks where
  video : Option (Nat × Nat)
  audio : Option (Nat × Nat)
  deriving DecidableEq, Repr

def defaultDashTracks (period : Period) : Except ManifestError DashTracks := do
  let videoSet ← required .malformed (selectSetIndex period)
  let set := period.adaptationSets[videoSet]?
  let representation ← required .malformed (set.bind bestRepresentationIndex)
  let audio :=
    if set.map (·.kind) = some .video then do
      let audioSet ← audioSetIndex period
      let representation ← period.adaptationSets[audioSet]?.bind bestRepresentationIndex
      pure (audioSet, representation)
    else none
  pure ⟨some (videoSet, representation), audio⟩

def validateDashChoice (period : Period) (setIndex representationIndex : Nat)
    (kind : Dash.TrackKind) (bandwidth : Option Nat) : Except ManifestError Unit := do
  let set ← required .selectionUnavailable period.adaptationSets[setIndex]?
  if set.kind ≠ kind then
    throw .selectionUnavailable
  let representation ← required .selectionUnavailable set.representations[representationIndex]?
  if representation.bandwidth ≠ bandwidth then
    throw .selectionUnavailable

/-- One track of a selection: both indices or neither. -/
def selectedDashTrack (period : Period) (set representation : Option Nat) (kind : Dash.TrackKind)
    (bandwidth : Option Nat) : Except ManifestError (Option (Nat × Nat)) :=
  match set, representation with
  | some set, some representation => do
      validateDashChoice period set representation kind bandwidth
      pure (some (set, representation))
  | none, none => .ok none
  | _, _ => .error .selectionUnavailable

def selectedDashTracks (period : Period) (selection : ExecutionSelection) :
    Except ManifestError DashTracks := do
  let selected ← Selection.parseDash selection
  let video ← selectedDashTrack period selected.videoSet selected.videoRepresentation .video
    selected.videoBandwidth
  let audio ← selectedDashTrack period selected.audioSet selected.audioRepresentation .audio
    selected.audioBandwidth
  pure ⟨video, audio⟩

def chosenDashTracks (period : Period) (selection : Option ExecutionSelection) :
    Except ManifestError DashTracks :=
  match selection with
  | some selection => selectedDashTracks period selection
  | none => defaultDashTracks period

def planDashSelected (urls : UrlLibrary) (base : Url) (mpd : Mpd)
    (selection : Option ExecutionSelection) : Except ManifestError TrackPlan := do
  if mpd.kind = .dynamic then
    throw (.unsupported .incompletePresentation)
  let period ← mpd.mediaPeriod
  let tracks ← chosenDashTracks period selection
  let videoPlan ← tracks.video.mapM fun choice =>
    planDashTrack urls base mpd period choice.1 choice.2
  let audioPlan ← tracks.audio.mapM fun choice =>
    planDashTrack urls base mpd period choice.1 choice.2
  match videoPlan, audioPlan with
  | some video, some audio => video.withAudio audio
  | some video, none => pure video
  | none, some audio => pure audio
  | none, none => throw .malformed

def planDash (urls : UrlLibrary) (base : Url) (mpd : Mpd) : Except ManifestError TrackPlan :=
  planDashSelected urls base mpd none

/-! ## A sample library -/

/-- Absolute references stand for themselves; others follow the base's last slash. -/
def sampleUrls : UrlLibrary where
  join base reference :=
    some (if (splitOnce ':' reference).isSome then ⟨reference⟩
      else ⟨(base.serialization.reverse.dropWhile (· ≠ '/')).reverse ++ reference⟩)
  scheme url := ((splitOnce ':' url.serialization).map (·.1)).getD []
  path url := ((splitAtPattern "://".toList url.serialization).map (·.2)).elim []
    (·.dropWhile (· ≠ '/'))

/-- Every duration read is four seconds. -/
def sampleDecimals : Decimals where
  durationMillis _ := .ok 4000
  iso8601DurationMillis _ := .ok 4000
  megabits bandwidth := Text.ofNat (bandwidth / 1000000) ++ ".0".toList

def sampleBase : Url := ⟨"https://cdn.example/vod/manifest".toList⟩

end Gunda.Stream

import Gunda.Stream.Xml

/-!
# MPEG-DASH manifests

`gunda-stream/src/dash.rs`: the media presentation description read from its
element tree, addressing inheritance, and segment timelines.
-/
namespace Gunda.Stream.Dash

open Gunda.Lib Gunda.Lib.Text
open Gunda.Stream.Xml (Node)

inductive MpdKind where
  | static | dynamic
  deriving DecidableEq, Repr

structure TimelineEntry where
  time : Option Nat
  duration : Nat
  «repeat» : Int
  deriving DecidableEq, Repr

structure SegmentTemplate where
  timescale? : Option Nat
  duration : Option Nat
  startNumber? : Option Nat
  media : Option Text
  initialization : Option Text
  presentationTimeOffset? : Option Nat
  timeline : Option (List TimelineEntry)
  deriving DecidableEq, Repr

namespace SegmentTemplate

def empty : SegmentTemplate := ⟨none, none, none, none, none, none, none⟩

def timescale (template : SegmentTemplate) : Nat :=
  match template.timescale? with
  | some timescale => if 0 < timescale then timescale else 1
  | none => 1

def startNumber (template : SegmentTemplate) : Nat := template.startNumber?.getD 1

def presentationTimeOffset (template : SegmentTemplate) : Nat :=
  template.presentationTimeOffset?.getD 0

/-- Fills unset fields from a less specific level. -/
def inherit (template outer : SegmentTemplate) : SegmentTemplate where
  timescale? := template.timescale?.or outer.timescale?
  duration := template.duration.or outer.duration
  startNumber? := template.startNumber?.or outer.startNumber?
  media := template.media.or outer.media
  initialization := template.initialization.or outer.initialization
  presentationTimeOffset? := template.presentationTimeOffset?.or outer.presentationTimeOffset?
  timeline := template.timeline.or outer.timeline

end SegmentTemplate

structure SegmentUrl where
  media : Option Text
  mediaRange : Option (Nat × Nat)
  deriving DecidableEq, Repr

structure SegmentInitialization where
  sourceUrl : Text
  range : Option (Nat × Nat)
  deriving DecidableEq, Repr

structure SegmentList where
  timescale? : Option Nat
  duration : Option Nat
  startNumber? : Option Nat
  initialization : Option SegmentInitialization
  segmentUrls : Option (List SegmentUrl)
  deriving DecidableEq, Repr

namespace SegmentList

def empty : SegmentList := ⟨none, none, none, none, none⟩

def inherit (list outer : SegmentList) : SegmentList where
  timescale? := list.timescale?.or outer.timescale?
  duration := list.duration.or outer.duration
  startNumber? := list.startNumber?.or outer.startNumber?
  initialization := list.initialization.or outer.initialization
  segmentUrls := list.segmentUrls.or outer.segmentUrls

end SegmentList

structure SegmentBase where
  indexRange : Option Text
  initialization : Option Text
  deriving DecidableEq, Repr

structure Representation where
  id : Option Text
  bandwidth : Option Nat
  codecs : Option Text
  mimeType : Option Text
  width : Option Nat
  height : Option Nat
  baseUrls : List Text
  segmentTemplate : Option SegmentTemplate
  segmentList : Option SegmentList
  segmentBase : Option SegmentBase
  deriving DecidableEq, Repr

def Representation.resolution (representation : Representation) : Option (Nat × Nat) :=
  match representation.width, representation.height with
  | some width, some height => some (width, height)
  | _, _ => none

structure AdaptationSet where
  contentType : Option Text
  mimeType : Option Text
  lang : Option Text
  baseUrls : List Text
  segmentTemplate : Option SegmentTemplate
  segmentList : Option SegmentList
  representations : List Representation
  deriving DecidableEq, Repr

inductive TrackKind where
  | video | audio | text | unknown
  deriving DecidableEq, Repr

/-- The kind a MIME type names, or the one a picture size gives away. -/
def kindFromMime (set : AdaptationSet) : TrackKind :=
  let mime := set.mimeType.or (set.representations.head?.bind (·.mimeType))
  let major := mime.map fun mime => toAsciiLowercase ((splitAll '/' mime).headD [])
  if major = some "video".toList then .video
  else if major = some "audio".toList then .audio
  else if major = some "text".toList ∨ major = some "application".toList then .text
  else if set.representations.any (·.width.isSome) then .video
  else .unknown

def AdaptationSet.kind (set : AdaptationSet) : TrackKind :=
  match set.contentType with
  | some contentType =>
      if eqIgnoreAsciiCase contentType "video".toList then .video
      else if eqIgnoreAsciiCase contentType "audio".toList then .audio
      else if eqIgnoreAsciiCase contentType "text".toList ||
          eqIgnoreAsciiCase contentType "subtitle".toList then .text
      else kindFromMime set
  | none => kindFromMime set

structure Period where
  id : Option Text
  durationMillis : Option Nat
  baseUrls : List Text
  segmentTemplate : Option SegmentTemplate
  segmentList : Option SegmentList
  adaptationSets : List AdaptationSet
  deriving DecidableEq, Repr

def Period.isEmpty (period : Period) : Bool :=
  period.adaptationSets.all (·.representations.isEmpty)

structure Mpd where
  kind : MpdKind
  durationMillis : Option Nat
  minBufferMillis : Option Nat
  baseUrls : List Text
  periods : List Period
  deriving DecidableEq, Repr

def Mpd.mediaPeriod (mpd : Mpd) : Except ManifestError Period :=
  match mpd.periods.filter (!·.isEmpty) with
  | [] => .error .malformed
  | [period] => .ok period
  | _ => .error (.unsupported .multiPeriod)

/-! ## Addressing -/

inductive RepresentationAddressing where
  | template (template : SegmentTemplate)
  | list (list : SegmentList)
  | base (base : SegmentBase)
  | singleFile
  deriving DecidableEq, Repr

def mergeTemplate (inner set period : Option SegmentTemplate) : Option SegmentTemplate :=
  if inner.isSome || set.isSome || period.isSome then
    let merged := inner.getD .empty
    let merged := set.elim merged merged.inherit
    some (period.elim merged merged.inherit)
  else none

def mergeList (inner set period : Option SegmentList) : Option SegmentList :=
  if inner.isSome || set.isSome || period.isSome then
    let merged := inner.getD .empty
    let merged := set.elim merged merged.inherit
    some (period.elim merged merged.inherit)
  else none

def Representation.addressing (representation : Representation) (set : AdaptationSet)
    (period : Period) : RepresentationAddressing :=
  let template := mergeTemplate representation.segmentTemplate set.segmentTemplate
    period.segmentTemplate
  let list := mergeList representation.segmentList set.segmentList period.segmentList
  match template, list with
  | some template, _ => .template template
  | none, some list => .list list
  | none, none =>
      match representation.segmentBase with
      | some base => .base base
      | none => .singleFile

/-! ## Reading -/

/-- An inclusive `first-last` byte range. -/
def parseByteRange (value : Text) : Except ManifestError (Nat × Nat) := do
  let (first, last) ← required .invalidByteRange (splitOnce '-' value)
  let first ← required .invalidByteRange (parseU64 (trim first))
  let last ← required .invalidByteRange (parseU64 (trim last))
  if last < first then
    throw .invalidByteRange
  pure (first, last)

def textChildren (node : Node) (name : Text) : List Text :=
  ((node.childrenNamed name).map (·.text)).filter (· ≠ [])

def parseTimelineEntry (entry : Node) : Except ManifestError TimelineEntry := do
  let time ← entry.attributeU64 "t".toList
  let duration ← required .malformed (← entry.attributeU64 "d".toList)
  let «repeat» ← entry.attributeI64 "r".toList
  pure ⟨time, duration, «repeat».getD 0⟩

def parseSegmentTemplate (node : Node) : Except ManifestError SegmentTemplate := do
  let timeline ← (node.child "SegmentTimeline".toList).mapM fun timeline =>
    (timeline.childrenNamed "S".toList).mapM parseTimelineEntry
  let timescale ← node.attributeU64 "timescale".toList
  let duration ← node.attributeU64 "duration".toList
  let startNumber ← node.attributeU64 "startNumber".toList
  let presentationTimeOffset ← node.attributeU64 "presentationTimeOffset".toList
  pure
    { timescale? := timescale
      duration := duration
      startNumber? := startNumber
      media := node.attributeNamed "media".toList
      initialization := node.attributeNamed "initialization".toList
      presentationTimeOffset? := presentationTimeOffset
      timeline := timeline }

def parseSegmentUrl (segment : Node) : Except ManifestError SegmentUrl := do
  let mediaRange ← (segment.attributeNamed "mediaRange".toList).mapM parseByteRange
  pure ⟨segment.attributeNamed "media".toList, mediaRange⟩

def parseSegmentInitialization (init : Node) : Except ManifestError SegmentInitialization := do
  let range ← (init.attributeNamed "range".toList).mapM parseByteRange
  pure ⟨(init.attributeNamed "sourceURL".toList).getD [], range⟩

def parseSegmentList (node : Node) : Except ManifestError SegmentList := do
  let segmentUrls ← (node.childrenNamed "SegmentURL".toList).mapM parseSegmentUrl
  let timescale ← node.attributeU64 "timescale".toList
  let duration ← node.attributeU64 "duration".toList
  let startNumber ← node.attributeU64 "startNumber".toList
  let initialization ← (node.child "Initialization".toList).mapM parseSegmentInitialization
  pure
    { timescale? := timescale
      duration := duration
      startNumber? := startNumber
      initialization := initialization
      segmentUrls := if segmentUrls.isEmpty then none else some segmentUrls }

def parseSegmentBase (node : Node) : SegmentBase where
  indexRange := node.attributeNamed "indexRange".toList
  initialization := (node.child "Initialization".toList).bind (·.attributeNamed "sourceURL".toList)

def parseRepresentation (node : Node) : Except ManifestError Representation := do
  let bandwidth ← node.attributeU64 "bandwidth".toList
  let width ← node.attributeU32 "width".toList
  let height ← node.attributeU32 "height".toList
  let segmentTemplate ← (node.child "SegmentTemplate".toList).mapM parseSegmentTemplate
  let segmentList ← (node.child "SegmentList".toList).mapM parseSegmentList
  pure
    { id := node.attributeNamed "id".toList
      bandwidth := bandwidth
      codecs := node.attributeNamed "codecs".toList
      mimeType := node.attributeNamed "mimeType".toList
      width := width
      height := height
      baseUrls := textChildren node "BaseURL".toList
      segmentTemplate := segmentTemplate
      segmentList := segmentList
      segmentBase := (node.child "SegmentBase".toList).map parseSegmentBase }

def parseAdaptationSet (set : Node) : Except ManifestError AdaptationSet := do
  let representations ← (set.childrenNamed "Representation".toList).mapM parseRepresentation
  let segmentTemplate ← (set.child "SegmentTemplate".toList).mapM parseSegmentTemplate
  let segmentList ← (set.child "SegmentList".toList).mapM parseSegmentList
  pure
    { contentType := set.attributeNamed "contentType".toList
      mimeType := set.attributeNamed "mimeType".toList
      lang := set.attributeNamed "lang".toList
      baseUrls := textChildren set "BaseURL".toList
      segmentTemplate := segmentTemplate
      segmentList := segmentList
      representations := representations }

def parsePeriod (decimals : Decimals) (period : Node) : Except ManifestError Period := do
  let durationMillis ← (period.attributeNamed "duration".toList).mapM
    decimals.iso8601DurationMillis
  let adaptationSets ← (period.childrenNamed "AdaptationSet".toList).mapM parseAdaptationSet
  let segmentTemplate ← (period.child "SegmentTemplate".toList).mapM parseSegmentTemplate
  let segmentList ← (period.child "SegmentList".toList).mapM parseSegmentList
  pure
    { id := period.attributeNamed "id".toList
      durationMillis := durationMillis
      baseUrls := textChildren period "BaseURL".toList
      segmentTemplate := segmentTemplate
      segmentList := segmentList
      adaptationSets := adaptationSets }

/-- `dash::parse` from the root element on. -/
def parseRoot (decimals : Decimals) (root : Node) : Except ManifestError Mpd := do
  if root.name ≠ "MPD".toList then
    throw .notAManifest
  let kind := match root.attributeNamed "type".toList with
    | some kind => if eqIgnoreAsciiCase kind "dynamic".toList then .dynamic else .static
    | none => .static
  let durationMillis ← (root.attributeNamed "mediaPresentationDuration".toList).mapM
    decimals.iso8601DurationMillis
  let minBufferMillis ← (root.attributeNamed "minBufferTime".toList).mapM
    decimals.iso8601DurationMillis
  let periods ← (root.childrenNamed "Period".toList).mapM (parsePeriod decimals)
  pure
    { kind := kind
      durationMillis := durationMillis
      minBufferMillis := minBufferMillis
      baseUrls := textChildren root "BaseURL".toList
      periods := periods }

def parse (decimals : Decimals) (text : Text) : Except ManifestError Mpd := do
  let root ← Xml.parseDocument text
  parseRoot decimals root

/-! ## Timelines -/

/-- Pushes the start times of one entry. -/
def pushTimes : Nat → Nat → Nat → List Nat → Except ManifestError (List Nat × Nat)
  | 0, _, time, times => .ok (times, time)
  | count + 1, duration, time, times =>
      if maxSegments ≤ times.length then .error .malformed
      else if maxU64 < time + duration then .error .invalidNumber
      else pushTimes count duration (time + duration) (times ++ [time])

def timelineRepeat (entry : TimelineEntry) (time : Nat) (periodEnd : Option Nat) :
    Except ManifestError Nat :=
  if 0 ≤ entry.repeat then .ok entry.repeat.toNat
  else if entry.repeat = -1 then do
    let periodEnd ← required (.unsupported .incompletePresentation) periodEnd
    if periodEnd ≤ time then
      throw .malformed
    pure ((periodEnd - time) / entry.duration - 1)
  else .error .malformed

def expandEntries (periodEnd : Option Nat) :
    Option Nat → List Nat → List TimelineEntry → Except ManifestError (List Nat)
  | _, times, [] => .ok times
  | current, times, entry :: entries => do
      if entry.duration = 0 then
        throw .malformed
      let time ← required .malformed (entry.time.or current)
      let «repeat» ← timelineRepeat entry time periodEnd
      let (times, time) ← pushTimes («repeat» + 1) entry.duration time times
      expandEntries periodEnd (some time) times entries

def expandTimeline (entries : List TimelineEntry) (periodEnd : Option Nat) :
    Except ManifestError (List Nat) :=
  expandEntries periodEnd none [] entries

end Gunda.Stream.Dash

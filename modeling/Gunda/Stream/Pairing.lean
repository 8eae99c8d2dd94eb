import Gunda.Stream.SubRanges

/-!
# Tags and the lines they are about

An `EXT-X-STREAM-INF`, an `EXTINF` and an `EXT-X-BYTERANGE` are about the next URI line. The
reader keeps the last one of each kind until that line comes, and forgets an `EXTINF` or an
`EXT-X-BYTERANGE` that no URI line follows.
-/
namespace Gunda.Stream

open Gunda.Lib Gunda.Lib.Text
open Gunda.Stream.Hls (Attributes ByteRange ParseState Segment Variant Rendition Playlist)

/-! ## What a tag line does to the reader -/

def streamInfName : Text := "EXT-X-STREAM-INF".toList

def extInfName : Text := "EXTINF".toList

def byteRangeName : Text := "EXT-X-BYTERANGE".toList

def mediaName : Text := "EXT-X-MEDIA".toList

/-- The attributes of an `EXT-X-STREAM-INF`. -/
def ReadsStreamInf (attributes : Attributes) (value : Option Text) : Prop :=
  Hls.parseAttributes (value.getD []) = .ok attributes

/-- The variant of an `EXT-X-STREAM-INF` whose next URI line is given. -/
def ReadsVariant (uri : Text) (variant : Variant) (value : Option Text) : Prop :=
  ∃ attributes, ReadsStreamInf attributes value ∧
    Hls.attributesToVariant attributes uri = .ok variant

/-- The duration of an `EXTINF`. -/
def ReadsDuration (decimals : Decimals) (duration : Nat) (value : Option Text) : Prop :=
  ∃ text, value = some text ∧
    decimals.durationMillis ((splitAll ',' text).headD []) = .ok duration

/-- The range of an `EXT-X-BYTERANGE`; an offset it does not declare may be filled in. -/
def ReadsRange (range : ByteRange) (value : Option Text) : Prop :=
  ∃ text declared, value = some text ∧ ByteRange.parse text = .ok declared ∧
    range.length = declared.length ∧ ∀ offset ∈ declared.offset, range.offset = some offset

/-- The rendition of an `EXT-X-MEDIA`. -/
def ReadsRendition (rendition : Rendition) (value : Option Text) : Prop :=
  ∃ attributes, Hls.parseAttributes (value.getD []) = .ok attributes ∧
    attributes.get "TYPE".toList = some rendition.kind ∧
    rendition.groupId = attributes.get "GROUP-ID".toList ∧
    rendition.name = attributes.get "NAME".toList ∧
    rendition.language = attributes.get "LANGUAGE".toList ∧
    rendition.uri = attributes.get "URI".toList ∧
    rendition.default = attributes.isYes "DEFAULT".toList

/-- The tags of the four names, by name. -/
def tagNames : List Text := [streamInfName, extInfName, byteRangeName, mediaName]

/-- What is waiting for a URI line, and what was read of them, stay as they are. -/
structure SameReadings (state next : ParseState) : Prop where
  streamInf : next.pendingStreamInf = state.pendingStreamInf
  duration : next.pendingDuration = state.pendingDuration
  range : next.pendingRange = state.pendingRange
  segments : next.media.segments = state.media.segments
  variants : next.master.variants = state.master.variants
  renditions : next.master.renditions = state.master.renditions
  seenMaster : state.sawMasterTag = true → next.sawMasterTag = true
  seenMedia : state.sawMediaTag = true → next.sawMediaTag = true

/-- A tag line fills the slot of its kind, adds a rendition, or touches none of this. -/
inductive TagStep (decimals : Decimals) (state : ParseState) (tag : Text) : ParseState → Prop where
  | streamInf {attributes : Attributes} (name : (Hls.tagParts tag).1 = streamInfName)
      (reads : ReadsStreamInf attributes (Hls.tagParts tag).2) :
      TagStep decimals state tag
        { state with pendingStreamInf := some attributes, sawMasterTag := true }
  | rendition {rendition : Rendition} (name : (Hls.tagParts tag).1 = mediaName)
      (reads : ReadsRendition rendition (Hls.tagParts tag).2) :
      TagStep decimals state tag
        { state with
          master := { state.master with renditions := state.master.renditions ++ [rendition] }
          sawMasterTag := true }
  | duration {duration : Nat} (name : (Hls.tagParts tag).1 = extInfName)
      (reads : ReadsDuration decimals duration (Hls.tagParts tag).2) :
      TagStep decimals state tag
        { state with pendingDuration := some duration, sawMediaTag := true }
  | range {range : ByteRange} (name : (Hls.tagParts tag).1 = byteRangeName)
      (reads : ReadsRange range (Hls.tagParts tag).2) :
      TagStep decimals state tag { state with pendingRange := some range, sawMediaTag := true }
  | other {next : ParseState} (name : (Hls.tagParts tag).1 ∉ tagNames)
      (same : SameReadings state next) : TagStep decimals state tag next

section Tags

variable {decimals : Decimals} {state next : ParseState} {tag : Text}
variable {value : Option Text}

theorem not_tagName {name : Text} (named : (Hls.tagParts tag).1 = name) (other : name ∉ tagNames) :
    (Hls.tagParts tag).1 ∉ tagNames := by
  rw [named]
  exact other

theorem iframeStreamInfTag_same (h : Hls.iframeStreamInfTag state value = .ok next) :
    SameReadings state next := by
  unfold Hls.iframeStreamInfTag at h
  obtain ⟨attributes, _, h⟩ := bind_ok h
  obtain ⟨uri, _, h⟩ := bind_ok h
  obtain ⟨variant, _, h⟩ := bind_ok h
  cases h
  exact ⟨rfl, rfl, rfl, rfl, rfl, rfl, fun _ => rfl, id⟩

theorem targetDurationTag_same (h : Hls.targetDurationTag state value = .ok next) :
    SameReadings state next := by
  unfold Hls.targetDurationTag at h
  obtain ⟨text, _, h⟩ := bind_ok h
  obtain ⟨seconds, _, h⟩ := bind_ok h
  cases h
  exact ⟨rfl, rfl, rfl, rfl, rfl, rfl, id, fun _ => rfl⟩

theorem mediaSequenceTag_same (h : Hls.mediaSequenceTag state value = .ok next) :
    SameReadings state next := by
  unfold Hls.mediaSequenceTag at h
  obtain ⟨text, _, h⟩ := bind_ok h
  obtain ⟨sequence, _, h⟩ := bind_ok h
  cases h
  exact ⟨rfl, rfl, rfl, rfl, rfl, rfl, id, fun _ => rfl⟩

theorem keyTag_same (h : Hls.keyTag state value = .ok next) :
    SameReadings state next := by
  unfold Hls.keyTag at h
  obtain ⟨key, _, h⟩ := bind_ok h
  cases h
  exact ⟨rfl, rfl, rfl, rfl, rfl, rfl, id, fun _ => rfl⟩

theorem mapTag_same (h : Hls.mapTag state value = .ok next) :
    SameReadings state next := by
  unfold Hls.mapTag at h
  obtain ⟨map, _, h⟩ := bind_ok h
  cases h
  exact ⟨rfl, rfl, rfl, rfl, rfl, rfl, id, fun _ => rfl⟩

theorem parse_readsRange {text : Text} {range : ByteRange} (present : value = some text)
    (parsed : ByteRange.parse text = .ok range) :
    ReadsRange range value :=
  ⟨text, range, present, parsed, rfl, fun _ member => member⟩

theorem tagLine_step (h : Hls.tagLine decimals state tag = .ok next) :
    TagStep decimals state tag next := by
  unfold Hls.tagLine at h
  obtain ⟨named, h⟩ | ⟨notStreamInf, h⟩ := ite_ok h
  · unfold Hls.streamInfTag at h
    obtain ⟨attributes, parsed, h⟩ := bind_ok h
    cases h
    exact .streamInf named parsed
  obtain ⟨named, h⟩ | ⟨_, h⟩ := ite_ok h
  · exact .other (not_tagName named (by decide)) (iframeStreamInfTag_same h)
  obtain ⟨named, h⟩ | ⟨notMedia, h⟩ := ite_ok h
  · unfold Hls.mediaTag at h
    obtain ⟨attributes, parsed, h⟩ := bind_ok h
    obtain ⟨kind, typed, h⟩ := bind_ok h
    cases h
    exact .rendition named ⟨attributes, parsed, required_ok typed, rfl, rfl, rfl, rfl, rfl⟩
  obtain ⟨named, h⟩ | ⟨notExtInf, h⟩ := ite_ok h
  · unfold Hls.extInfTag at h
    obtain ⟨text, present, h⟩ := bind_ok h
    obtain ⟨duration, read, h⟩ := bind_ok h
    cases h
    exact .duration named ⟨text, required_ok present, read⟩
  obtain ⟨named, h⟩ | ⟨notByteRange, h⟩ := ite_ok h
  · unfold Hls.byteRangeTag at h
    obtain ⟨text, present, h⟩ := bind_ok h
    obtain ⟨range, parsed, h⟩ := bind_ok h
    cases h
    exact .range named (parse_readsRange (required_ok present) parsed)
  obtain ⟨named, h⟩ | ⟨_, h⟩ := ite_ok h
  · exact .other (not_tagName named (by decide)) (targetDurationTag_same h)
  obtain ⟨named, h⟩ | ⟨_, h⟩ := ite_ok h
  · exact .other (not_tagName named (by decide)) (mediaSequenceTag_same h)
  obtain ⟨named, h⟩ | ⟨_, h⟩ := ite_ok h
  · cases h
    exact .other (not_tagName named (by decide)) ⟨rfl, rfl, rfl, rfl, rfl, rfl, id, fun _ => rfl⟩
  obtain ⟨named, h⟩ | ⟨_, h⟩ := ite_ok h
  · cases h
    exact .other (not_tagName named (by decide)) ⟨rfl, rfl, rfl, rfl, rfl, rfl, id, fun _ => rfl⟩
  obtain ⟨named, h⟩ | ⟨_, h⟩ := ite_ok h
  · exact .other (not_tagName named (by decide)) (keyTag_same h)
  obtain ⟨named, h⟩ | ⟨_, h⟩ := ite_ok h
  · exact .other (not_tagName named (by decide)) (mapTag_same h)
  · cases h
    refine .other ?_ ⟨rfl, rfl, rfl, rfl, rfl, rfl, id, id⟩
    rw [tagNames, List.mem_cons, List.mem_cons, List.mem_cons, List.mem_singleton]
    rintro (same | same | same | same)
    · exact notStreamInf same
    · exact notExtInf same
    · exact notByteRange same
    · exact notMedia same

end Tags

/-! ## The lines that a URI line ends -/

/-- The values of the tags of a name, in the order of the lines. -/
def tagValues (name : Text) (lines : List Text) : List (Option Text) :=
  lines.filterMap (tagValue name)

/-- The lines above, down from the URI line before. -/
def ownTags (above : List Text) : List Text := above.takeWhile fun line => !isUriLine line

/-- The nearest tag is in the slot. -/
def Filled {α : Type} (reads : α → Option Text → Prop) (slot : Option α) :
    List (Option Text) → Prop
  | [] => slot = none
  | value :: _ => ∃ found, slot = some found ∧ reads found value

/-- Each of the tags is in the slot. -/
def Applied {α : Type} (reads : α → Option Text → Prop) (slot : Option α)
    (values : List (Option Text)) : Prop :=
  List.Forall₂ reads slot.toList values

theorem Filled.applied_iff {α : Type} {reads : α → Option Text → Prop} {slot : Option α}
    {values : List (Option Text)} (filled : Filled reads slot values) :
    Applied reads slot values ↔ values.length ≤ 1 := by
  unfold Applied
  cases values with
  | nil =>
    rw [show slot = none from filled]
    exact iff_of_true .nil (Nat.zero_le _)
  | cons value others =>
    obtain ⟨found, same, read⟩ := filled
    rw [same]
    cases others with
    | nil => exact iff_of_true (.cons read .nil) (Nat.le_refl _)
    | cons other others =>
      refine iff_of_false (fun applied => ?_) (Nat.not_le_of_lt (Nat.succ_lt_succ (Nat.succ_pos _)))
      cases applied with
      | cons _ later => cases later

section Lines

variable {name line tag : Text} {above : List Text}

theorem tagValues_skip (h : tagValue name line = none) :
    tagValues name (line :: above) = tagValues name above :=
  List.filterMap_cons_none h

theorem tagValues_tag (named : (Hls.tagParts tag).1 = name) :
    tagValues name (('#' :: tag) :: above) = (Hls.tagParts tag).2 :: tagValues name above :=
  List.filterMap_cons_some (tagValue_tag named)

theorem ownTags_tag (h : isUriLine line = false) :
    ownTags (line :: above) = line :: ownTags above :=
  List.takeWhile_cons_of_pos (by rw [h]; rfl)

theorem ownTags_uri (h : isUriLine line = true) : ownTags (line :: above) = [] :=
  List.takeWhile_cons_of_neg (by rw [h]; exact Bool.false_ne_true)

theorem ownTags_skip (uri : isUriLine line = false) (h : tagValue name line = none) :
    tagValues name (ownTags (line :: above)) = tagValues name (ownTags above) := by
  rw [ownTags_tag uri, tagValues_skip h]

theorem ownTags_named (named : (Hls.tagParts tag).1 = name) :
    tagValues name (ownTags (('#' :: tag) :: above)) =
      (Hls.tagParts tag).2 :: tagValues name (ownTags above) := by
  rw [ownTags_tag rfl, tagValues_tag named]

theorem tagValue_of_other {other : Text} (named : (Hls.tagParts tag).1 = other)
    (different : other ≠ name) : tagValue name ('#' :: tag) = none :=
  tagValue_other (named ▸ different)

theorem tagValue_of_not_mem (other : (Hls.tagParts tag).1 ∉ tagNames) (known : name ∈ tagNames) :
    tagValue name ('#' :: tag) = none :=
  tagValue_other fun same => other (same ▸ known)

end Lines

/-! ## The reader agrees with the lines -/

section Reading

variable {decimals : Decimals} {state next : ParseState} {above : List Text} {line tag : Text}

variable (decimals) in
/-- A segment as read: the nearest tags are its own. -/
structure SegmentFilled (segment : Segment) (line : SegmentLine) : Prop where
  uri : segment.resource.uri = line.uri
  duration : Filled (ReadsDuration decimals) segment.durationMillis
    (tagValues extInfName (ownTags line.above))
  range : Filled ReadsRange segment.resource.byteRange
    (tagValues byteRangeName (ownTags line.above))

/-- A variant as read: the nearest tag is its own. -/
def VariantFilled (variant : Variant) (line : SegmentLine) : Prop :=
  Filled (ReadsVariant line.uri) (some variant) (tagValues streamInfName (ownTags line.above))

variable (decimals) in
/-- The reader below lines without a master tag. -/
structure MediaBelow (above : List Text) (state : ParseState) : Prop where
  master : tagValues streamInfName above = []
  pending : state.pendingStreamInf = none
  duration : Filled (ReadsDuration decimals) state.pendingDuration
    (tagValues extInfName (ownTags above))
  range : Filled ReadsRange state.pendingRange (tagValues byteRangeName (ownTags above))
  segments : List.Forall₂ (SegmentFilled decimals) state.media.segments (segmentLines above)

/-- The reader below lines without a media tag. -/
structure MasterBelow (above : List Text) (state : ParseState) : Prop where
  durations : tagValues extInfName above = []
  ranges : tagValues byteRangeName above = []
  streamInf : Filled ReadsStreamInf state.pendingStreamInf
    (tagValues streamInfName (ownTags above))
  variants : List.Forall₂ VariantFilled state.master.variants (segmentLines above)
  renditions : List.Forall₂ ReadsRendition state.master.renditions
    (tagValues mediaName above.reverse)

variable (decimals) in
structure Below (above : List Text) (state : ParseState) : Prop where
  media : state.sawMasterTag = false → MediaBelow decimals above state
  master : state.sawMediaTag = false → MasterBelow above state

theorem below_start : Below decimals [] ParseState.start :=
  ⟨fun _ => ⟨rfl, rfl, rfl, rfl, .nil⟩, fun _ => ⟨rfl, rfl, rfl, .nil, .nil⟩⟩

/-- A line that is none of the tags nor a URI leaves what is below as it was. -/
theorem MediaBelow.skip (below : MediaBelow decimals above state) (same : SameReadings state next)
    (uri : isUriLine line = false) (other : ∀ name ∈ tagNames, tagValue name line = none) :
    MediaBelow decimals (line :: above) next := by
  refine ⟨?_, same.streamInf.trans below.pending, ?_, ?_, ?_⟩
  · rw [tagValues_skip (other _ (by decide))]
    exact below.master
  · rw [ownTags_skip uri (other _ (by decide)), same.duration]
    exact below.duration
  · rw [ownTags_skip uri (other _ (by decide)), same.range]
    exact below.range
  · rw [segmentLines_skip uri, same.segments]
    exact below.segments

theorem mediaValues_skip (h : tagValue mediaName line = none) :
    tagValues mediaName (line :: above).reverse = tagValues mediaName above.reverse := by
  unfold tagValues
  rw [List.reverse_cons, List.filterMap_append, List.filterMap_cons_none h, List.filterMap_nil,
    List.append_nil]

theorem MasterBelow.skip (below : MasterBelow above state) (same : SameReadings state next)
    (uri : isUriLine line = false) (other : ∀ name ∈ tagNames, tagValue name line = none) :
    MasterBelow (line :: above) next := by
  refine ⟨?_, ?_, ?_, ?_, ?_⟩
  · rw [tagValues_skip (other _ (by decide))]
    exact below.durations
  · rw [tagValues_skip (other _ (by decide))]
    exact below.ranges
  · rw [ownTags_skip uri (other _ (by decide)), same.streamInf]
    exact below.streamInf
  · rw [segmentLines_skip uri, same.variants]
    exact below.variants
  · rw [mediaValues_skip (other _ (by decide)), same.renditions]
    exact below.renditions

section

variable (below : Below decimals above state)
include below

theorem Below.skip (same : SameReadings state next)
    (uri : isUriLine line = false) (other : ∀ name ∈ tagNames, tagValue name line = none) :
    Below decimals (line :: above) next := by
  constructor
  · intro unseen
    have before : state.sawMasterTag = false := by
      rw [Bool.eq_false_iff]
      exact fun seen => Bool.eq_false_iff.mp unseen (same.seenMaster seen)
    exact (below.media before).skip same uri other
  · intro unseen
    have before : state.sawMediaTag = false := by
      rw [Bool.eq_false_iff]
      exact fun seen => Bool.eq_false_iff.mp unseen (same.seenMedia seen)
    exact (below.master before).skip same uri other

theorem Below.tagged (step : TagStep decimals state tag next) :
    Below decimals (('#' :: tag) :: above) next := by
  cases step with
  | streamInf named reads =>
    refine ⟨(fun impossible => nomatch impossible), fun unseen => ?_⟩
    have master := below.master unseen
    refine ⟨?_, ?_, ?_, ?_, ?_⟩
    · rw [tagValues_skip (tagValue_of_other named (by decide))]
      exact master.durations
    · rw [tagValues_skip (tagValue_of_other named (by decide))]
      exact master.ranges
    · rw [ownTags_named named]
      exact ⟨_, rfl, reads⟩
    · rw [segmentLines_skip rfl]
      exact master.variants
    · rw [mediaValues_skip (tagValue_of_other named (by decide))]
      exact master.renditions
  | rendition named reads =>
    refine ⟨(fun impossible => nomatch impossible), fun unseen => ?_⟩
    have master := below.master unseen
    refine ⟨?_, ?_, ?_, ?_, ?_⟩
    · rw [tagValues_skip (tagValue_of_other named (by decide))]
      exact master.durations
    · rw [tagValues_skip (tagValue_of_other named (by decide))]
      exact master.ranges
    · rw [ownTags_skip rfl (tagValue_of_other named (by decide))]
      exact master.streamInf
    · rw [segmentLines_skip rfl]
      exact master.variants
    · have last : tagValues mediaName [('#' :: tag)] = [(Hls.tagParts tag).2] := tagValues_tag named
      unfold tagValues at last ⊢
      rw [List.reverse_cons, List.filterMap_append, last]
      exact List.rel_append master.renditions (.cons reads .nil)
  | duration named reads =>
    refine ⟨fun unseen => ?_, fun impossible => nomatch impossible⟩
    have media := below.media unseen
    refine ⟨?_, media.pending, ?_, ?_, ?_⟩
    · rw [tagValues_skip (tagValue_of_other named (by decide))]
      exact media.master
    · rw [ownTags_named named]
      exact ⟨_, rfl, reads⟩
    · rw [ownTags_skip rfl (tagValue_of_other named (by decide))]
      exact media.range
    · rw [segmentLines_skip rfl]
      exact media.segments
  | range named reads =>
    refine ⟨fun unseen => ?_, fun impossible => nomatch impossible⟩
    have media := below.media unseen
    refine ⟨?_, media.pending, ?_, ?_, ?_⟩
    · rw [tagValues_skip (tagValue_of_other named (by decide))]
      exact media.master
    · rw [ownTags_skip rfl (tagValue_of_other named (by decide))]
      exact media.duration
    · rw [ownTags_named named]
      exact ⟨_, rfl, reads⟩
    · rw [segmentLines_skip rfl]
      exact media.segments
  | other name same => exact below.skip same rfl fun _ known => tagValue_of_not_mem name known

omit below in
theorem Filled.withOffset {values : List (Option Text)}
    (filled : Filled ReadsRange state.pendingRange values) :
    Filled ReadsRange
      (state.pendingRange.map fun range => ⟨range.length, Hls.pendingOffset state line⟩)
      values := by
  cases values with
  | nil =>
    rw [show state.pendingRange = none from filled]
    rfl
  | cons value others =>
    obtain ⟨range, pending, text, declared, present, parsed, length, offset⟩ := filled
    refine ⟨⟨range.length, Hls.pendingOffset state line⟩, by rw [pending]; rfl, text, declared,
      present, parsed, length, fun start member => ?_⟩
    have own := offset start member
    unfold Hls.pendingOffset
    rw [pending]
    dsimp only
    rw [own]

omit below in
theorem MediaBelow.uri (below : MediaBelow decimals above state) (uri : isUriLine line = true)
    (h : Hls.segmentLine state line = .ok next) : MediaBelow decimals (line :: above) next := by
  unfold Hls.segmentLine at h
  obtain ⟨_, h⟩ := throw_unless_ok h
  cases h
  refine ⟨?_, below.pending, ?_, ?_, ?_⟩
  · rw [tagValues_skip (tagValue_uri uri)]
    exact below.master
  · rw [ownTags_uri uri]
    rfl
  · rw [ownTags_uri uri]
    rfl
  · rw [segmentLines, if_pos uri]
    exact List.rel_append below.segments
      (.cons ⟨rfl, below.duration, below.range.withOffset⟩ .nil)

omit below in
theorem MasterBelow.uri {attributes : Attributes} (below : MasterBelow above state)
    (pending : state.pendingStreamInf = some attributes) (uri : isUriLine line = true)
    (h : Hls.variantLine state attributes line = .ok next) : MasterBelow (line :: above) next := by
  unfold Hls.variantLine at h
  obtain ⟨_, h⟩ := guard_ok h
  obtain ⟨variant, made, h⟩ := bind_ok h
  cases h
  refine ⟨?_, ?_, ?_, ?_, ?_⟩
  · rw [tagValues_skip (tagValue_uri uri)]
    exact below.durations
  · rw [tagValues_skip (tagValue_uri uri)]
    exact below.ranges
  · rw [ownTags_uri uri]
    rfl
  · rw [segmentLines, if_pos uri]
    refine List.rel_append below.variants (.cons ?_ .nil)
    have filled := below.streamInf
    unfold VariantFilled
    rw [pending] at filled
    cases shape : tagValues streamInfName (ownTags above) with
    | nil =>
      rw [shape] at filled
      cases filled
    | cons value others =>
      rw [shape] at filled
      obtain ⟨found, same, reads⟩ := filled
      cases same
      exact ⟨variant, rfl, attributes, reads, made⟩
  · rw [mediaValues_skip (tagValue_uri uri)]
    exact below.renditions

theorem Below.uri (uri : isUriLine line = true)
    (h : Hls.uriLine state line = .ok next) : Below decimals (line :: above) next := by
  unfold Hls.uriLine at h
  obtain ⟨_, h⟩ := throw_unless_ok h
  cases pending : state.pendingStreamInf with
  | none =>
    rw [pending] at h
    have seen : next.sawMediaTag = true ∧ next.sawMasterTag = state.sawMasterTag := by
      unfold Hls.segmentLine at h
      obtain ⟨_, h⟩ := throw_unless_ok h
      cases h
      exact ⟨rfl, rfl⟩
    constructor
    · intro unseen
      rw [seen.2] at unseen
      exact (below.media unseen).uri uri h
    · intro unseen
      rw [seen.1] at unseen
      cases unseen
  | some attributes =>
    rw [pending] at h
    have seen : next.sawMasterTag = true ∧ next.sawMediaTag = state.sawMediaTag := by
      unfold Hls.variantLine at h
      obtain ⟨_, h⟩ := guard_ok h
      obtain ⟨variant, _, h⟩ := bind_ok h
      cases h
      exact ⟨rfl, rfl⟩
    constructor
    · intro unseen
      rw [seen.1] at unseen
      cases unseen
    · intro unseen
      rw [seen.2] at unseen
      exact (below.master unseen).uri pending uri h

omit below in
theorem isUriLine_of_other (notBlank : line ≠ []) (notTag : ∀ tag, line ≠ '#' :: tag) :
    isUriLine line = true := by
  unfold isUriLine
  split
  · exact absurd rfl notBlank
  · exact absurd rfl (notTag _)
  · rfl

theorem Below.read
    (h : Hls.readLine decimals state line = .ok next) : Below decimals (line :: above) next := by
  unfold Hls.readLine at h
  split at h
  · cases h
    exact below.skip ⟨rfl, rfl, rfl, rfl, rfl, rfl, id, id⟩ rfl fun _ _ => tagValue_blank _
  · exact below.tagged (tagLine_step h)
  · rename_i notBlank notTag
    exact below.uri (isUriLine_of_other notBlank notTag) h

theorem Below.lines {lines : List Text}
    (h : lines.foldlM (Hls.readLine decimals) state = .ok next) :
    Below decimals (lines.reverse ++ above) next := by
  induction lines generalizing state above with
  | nil =>
    cases h
    exact below
  | cons line lines ih =>
    rw [List.foldlM_cons] at h
    obtain ⟨middle, read, h⟩ := bind_ok h
    rw [List.reverse_cons, List.append_assoc]
    exact ih (below.read read) h

end

end Reading

/-! ## Accepted playlists -/

variable (decimals : Decimals)

/-- A segment has the tags above its line, each of them. -/
structure SegmentPairs (segment : Segment) (line : SegmentLine) : Prop where
  uri : segment.resource.uri = line.uri
  duration : Applied (ReadsDuration decimals) segment.durationMillis
    (tagValues extInfName (ownTags line.above))
  range : Applied ReadsRange segment.resource.byteRange
    (tagValues byteRangeName (ownTags line.above))

/-- A variant has the tags above its line, each of them. -/
def VariantPairs (variant : Variant) (line : SegmentLine) : Prop :=
  Applied (ReadsVariant line.uri) (some variant) (tagValues streamInfName (ownTags line.above))

/-- Every URI line is a segment or a variant, in the order of the lines, with all of its
tags; no tag is left over. -/
def TagsPaired (lines : List Text) : Playlist → Prop
  | .media playlist =>
      List.Forall₂ (SegmentPairs decimals) playlist.segments (segmentLines lines.reverse) ∧
        tagValues extInfName (ownTags lines.reverse) = [] ∧
        tagValues byteRangeName (ownTags lines.reverse) = [] ∧ tagValues streamInfName lines = []
  | .master playlist =>
      List.Forall₂ VariantPairs playlist.variants (segmentLines lines.reverse) ∧
        tagValues streamInfName (ownTags lines.reverse) = [] ∧
        List.Forall₂ ReadsRendition playlist.renditions (tagValues mediaName lines) ∧
        tagValues extInfName lines = [] ∧ tagValues byteRangeName lines = []

/-- No two tags of a kind are above one URI line, and none that is about a segment is below
the last one. -/
structure TagsApart (lines : List Text) : Prop where
  each : ∀ line ∈ segmentLines lines.reverse, ∀ name ∈ [streamInfName, extInfName, byteRangeName],
    (tagValues name (ownTags line.above)).length ≤ 1
  last : ∀ name ∈ [extInfName, byteRangeName], tagValues name (ownTags lines.reverse) = []

theorem forall₂_iff_forall_mem {α β : Type} {R P : α → β → Prop} {Q : β → Prop} {left : List α}
    {right : List β} (both : List.Forall₂ R left right) (meets : ∀ a b, R a b → (P a b ↔ Q b)) :
    List.Forall₂ P left right ↔ ∀ b ∈ right, Q b := by
  induction both with
  | nil => exact iff_of_true .nil fun _ member => nomatch member
  | cons first _ ih => rw [List.forall₂_cons, meets _ _ first, ih, List.forall_mem_cons]

theorem tagValues_reverse (name : Text) (lines : List Text) :
    tagValues name lines.reverse = (tagValues name lines).reverse :=
  List.filterMap_reverse

theorem segmentLines_suffix {lines : List Text} {line : SegmentLine}
    (member : line ∈ segmentLines lines) : line.above <:+ lines := by
  induction lines with
  | nil => cases member
  | cons first lines ih =>
    unfold segmentLines at member
    split at member
    · rcases List.mem_append.mp member with earlier | last
      · exact (ih earlier).trans (List.suffix_cons _ _)
      · rw [List.mem_singleton.mp last]
        exact List.suffix_cons _ _
    · exact (ih member).trans (List.suffix_cons _ _)

theorem ownTags_none {name : Text} {lines above : List Text} (none : tagValues name lines = [])
    (part : above <:+ lines) : tagValues name (ownTags above) = [] := by
  unfold tagValues at none ⊢
  rw [List.filterMap_eq_nil_iff] at none ⊢
  intro line member
  exact none line (part.subset ((List.takeWhile_sublist _).subset member))

section Accepted

variable {decimals} {lines : List Text} {final : ParseState}

theorem MediaBelow.paired_iff (below : MediaBelow decimals lines.reverse final) :
    TagsPaired decimals lines (.media final.media) ↔ TagsApart lines := by
  have noMaster : tagValues streamInfName lines = [] := by
    have none := below.master
    rw [tagValues_reverse] at none
    exact List.reverse_eq_nil_iff.mp none
  have pairs : List.Forall₂ (SegmentPairs decimals) final.media.segments
        (segmentLines lines.reverse) ↔ ∀ line ∈ segmentLines lines.reverse,
      (tagValues extInfName (ownTags line.above)).length ≤ 1 ∧
        (tagValues byteRangeName (ownTags line.above)).length ≤ 1 := by
    apply forall₂_iff_forall_mem below.segments
    intro segment line filled
    rw [← filled.duration.applied_iff, ← filled.range.applied_iff]
    exact ⟨fun pairs => ⟨pairs.duration, pairs.range⟩,
      fun applied => ⟨filled.uri, applied.1, applied.2⟩⟩
  unfold TagsPaired
  dsimp only
  rw [pairs]
  constructor
  · intro ⟨each, durations, ranges, _⟩
    constructor
    · intro line member
      have own : tagValues streamInfName (ownTags line.above) = [] :=
        ownTags_none below.master (segmentLines_suffix member)
      simp only [List.forall_mem_cons, List.not_mem_nil, false_implies, implies_true, own,
        List.length_nil, Nat.zero_le, true_and, and_true]
      exact each line member
    · simp only [List.forall_mem_cons, List.not_mem_nil, false_implies, implies_true, and_true]
      exact ⟨durations, ranges⟩
  · intro apart
    refine ⟨fun line member => ⟨?_, ?_⟩, ?_, ?_, noMaster⟩
    · exact apart.each line member extInfName (by decide)
    · exact apart.each line member byteRangeName (by decide)
    · exact apart.last extInfName (by decide)
    · exact apart.last byteRangeName (by decide)

theorem MasterBelow.paired_iff (below : MasterBelow lines.reverse final)
    (pending : final.pendingStreamInf = none) :
    TagsPaired decimals lines (.master final.master) ↔ TagsApart lines := by
  have absent {name : Text} (none : tagValues name lines.reverse = []) :
      tagValues name lines = [] := by
    rw [tagValues_reverse] at none
    exact List.reverse_eq_nil_iff.mp none
  have last : tagValues streamInfName (ownTags lines.reverse) = [] := by
    have filled := below.streamInf
    rw [pending] at filled
    cases shape : tagValues streamInfName (ownTags lines.reverse) with
    | nil => rfl
    | cons value others =>
      rw [shape] at filled
      obtain ⟨found, same, _⟩ := filled
      cases same
  have renditions := below.renditions
  rw [List.reverse_reverse] at renditions
  have pairs : List.Forall₂ VariantPairs final.master.variants (segmentLines lines.reverse) ↔
      ∀ line ∈ segmentLines lines.reverse,
        (tagValues streamInfName (ownTags line.above)).length ≤ 1 := by
    apply forall₂_iff_forall_mem below.variants
    intro variant line filled
    exact filled.applied_iff
  unfold TagsPaired
  dsimp only
  rw [pairs]
  constructor
  · intro ⟨each, _⟩
    constructor
    · intro line member
      have part := segmentLines_suffix member
      simp only [List.forall_mem_cons, List.not_mem_nil, false_implies, implies_true,
        ownTags_none below.durations part, ownTags_none below.ranges part, List.length_nil,
        Nat.zero_le, and_true]
      exact each line member
    · simp only [List.forall_mem_cons, List.not_mem_nil, false_implies, implies_true,
        ownTags_none below.durations (List.suffix_refl _),
        ownTags_none below.ranges (List.suffix_refl _), and_true]
  · intro apart
    refine ⟨fun line member => ?_, last, renditions, absent below.durations, absent below.ranges⟩
    exact apart.each line member streamInfName (by decide)

/-- An accepted playlist keeps every tag exactly where no two of a kind are about one line
and none is left at the end. -/
theorem tags_paired_iff {text : Text} {playlist : Playlist}
    (parsed : Hls.parse decimals text = .ok playlist) :
    TagsPaired decimals (Hls.playlistLines text) playlist ↔
      TagsApart (Hls.playlistLines text) := by
  unfold Hls.parse at parsed
  obtain ⟨_, parsed⟩ := guard_ok parsed
  obtain ⟨final, folded, parsed⟩ := bind_ok parsed
  have below := below_start.lines folded
  rw [List.append_nil] at below
  unfold Hls.finishPlaylist at parsed
  obtain ⟨settled, parsed⟩ := throw_unless_ok parsed
  split at parsed
  · cases parsed
  · rename_i _ noMedia
    cases parsed
    exact (below.master noMedia).paired_iff (by simpa using settled)
  · rename_i noMaster _
    cases parsed
    exact (below.media noMaster).paired_iff
  · cases parsed

end Accepted

/-! ## Samples -/

def apartPlaylist : Text :=
  "#EXTM3U\n#EXTINF:4,\n# note\n#EXT-X-BYTERANGE:4@0\r\na.ts\n\n#EXTINF:4,\nb.ts\n".toList

theorem apart_tags_paired : ∃ playlist, Hls.parse sampleDecimals apartPlaylist = .ok playlist ∧
    TagsPaired sampleDecimals (Hls.playlistLines apartPlaylist) playlist := by
  have accepted : (Hls.parse sampleDecimals apartPlaylist).toOption.any (fun _ => true) = true := by
    decide +kernel
  obtain ⟨playlist, parsed, _⟩ := toOption_any_ok accepted
  refine ⟨playlist, parsed, (tags_paired_iff parsed).mpr ⟨?_, ?_⟩⟩
  · decide +kernel
  · decide +kernel

/-- The text ends between a segment's tag and its line. -/
def cutPlaylist : Text := "#EXTM3U\n#EXTINF:4,\na.ts\n#EXTINF:4,\n".toList

theorem cut_playlist_accepted : ∃ playlist,
    Hls.parse sampleDecimals cutPlaylist = .ok playlist ∧
      ¬ TagsPaired sampleDecimals (Hls.playlistLines cutPlaylist) playlist := by
  have accepted : (Hls.parse sampleDecimals cutPlaylist).toOption.any (fun playlist =>
      match playlist with
      | .media _ => true
      | .master _ => false) = true := by
    decide +kernel
  obtain ⟨playlist, parsed, media⟩ := toOption_any_ok accepted
  refine ⟨playlist, parsed, fun paired => ?_⟩
  cases playlist with
  | master _ => cases media
  | media playlist =>
    have left : tagValues extInfName (ownTags (Hls.playlistLines cutPlaylist).reverse) =
        [some "4,".toList] := by
      decide +kernel
    have none := paired.2.1
    rw [left] at none
    cases none

end Gunda.Stream

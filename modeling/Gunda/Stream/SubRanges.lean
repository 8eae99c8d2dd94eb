import Gunda.Stream.Encryption

/-!
# Sub-ranges of a media playlist

The bytes that the lines of a media playlist give each segment, and those its plan reads.
A segment without an offset goes on where the one before it ends, if that is a sub-range of
the same resource; otherwise the playlist has no meaning. The reader compares the lines of
the two segments, and the plan takes an offset that was not found for byte zero.
-/
namespace Gunda.Stream

open Gunda.Lib Gunda.Lib.Text
open Gunda.Core (Url)
open Gunda.Stream.Hls (ByteRange ResourceRef ParseState Segment MediaPlaylist)

/-! ## What the lines declare -/

/-- The range of an `EXT-X-BYTERANGE` line. -/
def declaredRange (line : Text) : Option ByteRange := do
  let value ← tagValue "EXT-X-BYTERANGE".toList line
  (ByteRange.parse (value.getD [])).toOption

/-- The nearest `EXT-X-BYTERANGE` above, below the segment before. -/
def rangeAbove : List Text → Option ByteRange
  | [] => none
  | line :: above => if isUriLine line then none else (declaredRange line).or (rangeAbove above)

structure DeclaredSegment (Resource : Type) where
  resource : Resource
  range : Option ByteRange
  deriving DecidableEq

/-- The media segments of a playlist text, by their lines. -/
def declaredSegments (text : Text) : List (DeclaredSegment Text) :=
  (segmentLines (Hls.playlistLines text).reverse).map fun line =>
    ⟨line.uri, rangeAbove line.above⟩

/-- The first byte of a range: its offset, or the end of the sub-range of the same resource
that the media segment before is. -/
def firstByte {Resource : Type} [DecidableEq Resource] (last : Option (Resource × Nat))
    (resource : Resource) (range : ByteRange) : Option Nat :=
  range.offset.or ((last.filter (·.1 = resource)).map (·.2))

/-- The inclusive intervals of the segments, where all of them have a meaning. -/
def specifiedIntervals {Resource : Type} [DecidableEq Resource] :
    Option (Resource × Nat) → List (DeclaredSegment Resource) → Option (List (Option (Nat × Nat)))
  | _, [] => some []
  | last, segment :: rest => match segment.range with
      | none => (specifiedIntervals none rest).map (none :: ·)
      | some range => do
          let first ← firstByte last segment.resource range
          let later ← specifiedIntervals (some (segment.resource, first + range.length)) rest
          some (some (first, first + range.length - 1) :: later)

/-- Every segment without an offset repeats the line of a sub-range before it, and no
sub-range passes the last byte that the source can name. -/
def Continued : Option (Text × Nat) → List (DeclaredSegment Text) → Prop
  | _, [] => True
  | last, segment :: rest => match segment.range with
      | none => Continued none rest
      | some range => ∃ first, firstByte last segment.resource range = some first ∧
          first + range.length ≤ 2 ^ 64 ∧
          Continued (some (segment.resource, first + range.length)) rest

/-! ## What the reader makes of them -/

/-- The end of a segment's sub-range, as the reader keeps it. -/
def readEnd (last : Option (Text × Nat)) (segment : DeclaredSegment Text) : Option (Text × Nat) :=
  segment.range.map fun range => (segment.resource,
    ((firstByte last segment.resource range).getD 0 + range.length) % 2 ^ 64)

def readRange (last : Option (Text × Nat)) (segment : DeclaredSegment Text) : Option ByteRange :=
  segment.range.map fun range => ⟨range.length, firstByte last segment.resource range⟩

/-- The ranges of segments that follow each other, and the end of the last one. -/
def readRanges (last : Option (Text × Nat)) :
    List (DeclaredSegment Text) → List (Option ByteRange) × Option (Text × Nat)
  | [] => ([], last)
  | segment :: rest =>
      let later := readRanges (readEnd last segment) rest
      (readRange last segment :: later.1, later.2)

theorem readRanges_concat (last : Option (Text × Nat)) (segments : List (DeclaredSegment Text))
    (segment : DeclaredSegment Text) :
    readRanges last (segments ++ [segment]) =
      ((readRanges last segments).1 ++ [readRange (readRanges last segments).2 segment],
        readEnd (readRanges last segments).2 segment) := by
  induction segments generalizing last with
  | nil => rfl
  | cons first rest ih =>
    rw [List.cons_append, readRanges, ih]
    rfl

/-- The declared segments of lines read so far, the last one first. -/
def declaredAbove (above : List Text) : List (DeclaredSegment Text) :=
  (segmentLines above).map fun line => ⟨line.uri, rangeAbove line.above⟩

/-- What the reader knows of sub-ranges is what the lines read declare. -/
structure Ranged (above : List Text) (state : ParseState) : Prop where
  pending : state.pendingRange = rangeAbove above
  last : state.lastRangeEnd = (readRanges none (declaredAbove above)).2
  segments : state.media.segments.map (·.resource.byteRange) =
    (readRanges none (declaredAbove above)).1

theorem ranged_start : Ranged [] ParseState.start := ⟨rfl, rfl, rfl⟩

/-- The segments and the end of the last sub-range stay as they are. -/
structure Holds (state next : ParseState) : Prop where
  last : next.lastRangeEnd = state.lastRangeEnd
  segments : next.media.segments = state.media.segments

section Reading

variable {decimals : Decimals} {state next : ParseState}
variable {line : Text} {above : List Text}

/-- The tags that are about neither a range nor a segment. -/
theorem tagLine_quiet {tag : Text} (name : (Hls.tagParts tag).1 ≠ "EXT-X-BYTERANGE".toList)
    (h : Hls.tagLine decimals state tag = .ok next) :
    next.pendingRange = state.pendingRange ∧ Holds state next := by
  unfold Hls.tagLine at h
  obtain ⟨_, h⟩ | ⟨_, h⟩ := ite_ok h
  · unfold Hls.streamInfTag at h
    obtain ⟨attributes, _, h⟩ := bind_ok h
    cases h
    exact ⟨rfl, rfl, rfl⟩
  obtain ⟨_, h⟩ | ⟨_, h⟩ := ite_ok h
  · unfold Hls.iframeStreamInfTag at h
    obtain ⟨attributes, _, h⟩ := bind_ok h
    obtain ⟨uri, _, h⟩ := bind_ok h
    obtain ⟨variant, _, h⟩ := bind_ok h
    cases h
    exact ⟨rfl, rfl, rfl⟩
  obtain ⟨_, h⟩ | ⟨_, h⟩ := ite_ok h
  · unfold Hls.mediaTag at h
    obtain ⟨attributes, _, h⟩ := bind_ok h
    obtain ⟨kind, _, h⟩ := bind_ok h
    cases h
    exact ⟨rfl, rfl, rfl⟩
  obtain ⟨_, h⟩ | ⟨_, h⟩ := ite_ok h
  · unfold Hls.extInfTag at h
    obtain ⟨text, _, h⟩ := bind_ok h
    obtain ⟨duration, _, h⟩ := bind_ok h
    cases h
    exact ⟨rfl, rfl, rfl⟩
  obtain ⟨named, _⟩ | ⟨_, h⟩ := ite_ok h
  · exact absurd named name
  obtain ⟨_, h⟩ | ⟨_, h⟩ := ite_ok h
  · unfold Hls.targetDurationTag at h
    obtain ⟨text, _, h⟩ := bind_ok h
    obtain ⟨seconds, _, h⟩ := bind_ok h
    cases h
    exact ⟨rfl, rfl, rfl⟩
  obtain ⟨_, h⟩ | ⟨_, h⟩ := ite_ok h
  · unfold Hls.mediaSequenceTag at h
    obtain ⟨text, _, h⟩ := bind_ok h
    obtain ⟨sequence, _, h⟩ := bind_ok h
    cases h
    exact ⟨rfl, rfl, rfl⟩
  obtain ⟨_, h⟩ | ⟨_, h⟩ := ite_ok h
  · cases h
    exact ⟨rfl, rfl, rfl⟩
  obtain ⟨_, h⟩ | ⟨_, h⟩ := ite_ok h
  · cases h
    exact ⟨rfl, rfl, rfl⟩
  obtain ⟨_, h⟩ | ⟨_, h⟩ := ite_ok h
  · unfold Hls.keyTag at h
    obtain ⟨key, _, h⟩ := bind_ok h
    cases h
    exact ⟨rfl, rfl, rfl⟩
  obtain ⟨_, h⟩ | ⟨_, h⟩ := ite_ok h
  · unfold Hls.mapTag at h
    obtain ⟨map, _, h⟩ := bind_ok h
    cases h
    exact ⟨rfl, rfl, rfl⟩
  · cases h
    exact ⟨rfl, rfl, rfl⟩

theorem tagLine_range {tag : Text} (name : (Hls.tagParts tag).1 = "EXT-X-BYTERANGE".toList)
    (h : Hls.tagLine decimals state tag = .ok next) :
    next.pendingRange = declaredRange ('#' :: tag) ∧ next.pendingRange.isSome = true ∧
      Holds state next := by
  have read : Hls.byteRangeTag state (Hls.tagParts tag).2 = .ok next := by
    rw [← h]
    unfold Hls.tagLine
    cases parts : Hls.tagParts tag with
    | mk named value =>
      rw [parts] at name
      cases name
      rfl
  unfold Hls.byteRangeTag at read
  obtain ⟨text, present, read⟩ := bind_ok read
  obtain ⟨range, parsed, read⟩ := bind_ok read
  cases read
  have spoken : declaredRange ('#' :: tag) = some range := by
    unfold declaredRange
    rw [tagValue_tag name, required_ok present]
    simp only [Option.bind_eq_bind, Option.bind_some, Option.getD_some, parsed, Except.toOption]
  exact ⟨spoken.symm, rfl, rfl, rfl⟩

theorem declaredRange_none (h : tagValue "EXT-X-BYTERANGE".toList line = none) :
    declaredRange line = none := by
  unfold declaredRange
  rw [h]
  rfl

theorem declaredAbove_skip (h : isUriLine line = false) :
    declaredAbove (line :: above) = declaredAbove above := by
  unfold declaredAbove
  rw [segmentLines_skip h]

theorem tagLine_pending {above : List Text} {tag : Text}
    (pending : state.pendingRange = rangeAbove above)
    (h : Hls.tagLine decimals state tag = .ok next) :
    next.pendingRange = rangeAbove (('#' :: tag) :: above) ∧ Holds state next := by
  have here : rangeAbove (('#' :: tag) :: above) =
      (declaredRange ('#' :: tag)).or (rangeAbove above) := rfl
  rw [here]
  by_cases name : (Hls.tagParts tag).1 = "EXT-X-BYTERANGE".toList
  · obtain ⟨declared, some_, holds⟩ := tagLine_range name h
    rw [← declared, Option.or_of_isSome some_]
    exact ⟨rfl, holds⟩
  · obtain ⟨kept, holds⟩ := tagLine_quiet name h
    rw [declaredRange_none (tagValue_other name), kept]
    exact ⟨pending, holds⟩

theorem Ranged.tag {above : List Text} {tag : Text} (ranged : Ranged above state)
    (h : Hls.tagLine decimals state tag = .ok next) : Ranged (('#' :: tag) :: above) next := by
  obtain ⟨pending, holds⟩ := tagLine_pending ranged.pending h
  refine ⟨pending, ?_, ?_⟩
  · rw [declaredAbove_skip rfl, holds.last]
    exact ranged.last
  · rw [declaredAbove_skip rfl, holds.segments]
    exact ranged.segments

theorem pendingOffset_eq (state : ParseState) :
    Hls.pendingOffset state line =
      state.pendingRange.bind (firstByte state.lastRangeEnd line) := by
  unfold Hls.pendingOffset firstByte
  cases state.pendingRange with
  | none => rfl
  | some range => cases offset : range.offset <;> simp [offset]

theorem Ranged.segment (ranged : Ranged above state) (uri : isUriLine line = true)
    (h : Hls.segmentLine state line = .ok next) :
    Ranged (line :: above) next := by
  have read : declaredAbove (line :: above) =
      declaredAbove above ++ [⟨line, rangeAbove above⟩] := by
    unfold declaredAbove
    rw [segmentLines, if_pos uri, List.map_append]
    rfl
  unfold Hls.segmentLine at h
  rw [pendingOffset_eq] at h
  obtain ⟨_, h⟩ := throw_unless_ok h
  cases h
  refine ⟨?_, ?_, ?_⟩
  · rw [rangeAbove, if_pos uri]
  · rw [read, readRanges_concat, ← ranged.last, ← ranged.pending]
    unfold readEnd
    cases state.pendingRange <;> rfl
  · rw [read, readRanges_concat, List.map_append, ranged.segments, ← ranged.last, ← ranged.pending]
    unfold readRange
    cases state.pendingRange <;> rfl

theorem readLine_ranged (h : Hls.readLine decimals state line = .ok next)
    (reads : Reads above state) (ranged : Ranged above state) : Ranged (line :: above) next := by
  unfold Hls.readLine at h
  split at h
  · cases h
    have blank : declaredRange [] = none := declaredRange_none (tagValue_blank _)
    refine ⟨?_, ?_, ?_⟩
    · rw [rangeAbove, blank]
      exact ranged.pending
    · rw [declaredAbove_skip rfl]
      exact ranged.last
    · rw [declaredAbove_skip rfl]
      exact ranged.segments
  · exact ranged.tag h
  · rename_i notBlank notTag
    have uri : isUriLine line = true := by
      unfold isUriLine
      split
      · exact absurd rfl notBlank
      · exact absurd rfl (notTag _)
      · rfl
    unfold Hls.uriLine at h
    obtain ⟨_, h⟩ := throw_unless_ok h
    rw [reads.pending] at h
    exact ranged.segment uri h

/-- The ranges of a playlist's segments are read from the segments its lines declare. -/
theorem parse_ranges {text : Text} {playlist : MediaPlaylist}
    (h : Hls.parse decimals text = .ok (.media playlist)) :
    playlist.segments.map (·.resource.byteRange) = (readRanges none (declaredSegments text)).1 := by
  obtain ⟨final, ⟨_, ranged⟩, rfl⟩ := parse_reads (P := fun above state => Reads above state ∧
    Ranged above state) (fun read later seen => by
      obtain ⟨before, below⟩ := readLine_step read later fun seen' => (seen seen').1
      obtain ⟨here, ranged⟩ := seen before
      exact ⟨before, below, readLine_ranged read here ranged⟩) ⟨reads_start, ranged_start⟩ h
  exact ranged.segments

end Reading

/-! ## What is planned -/

/-- The resources of a plan that are not initialization segments. -/
def mediaResources (parts : List Part) (resources : List StreamResource) : List StreamResource :=
  ((parts.zip resources).filter (!·.1.initialization)).map (·.2)

section Planning

variable {urls : UrlLibrary} {decimals : Decimals} {base : Url} {track : Nat}

theorem planSegments_ranges {current : Option ResourceRef} {segments : List Segment}
    {lines : List SegmentLine} {resources : List StreamResource}
    (reads : List.Forall₂ SegmentReads segments lines)
    (h : planSegments urls base track current segments = .ok resources) :
    (mediaResources (fetchedParts current lines) resources).map (·.byteRange) =
      segments.map (·.resource.byteRange) := by
  induction reads generalizing current resources with
  | nil => rfl
  | @cons segment line segments lines first _ ih =>
    unfold planSegments at h
    obtain ⟨initialization, planned, h⟩ := bind_ok h
    obtain ⟨media, resolved, h⟩ := bind_ok h
    obtain ⟨rest, others, h⟩ := bind_ok h
    cases h
    obtain ⟨_, _, same⟩ := resolve_ok urls resolved
    have later := ih others
    have init := first.init
    have own : (media.withTrack track).byteRange = segment.resource.byteRange := by
      rw [same]
      rfl
    rw [init] at later
    unfold planInit at planned
    unfold fetchedParts
    cases found : mapInForce line.above with
    | none =>
      rw [found] at init later
      rw [init] at planned
      cases planned
      exact congrArg₂ List.cons own later
    | some map =>
      rw [found] at init later
      rw [init] at planned
      dsimp only [Option.map_some] at planned ⊢
      by_cases repeated : current = some map.1
      · rw [if_neg (not_not_intro repeated)] at planned ⊢
        cases planned
        exact congrArg₂ List.cons own later
      · rw [if_pos repeated] at planned ⊢
        obtain ⟨resource, _, shape⟩ := map_ok planned
        rw [← shape]
        exact congrArg₂ List.cons own later

end Planning

/-! ## The intervals -/

/-- The interval a plan reads of a range. -/
def readInterval (range : ByteRange) : Nat × Nat :=
  (range.offset.getD 0, saturatingAdd (range.offset.getD 0) (range.length - 1))

/-- A range as it is parsed. -/
structure WellFormed (range : ByteRange) : Prop where
  positive : 0 < range.length
  offset : ∀ offset ∈ range.offset, offset < 2 ^ 64

theorem parse_wellFormed {value : Text} {range : ByteRange}
    (h : ByteRange.parse value = .ok range) : WellFormed range := by
  unfold ByteRange.parse at h
  obtain ⟨length, _, h⟩ := bind_ok h
  obtain ⟨nonzero, h⟩ := guard_ok h
  obtain ⟨offset, read, h⟩ := bind_ok h
  cases h
  refine ⟨Nat.pos_of_ne_zero nonzero, fun start member => ?_⟩
  cases member
  obtain ⟨_, absent⟩ | ⟨text, start', _, present, parsed⟩ := optionMapM_ok read
  · cases absent
  · cases present
    exact of_decide_eq_true (Option.filter_eq_some_iff.mp (required_ok parsed)).2

section Intervals

variable {Resource : Type} [DecidableEq Resource] {join : Text → Resource}
  {last : Option (Text × Nat)} {segment : DeclaredSegment Text} {range : ByteRange} {first : Nat}

/-- The resources the lines name. -/
def DeclaredSegment.joined (join : Text → Resource) (segment : DeclaredSegment Text) :
    DeclaredSegment Resource :=
  ⟨join segment.resource, segment.range⟩

/-- The end of the last sub-range, of the resource that a line names. -/
def joinedEnd (join : Text → Resource) (last : Option (Text × Nat)) : Option (Resource × Nat) :=
  last.map fun last => (join last.1, last.2)

/-- The end of the last sub-range as the reader keeps it. -/
def wrappedEnd (last : Option (Text × Nat)) : Option (Text × Nat) :=
  last.map fun last => (last.1, last.2 % 2 ^ 64)

/-- Where the lines give the first byte, so do the resources, and the reader has it modulo
`2 ^ 64`. -/
theorem firstByte_some {line : Text} (wellFormed : WellFormed range)
    (given : firstByte last line range = some first) :
    firstByte (joinedEnd join last) (join line) range = some first ∧
      firstByte (wrappedEnd last) line range = some (first % 2 ^ 64) := by
  unfold firstByte at given ⊢
  cases offset : range.offset with
  | some start =>
    rw [offset] at given
    cases given
    have below := wellFormed.offset first offset
    rw [Nat.mod_eq_of_lt below]
    exact ⟨rfl, rfl⟩
  | none =>
    rw [offset, Option.none_or] at given
    obtain ⟨found, kept, same⟩ := Option.map_eq_some_iff.mp given
    obtain ⟨known, named⟩ := Option.filter_eq_some_iff.mp kept
    have named : found.1 = line := of_decide_eq_true named
    rw [known, Option.none_or, Option.none_or]
    unfold joinedEnd wrappedEnd
    simp [named, same]

/-- Where the lines do not give it, the reader takes byte zero, which no sub-range ends at. -/
theorem firstByte_none {line : Text} (positive : ∀ last' ∈ last, 0 < last'.2)
    (missing : firstByte last line range = none) :
    firstByte (wrappedEnd last) line range = none ∧
      firstByte (joinedEnd join last) (join line) range ≠ some 0 := by
  unfold firstByte at missing ⊢
  obtain ⟨offset, missing⟩ := Option.or_eq_none_iff.mp missing
  rw [offset, Option.none_or, Option.none_or]
  cases last with
  | none => exact ⟨rfl, fun impossible => nomatch impossible⟩
  | some last =>
    have different : last.1 ≠ line := by
      intro same
      simp [same] at missing
    have pos := positive last rfl
    refine ⟨?_, ?_⟩
    · simp [wrappedEnd, different]
    · intro zero
      obtain ⟨found, kept, same⟩ := Option.map_eq_some_iff.mp zero
      obtain ⟨known, _⟩ := Option.filter_eq_some_iff.mp kept
      cases known
      exact absurd same (Nat.ne_of_gt pos)

/-- An interval is read as specified unless it passes the last byte. -/
theorem readInterval_eq_iff {length : Nat} (positive : 0 < length) :
    readInterval ⟨length, some (first % 2 ^ 64)⟩ = (first, first + length - 1) ↔
      first + length ≤ 2 ^ 64 := by
  unfold readInterval saturatingAdd maxU64
  rw [Prod.mk.injEq, Option.getD_some]
  dsimp only
  constructor
  · intro ⟨same, ends⟩
    omega
  · intro fits
    have below : first < 2 ^ 64 := by omega
    rw [Nat.mod_eq_of_lt below]
    omega

theorem specifiedIntervals_iff (segments : List (DeclaredSegment Text))
    (wellFormed : ∀ segment ∈ segments, ∀ range ∈ segment.range, WellFormed range)
    (positive : ∀ last' ∈ last, 0 < last'.2) :
    specifiedIntervals (joinedEnd join last) (segments.map (·.joined join)) =
        some ((readRanges (wrappedEnd last) segments).1.map (·.map readInterval)) ↔
      Continued last segments := by
  induction segments generalizing last with
  | nil => exact iff_of_true rfl trivial
  | cons segment rest ih =>
    obtain ⟨own, others⟩ := List.forall_mem_cons.mp wellFormed
    cases declared : segment.range with
    | none =>
      have later : specifiedIntervals none (rest.map (·.joined join)) =
          some ((readRanges none rest).1.map (·.map readInterval)) ↔ Continued none rest :=
        @ih none others fun _ impossible => nomatch impossible
      simp only [List.map_cons, specifiedIntervals, DeclaredSegment.joined, readRanges, readRange,
        readEnd, Continued, declared, Option.map_none]
      rw [← later, Option.map_eq_some_iff]
      constructor
      · intro ⟨intervals, specified, same⟩
        rw [← (List.cons.inj same).2]
        exact specified
      · exact fun specified => ⟨_, specified, rfl⟩
    | some range =>
      have formed := own range declared
      simp only [List.map_cons, specifiedIntervals, DeclaredSegment.joined, readRanges, readRange,
        readEnd, Continued, declared, Option.map_some, Option.bind_eq_bind]
      cases given : firstByte last segment.resource range with
      | none =>
        obtain ⟨read, specified⟩ := @firstByte_none Resource _ join last range _ positive given
        refine iff_of_false ?_ (fun ⟨first, impossible, _⟩ => nomatch impossible)
        intro same
        obtain ⟨first, known, same⟩ := Option.bind_eq_some_iff.mp same
        obtain ⟨later, _, same⟩ := Option.bind_eq_some_iff.mp same
        have starts := congrArg Prod.fst (Option.some.inj (List.cons.inj (Option.some.inj same)).1)
        rw [read] at starts
        cases starts
        exact specified known
      | some first =>
        obtain ⟨specified, read⟩ := @firstByte_some Resource _ join last range first _ formed given
        have ends : ((first % 2 ^ 64) + range.length) % 2 ^ 64 = (first + range.length) % 2 ^ 64 :=
          Nat.mod_add_mod _ _ _
        have later : specifiedIntervals
              (some (join segment.resource, first + range.length)) (rest.map (·.joined join)) =
            some ((readRanges (some (segment.resource, (first + range.length) % 2 ^ 64))
              rest).1.map (·.map readInterval)) ↔
            Continued (some (segment.resource, first + range.length)) rest :=
          @ih (some (segment.resource, first + range.length)) others fun last' member => by
            cases member
            exact Nat.add_pos_right _ formed.positive
        have interval := @readInterval_eq_iff first range.length formed.positive
        rw [specified, read, Option.bind_some, Option.getD_some, ends]
        constructor
        · intro same
          obtain ⟨intervals, specified, same⟩ := Option.bind_eq_some_iff.mp same
          obtain ⟨here, rest_⟩ := List.cons.inj (Option.some.inj same)
          have fits := interval.mp (Option.some.inj here).symm
          rw [rest_] at specified
          exact ⟨first, rfl, fits, later.mp specified⟩
        · intro ⟨start, same, fits, continued⟩
          cases same
          exact Option.bind_eq_some_iff.mpr ⟨_, later.mpr continued, by rw [interval.mpr fits]⟩

end Intervals

/-! ## The plan of a playlist -/

/-- The segments of the plan read the intervals that the lines of the text give them. -/
def ReadsDeclared (urls : UrlLibrary) (base : Url) (text : Text) (plan : TrackPlan) : Prop :=
  specifiedIntervals none ((declaredSegments text).map (·.joined (urls.join base))) =
    some ((mediaResources (playlistParts text) plan.resources).map (·.byteInterval))

theorem rangeAbove_wellFormed {above : List Text} {range : ByteRange}
    (found : range ∈ rangeAbove above) : WellFormed range := by
  induction above with
  | nil => cases found
  | cons line above ih =>
    unfold rangeAbove at found
    split at found
    · cases found
    · cases declared : declaredRange line with
      | none =>
        rw [declared, Option.none_or] at found
        exact ih found
      | some own =>
        rw [declared, Option.some_or] at found
        cases found
        obtain ⟨value, _, parsed⟩ := Option.bind_eq_some_iff.mp declared
        exact parse_wellFormed (toOption_eq_some parsed)

theorem declaredSegments_wellFormed {text : Text} :
    ∀ segment ∈ declaredSegments text, ∀ range ∈ segment.range, WellFormed range := by
  intro segment member range found
  obtain ⟨line, _, same⟩ := List.mem_map.mp member
  rw [← same] at found
  exact rangeAbove_wellFormed found

/-- A plan reads the declared intervals exactly where every range without an offset goes on
from the line before it. -/
theorem planMediaPlaylist_reads_iff {urls : UrlLibrary} {decimals : Decimals} {base : Url}
    {track : Nat} {text : Text} {playlist : MediaPlaylist} {plan : TrackPlan}
    (parsed : Hls.parse decimals text = .ok (.media playlist))
    (planned : planMediaPlaylist urls base playlist track = .ok plan) :
    ReadsDeclared urls base text plan ↔ Continued none (declaredSegments text) := by
  have reads := parse_media parsed
  unfold planMediaPlaylist at planned
  obtain ⟨_, planned⟩ := guard_ok planned
  obtain ⟨_, planned⟩ := guard_ok planned
  obtain ⟨_, planned⟩ := guard_ok planned
  obtain ⟨resources, segments, planned⟩ := bind_ok planned
  obtain ⟨built, new, planned⟩ := bind_ok planned
  cases planned
  have ranges : (mediaResources (playlistParts text) resources).map (·.byteRange) =
      (readRanges none (declaredSegments text)).1 :=
    (planSegments_ranges reads segments).trans (parse_ranges parsed)
  have intervals : (mediaResources (playlistParts text) resources).map (·.byteInterval) =
      (readRanges none (declaredSegments text)).1.map (·.map readInterval) := by
    rw [← ranges, List.map_map]
    rfl
  unfold ReadsDeclared
  rw [TrackPlan.withContainerHint_resources, TrackPlan.new_ok new, intervals]
  exact @specifiedIntervals_iff _ _ (urls.join base) none _ declaredSegments_wellFormed
    fun _ impossible => nomatch impossible

/-- A playlist of two sub-ranges, of which the second goes on from the first. -/
def subRangePlaylist (first : String) : Text :=
  ("#EXTM3U\n#EXT-X-BYTERANGE:" ++ first ++ "\na.ts\n#EXT-X-BYTERANGE:4\na.ts\n" ++
    "#EXT-X-ENDLIST").toList

theorem planned_of_intervals {text : Text} {intervals : List (Option (Nat × Nat))}
    (accepted : (Hls.parse sampleDecimals text).toOption.any (fun playlist => match playlist with
      | .master _ => false
      | .media media => (planMediaPlaylist sampleUrls sampleBase media 0).toOption.any fun plan =>
          (mediaResources (playlistParts text) plan.resources).map (·.byteInterval) = intervals) =
      true) :
    ∃ playlist plan, Hls.parse sampleDecimals text = .ok (.media playlist) ∧
      planMediaPlaylist sampleUrls sampleBase playlist 0 = .ok plan ∧
      (mediaResources (playlistParts text) plan.resources).map (·.byteInterval) = intervals := by
  obtain ⟨playlist, parsed, accepted⟩ := toOption_any_ok accepted
  cases playlist with
  | master master => cases accepted
  | media media =>
    obtain ⟨plan, planned, same⟩ := toOption_any_ok accepted
    exact ⟨media, plan, parsed, planned, of_decide_eq_true same⟩

theorem second_range_continues :
    ∃ playlist plan,
      Hls.parse sampleDecimals (subRangePlaylist "6@2") = .ok (.media playlist) ∧
      planMediaPlaylist sampleUrls sampleBase playlist 0 = .ok plan ∧
      (mediaResources (playlistParts (subRangePlaylist "6@2")) plan.resources).map
        (·.byteInterval) = [some (2, 7), some (8, 11)] ∧
      ReadsDeclared sampleUrls sampleBase (subRangePlaylist "6@2") plan := by
  obtain ⟨playlist, plan, parsed, planned, intervals⟩ :=
    @planned_of_intervals (subRangePlaylist "6@2") [some (2, 7), some (8, 11)] (by decide +kernel)
  refine ⟨playlist, plan, parsed, planned, intervals, ?_⟩
  apply (planMediaPlaylist_reads_iff parsed planned).mpr
  have declared : declaredSegments (subRangePlaylist "6@2") =
      [⟨"a.ts".toList, some ⟨6, some 2⟩⟩, ⟨"a.ts".toList, some ⟨4, none⟩⟩] := by
    decide +kernel
  rw [declared]
  exact ⟨2, rfl, by decide, 8, by decide, by decide, trivial⟩

/-- The first range has no offset and nothing to go on from: its first bytes are read. -/
theorem first_range_read_from_zero :
    ∃ playlist plan,
      Hls.parse sampleDecimals (subRangePlaylist "6") = .ok (.media playlist) ∧
      planMediaPlaylist sampleUrls sampleBase playlist 0 = .ok plan ∧
      (mediaResources (playlistParts (subRangePlaylist "6")) plan.resources).map
        (·.byteInterval) = [some (0, 5), some (6, 9)] ∧
      ¬ ReadsDeclared sampleUrls sampleBase (subRangePlaylist "6") plan := by
  obtain ⟨playlist, plan, parsed, planned, intervals⟩ :=
    @planned_of_intervals (subRangePlaylist "6") [some (0, 5), some (6, 9)] (by decide +kernel)
  refine ⟨playlist, plan, parsed, planned, intervals, fun reads => ?_⟩
  have declared : declaredSegments (subRangePlaylist "6") =
      [⟨"a.ts".toList, some ⟨6, none⟩⟩, ⟨"a.ts".toList, some ⟨4, none⟩⟩] := by
    decide +kernel
  unfold ReadsDeclared at reads
  rw [declared] at reads
  cases reads

end Gunda.Stream

import Gunda.Stream.Pairing
import Mathlib.Data.List.Induction

/-!
# Arithmetic on byte ranges

The reader adds an offset and a length for every segment with a range, and keeps the sum for
the next one. Here the sums it forms are compared with the ends that the lines declare, and
the intervals of the plan with the lengths and the first and last bytes they were made from.
-/
namespace Gunda.Stream

open Gunda.Lib Gunda.Lib.Text

open Gunda.Stream.Hls (ByteRange ResourceRef ParseState Playlist MediaPlaylist)

/-! ## The sums of the reader -/

/-- The operands of the sum a line makes the reader form. -/
def lineSum (state : ParseState) (line : Text) : Option (Nat × Nat) :=
  if isUriLine line ∧ (stripPrefix "data:".toList line).isNone ∧ state.pendingStreamInf.isNone then
    state.pendingRange.map fun range => ((Hls.pendingOffset state line).getD 0, range.length)
  else none

/-- The first lines of a text and what the reader makes of them. -/
structure ReadsUpTo (decimals : Decimals) (text : Text) (before : List Text)
    (state : ParseState) : Prop where
  header : (Hls.playlistLines text).find? (· ≠ []) = some "#EXTM3U".toList
  part : before <+: Hls.playlistLines text
  reads : before.foldlM (Hls.readLine decimals) ParseState.start = .ok state

/-- The reader comes to a line. -/
structure Reaches (decimals : Decimals) (text : Text) (before : List Text) (line : Text)
    (state : ParseState) : Prop where
  upTo : ReadsUpTo decimals text before state
  part : before ++ [line] <+: Hls.playlistLines text

/-- A sum the reader forms while it reads a text. -/
def Sums (decimals : Decimals) (text : Text) (sum : Nat × Nat) : Prop :=
  ∃ before line state, Reaches decimals text before line state ∧ lineSum state line = some sum

/-- An interval has as many bytes as its range. -/
def IntervalFits (range : ByteRange) : Prop :=
  ∀ resource : StreamResource, resource.byteRange = some range →
    ∃ first last, resource.byteInterval = some (first, last) ∧ first + range.length = last + 1

/-- The ranges of an accepted playlist: its segments' and their maps'. -/
def AcceptedRange (decimals : Decimals) (text : Text) (range : ByteRange) : Prop :=
  ∃ playlist, Hls.parse decimals text = .ok (.media playlist) ∧
    ∃ segment ∈ playlist.segments,
      segment.resource.byteRange = some range ∨ segment.init.bind (·.byteRange) = some range

/-- No sum passes the largest number, and every accepted range has an interval of its length. -/
structure ArithmeticSound (decimals : Decimals) (text : Text) : Prop where
  sums : ∀ sum, Sums decimals text sum → sum.1 + sum.2 < 2 ^ 64
  intervals : ∀ range, AcceptedRange decimals text range → IntervalFits range

/-! ## What the lines declare -/

/-- Whether the next URI line is a variant's. -/
def variantAbove (above : List Text) : Bool :=
  !(tagValues streamInfName (ownTags above)).isEmpty

/-- The end of the last segment's range, of whatever size. -/
def rangeEnd : List Text → Option (Text × Nat)
  | [] => none
  | line :: above =>
      if isUriLine line then
        if variantAbove above then rangeEnd above
        else (rangeAbove above).map fun range =>
          (line, (firstByte (rangeEnd above) line range).getD 0 + range.length)
      else rangeEnd above

/-- A segment line: the URI line of no variant and not a `data:` one. -/
structure IsSegmentLine (above : List Text) (line : Text) : Prop where
  uri : isUriLine line = true
  noData : (stripPrefix "data:".toList line).isNone = true
  plain : variantAbove above = false

/-- The range of a segment line ends below the largest number. -/
def EndFits (above : List Text) (line : Text) : Prop :=
  ∀ range ∈ rangeAbove above,
    (firstByte (rangeEnd above) line range).getD 0 + range.length < 2 ^ 64

def isMedia : Playlist → Bool
  | .media _ => true
  | .master _ => false

/-- The declared ranges fit: a segment's as far as the text is read, and a map's wherever a
segment of an accepted playlist needs it. -/
structure RangesFit (decimals : Decimals) (text : Text) : Prop where
  segments : ∀ before line state, Reaches decimals text before line state →
    IsSegmentLine before.reverse line → EndFits before.reverse line
  maps : (Hls.parse decimals text).toOption.any isMedia = true →
    ∀ line ∈ segmentLines (Hls.playlistLines text).reverse, ∀ map ∈ mapInForce line.above,
      ∀ range ∈ map.1.byteRange, range.offset.getD 0 + range.length ≤ 2 ^ 64

/-! ## The reader agrees with the lines -/

section Reading

variable {decimals : Decimals} {text line tag : Text} {before above : List Text}
  {state next : ParseState} {last : Option (Text × Nat)} {range : ByteRange}

/-- What holds at first and after every line holds wherever the reader comes to. -/
theorem ReadsUpTo.induct {P : List Text → ParseState → Prop} (start : P [] ParseState.start)
    (step : ∀ before line state next, Reaches decimals text before line state →
      P before.reverse state → Hls.readLine decimals state line = .ok next →
      P (line :: before.reverse) next)
    (upTo : ReadsUpTo decimals text before state) : P before.reverse state := by
  induction before using List.reverseRecOn generalizing state with
  | nil =>
    have same := upTo.reads
    cases same
    exact start
  | append_singleton before line ih =>
    have reads := upTo.reads
    rw [List.foldlM_append] at reads
    obtain ⟨middle, first, reads⟩ := bind_ok reads
    rw [List.foldlM_cons] at reads
    obtain ⟨final, read, same⟩ := bind_ok reads
    cases same
    have earlier : ReadsUpTo decimals text before middle :=
      ⟨upTo.header, (List.prefix_append _ _).trans upTo.part, first⟩
    rw [List.reverse_append]
    exact step before line middle _ ⟨earlier, upTo.part⟩ (ih earlier) read

/-- What the reader keeps of the lines above. -/
structure Follows (above : List Text) (state : ParseState) : Prop where
  variant : state.pendingStreamInf.isSome = variantAbove above
  pending : state.pendingRange = rangeAbove above
  last : state.lastRangeEnd = wrappedEnd (rangeEnd above)

theorem variantAbove_skip (uri : isUriLine line = false) (h : tagValue streamInfName line = none) :
    variantAbove (line :: above) = variantAbove above := by
  unfold variantAbove
  rw [ownTags_skip uri h]

theorem rangeEnd_skip (uri : isUriLine line = false) :
    rangeEnd (line :: above) = rangeEnd above := by
  rw [rangeEnd, uri]
  rfl

theorem TagStep.variant (step : TagStep decimals state tag next) :
    next.pendingStreamInf.isSome =
      (!(tagValues streamInfName ['#' :: tag]).isEmpty || state.pendingStreamInf.isSome) := by
  have none (h : tagValue streamInfName ('#' :: tag) = none) :
      tagValues streamInfName ['#' :: tag] = [] := tagValues_skip h
  cases step with
  | streamInf named _ =>
    rw [tagValues_tag named]
    rfl
  | rendition named _ =>
    rw [none (tagValue_of_other named (by decide))]
    rfl
  | duration named _ =>
    rw [none (tagValue_of_other named (by decide))]
    rfl
  | range named _ =>
    rw [none (tagValue_of_other named (by decide))]
    rfl
  | other name same =>
    rw [none (tagValue_of_not_mem name (by decide)), same.streamInf]
    rfl

theorem variantAbove_tag : variantAbove (('#' :: tag) :: above) =
    (!(tagValues streamInfName ['#' :: tag]).isEmpty || variantAbove above) := by
  unfold variantAbove
  rw [ownTags_tag rfl]
  cases h : tagValue streamInfName ('#' :: tag) with
  | none =>
    have alone : tagValues streamInfName ['#' :: tag] = [] := tagValues_skip h
    rw [tagValues_skip h, alone]
    rfl
  | some value =>
    unfold tagValues
    rw [List.filterMap_cons_some h, List.filterMap_cons_some h]
    rfl

theorem Follows.tagged (follows : Follows above state)
    (h : Hls.tagLine decimals state tag = .ok next) : Follows (('#' :: tag) :: above) next := by
  obtain ⟨pending, holds⟩ := tagLine_pending follows.pending h
  refine ⟨?_, pending, ?_⟩
  · rw [(tagLine_step h).variant, follows.variant, variantAbove_tag]
  · rw [rangeEnd_skip rfl, holds.last]
    exact follows.last

/-- The wrapped end and the end give the same sum, wrapped. -/
theorem firstByte_wrapped (length : Nat) :
    ((firstByte (wrappedEnd last) line range).getD 0 + length) % 2 ^ 64 =
      ((firstByte last line range).getD 0 + length) % 2 ^ 64 := by
  unfold firstByte wrappedEnd
  cases range.offset with
  | some offset => rfl
  | none =>
    cases last with
    | none => rfl
    | some last =>
      rw [Option.none_or, Option.none_or, Option.map_some]
      by_cases same : last.1 = line
      · simp [Option.filter, same]
      · simp [Option.filter, same]

theorem Follows.segment (follows : Follows above state) (uri : isUriLine line = true)
    (pending : state.pendingStreamInf = none) (h : Hls.segmentLine state line = .ok next) :
    Follows (line :: above) next := by
  have plain : variantAbove above = false := by
    rw [← follows.variant, pending]
    rfl
  unfold Hls.segmentLine at h
  rw [pendingOffset_eq] at h
  obtain ⟨_, h⟩ := throw_unless_ok h
  cases h
  refine ⟨?_, ?_, ?_⟩
  · unfold variantAbove
    rw [ownTags_uri uri, pending]
    rfl
  · rw [rangeAbove, if_pos uri]
  · rw [rangeEnd, if_pos uri, plain, if_neg Bool.false_ne_true, follows.pending, follows.last]
    cases rangeAbove above with
    | none => rfl
    | some range => exact congrArg (fun last => some (line, last)) (firstByte_wrapped _)

theorem Follows.variantLine {attributes : Hls.Attributes} (follows : Follows above state)
    (uri : isUriLine line = true) (pending : state.pendingStreamInf = some attributes)
    (h : Hls.variantLine state attributes line = .ok next) : Follows (line :: above) next := by
  have variant : variantAbove above = true := by
    rw [← follows.variant, pending]
    rfl
  unfold Hls.variantLine at h
  obtain ⟨noRange, h⟩ := guard_ok h
  obtain ⟨made, _, h⟩ := bind_ok h
  cases h
  refine ⟨?_, ?_, ?_⟩
  · unfold variantAbove
    rw [ownTags_uri uri]
    rfl
  · rw [rangeAbove, if_pos uri]
    simpa using noRange
  · rw [rangeEnd, if_pos uri, variant, if_pos rfl]
    exact follows.last

theorem Follows.read (follows : Follows above state)
    (h : Hls.readLine decimals state line = .ok next) : Follows (line :: above) next := by
  unfold Hls.readLine at h
  split at h
  · cases h
    refine ⟨?_, ?_, ?_⟩
    · rw [variantAbove_skip rfl (tagValue_blank _)]
      exact follows.variant
    · rw [rangeAbove, declaredRange_none (tagValue_blank _)]
      exact follows.pending
    · rw [rangeEnd_skip rfl]
      exact follows.last
  · exact follows.tagged h
  · rename_i notBlank notTag
    have uri := isUriLine_of_other notBlank notTag
    unfold Hls.uriLine at h
    obtain ⟨_, h⟩ := throw_unless_ok h
    cases pending : state.pendingStreamInf with
    | none =>
      rw [pending] at h
      exact follows.segment uri pending h
    | some attributes =>
      rw [pending] at h
      exact follows.variantLine uri pending h

theorem ReadsUpTo.follows (upTo : ReadsUpTo decimals text before state) :
    Follows before.reverse state :=
  ReadsUpTo.induct ⟨rfl, rfl, rfl⟩ (fun _ _ _ _ _ follows read => follows.read read) upTo

/-! ## Sums that fit -/

/-- The end of the last range is a number of the source. -/
def Bounded (above : List Text) : Prop := ∀ last ∈ rangeEnd above, last.2 < 2 ^ 64

theorem wrappedEnd_of_bounded (bounded : Bounded above) :
    wrappedEnd (rangeEnd above) = rangeEnd above := by
  unfold wrappedEnd
  cases found : rangeEnd above with
  | none => rfl
  | some last =>
    have below : last.2 < 2 ^ 64 := bounded last found
    rw [Option.map_some, Nat.mod_eq_of_lt below]

theorem Follows.lineSum_eq (follows : Follows above state) (bounded : Bounded above)
    (segment : IsSegmentLine above line) :
    lineSum state line = (rangeAbove above).map fun range =>
      ((firstByte (rangeEnd above) line range).getD 0, range.length) := by
  have noVariant : state.pendingStreamInf.isNone = true := by
    have same := follows.variant
    rw [segment.plain] at same
    rw [← Option.not_isSome, same]
    rfl
  unfold lineSum
  rw [if_pos ⟨segment.uri, segment.noData, noVariant⟩, pendingOffset_eq, follows.pending,
    follows.last, wrappedEnd_of_bounded bounded]
  cases rangeAbove above <;> rfl

theorem Follows.lineSum_segment {sum : Nat × Nat} (follows : Follows above state)
    (h : lineSum state line = some sum) : IsSegmentLine above line := by
  unfold lineSum at h
  split at h
  · rename_i segment
    refine ⟨segment.1, segment.2.1, ?_⟩
    rw [← follows.variant, ← Option.not_isNone, segment.2.2]
    rfl
  · cases h

theorem readLine_noData (uri : isUriLine line = true)
    (h : Hls.readLine decimals state line = .ok next) :
    (stripPrefix "data:".toList line).isNone = true := by
  unfold Hls.readLine at h
  split at h
  · cases uri
  · cases uri
  · unfold Hls.uriLine at h
    obtain ⟨noData, _⟩ := throw_unless_ok h
    rw [← Option.not_isSome, Bool.eq_false_iff.mpr noData]
    rfl

/-- Where every segment line's sum fits when those above do, all of them do. -/
theorem ReadsUpTo.bounded
    (fits : ∀ before line state, Reaches decimals text before line state →
      Bounded before.reverse → IsSegmentLine before.reverse line → EndFits before.reverse line)
    (upTo : ReadsUpTo decimals text before state) : Bounded before.reverse := by
  refine ReadsUpTo.induct (P := fun above _ => Bounded above) nofun ?_ upTo
  intro before line state next reaches bounded read last found
  rw [rangeEnd] at found
  split at found
  · rename_i uri
    split at found
    · exact bounded last found
    · rename_i plain
      obtain ⟨range, declared, same⟩ := Option.map_eq_some_iff.mp found
      have segment : IsSegmentLine before.reverse line :=
        ⟨uri, readLine_noData uri read, Bool.eq_false_iff.mpr plain⟩
      rw [← same]
      exact fits before line state reaches bounded segment range declared
  · exact bounded last found

/-- The sums fit exactly where the declared ends do. -/
theorem sums_fit_iff :
    (∀ sum, Sums decimals text sum → sum.1 + sum.2 < 2 ^ 64) ↔
      ∀ before line state, Reaches decimals text before line state →
        IsSegmentLine before.reverse line → EndFits before.reverse line := by
  constructor
  · intro sums
    have fits (before : List Text) (line : Text) (state : ParseState)
        (reaches : Reaches decimals text before line state) (bounded : Bounded before.reverse)
        (segment : IsSegmentLine before.reverse line) : EndFits before.reverse line := by
      intro range declared
      have same := reaches.upTo.follows.lineSum_eq bounded segment
      rw [declared, Option.map_some] at same
      exact sums _ ⟨before, line, state, reaches, same⟩
    intro before line state reaches segment
    exact fits before line state reaches (reaches.upTo.bounded fits) segment
  · intro fits sum ⟨before, line, state, reaches, formed⟩
    have segment := reaches.upTo.follows.lineSum_segment formed
    have bounded : Bounded before.reverse :=
      reaches.upTo.bounded fun before line state reaches _ => fits before line state reaches
    rw [reaches.upTo.follows.lineSum_eq bounded segment] at formed
    obtain ⟨range, declared, same⟩ := Option.map_eq_some_iff.mp formed
    rw [← same]
    exact fits before line state reaches segment range declared

/-! ## Intervals -/

theorem intervalFits_iff (positive : 0 < range.length) :
    IntervalFits range ↔ range.offset.getD 0 + range.length ≤ 2 ^ 64 := by
  have interval (resource : StreamResource) (same : resource.byteRange = some range) :
      resource.byteInterval = some (readInterval range) := by
    unfold StreamResource.byteInterval
    rw [same]
    rfl
  unfold readInterval saturatingAdd maxU64 at interval
  constructor
  · intro fits
    obtain ⟨first, last, found, length⟩ := fits ⟨⟨[]⟩, some range, 0⟩ rfl
    rw [interval _ rfl] at found
    cases found
    omega
  · intro below resource same
    refine ⟨_, _, interval resource same, ?_⟩
    omega

/-- A segment's range was summed up on the way. -/
theorem ReadsUpTo.summed (upTo : ReadsUpTo decimals text before state) :
    (∀ range ∈ state.pendingRange, 0 < range.length) ∧
      ∀ segment ∈ state.media.segments, ∀ range ∈ segment.resource.byteRange,
        0 < range.length ∧ Sums decimals text (range.offset.getD 0, range.length) := by
  have pending {before : List Text} {state : ParseState}
      (upTo : ReadsUpTo decimals text before state) : ∀ range ∈ state.pendingRange,
      0 < range.length := by
    intro range member
    rw [upTo.follows.pending] at member
    exact (rangeAbove_wellFormed member).positive
  refine ⟨pending upTo, ?_⟩
  refine ReadsUpTo.induct (P := fun _ state => ∀ segment ∈ state.media.segments,
    ∀ range ∈ segment.resource.byteRange,
      0 < range.length ∧ Sums decimals text (range.offset.getD 0, range.length)) nofun ?_ upTo
  intro before line state next reaches summed read
  unfold Hls.readLine at read
  split at read
  · cases read
    exact summed
  · have same : next.media.segments = state.media.segments := by
      cases tagLine_step read with
      | other _ same => exact same.segments
      | _ => rfl
    rw [same]
    exact summed
  · rename_i notBlank notTag
    have uri := isUriLine_of_other notBlank notTag
    unfold Hls.uriLine at read
    obtain ⟨noData, read⟩ := throw_unless_ok read
    split at read
    · rename_i noVariant
      unfold Hls.segmentLine at read
      obtain ⟨_, read⟩ := throw_unless_ok read
      cases read
      intro segment member found given
      rcases List.mem_append.mp member with earlier | last
      · exact summed segment earlier found given
      · rw [List.mem_singleton.mp last] at given
        obtain ⟨range, waits, same⟩ := Option.map_eq_some_iff.mp given
        rw [← same]
        refine ⟨pending reaches.upTo range waits, before, line, state, reaches, ?_⟩
        have noData : (stripPrefix "data:".toList line).isNone = true := by
          rw [← Option.not_isSome, Bool.eq_false_iff.mpr noData]
          rfl
        unfold lineSum
        rw [if_pos ⟨uri, noData, by rw [noVariant]; rfl⟩, waits]
        rfl
    · unfold Hls.variantLine at read
      obtain ⟨_, read⟩ := guard_ok read
      obtain ⟨variant, _, read⟩ := bind_ok read
      cases read
      exact summed

theorem mapInForce_positive {map : ResourceRef × List Text} (found : map ∈ mapInForce above)
    (given : range ∈ map.1.byteRange) : 0 < range.length := by
  induction above with
  | nil => cases found
  | cons line above ih =>
    unfold mapInForce at found
    split at found
    · rename_i init declared
      cases found
      obtain ⟨value, _, declared⟩ := Option.bind_eq_some_iff.mp declared
      have read := toOption_eq_some declared
      unfold Hls.declaredMap at read
      obtain ⟨_, _, read⟩ := bind_ok read
      obtain ⟨_, _, read⟩ := bind_ok read
      obtain ⟨_, _, read⟩ := bind_ok read
      obtain ⟨byteRange, parsed, read⟩ := bind_ok read
      cases read
      cases given
      obtain ⟨_, absent⟩ | ⟨text, range', _, same, parsed⟩ := optionMapM_ok parsed
      · cases absent
      · cases same
        exact (parse_wellFormed parsed).positive
    · exact ih found

theorem parse_readsUpTo {playlist : MediaPlaylist}
    (parsed : Hls.parse decimals text = .ok (.media playlist)) :
    ∃ final, ReadsUpTo decimals text (Hls.playlistLines text) final ∧ final.media = playlist := by
  obtain ⟨header, final, folded, _, same⟩ := parse_folded parsed
  exact ⟨final, ⟨header, List.prefix_refl _, folded⟩, same⟩

/-- The reader's arithmetic is sound exactly where the declared ranges fit. -/
theorem arithmetic_sound_iff (decimals : Decimals) (text : Text) :
    ArithmeticSound decimals text ↔ RangesFit decimals text := by
  constructor
  · intro sound
    refine ⟨sums_fit_iff.mp sound.sums, fun accepted line member map found range given => ?_⟩
    obtain ⟨playlist, parsed, media⟩ := toOption_any_ok accepted
    cases playlist with
    | master _ => cases media
    | media playlist =>
      obtain ⟨place, at_⟩ := List.getElem?_of_mem member
      obtain ⟨segment, there, reads⟩ := forall₂_getElem? (parse_media parsed) at_
      have init : segment.init.bind (·.byteRange) = some range := by
        rw [reads.init, Option.mem_def.mp found]
        exact given
      have fits := sound.intervals range
        ⟨playlist, parsed, segment, List.mem_of_getElem? there, .inr init⟩
      exact (intervalFits_iff (mapInForce_positive found given)).mp fits
  · intro fit
    have sums := sums_fit_iff.mpr fit.segments
    refine ⟨sums, ?_⟩
    intro range ⟨playlist, parsed, segment, member, given⟩
    rcases given with own | init
    · obtain ⟨final, upTo, same⟩ := parse_readsUpTo parsed
      rw [← same] at member
      obtain ⟨positive, summed⟩ := upTo.summed.2 segment member range own
      exact (intervalFits_iff positive).mpr (Nat.le_of_lt (sums _ summed))
    · obtain ⟨place, at_⟩ := List.getElem?_of_mem member
      obtain ⟨line, there, reads⟩ := forall₂_getElem? (parse_media parsed).flip at_
      rw [reads.init] at init
      obtain ⟨map, found, given⟩ := Option.bind_eq_some_iff.mp init
      obtain ⟨full, force, same⟩ := Option.map_eq_some_iff.mp found
      rw [← same] at given
      have accepted : (Hls.parse decimals text).toOption.any isMedia = true := by
        rw [parsed]
        rfl
      have below := fit.maps accepted line (List.mem_of_getElem? there) full force range given
      exact (intervalFits_iff (mapInForce_positive force given)).mpr below

end Reading

/-- A range of one byte at the largest offset. -/
def lastBytePlaylist : Text :=
  "#EXTM3U\n#EXT-X-BYTERANGE:1@18446744073709551615\na.ts\n".toList

theorem last_byte_overflows : ¬ ArithmeticSound sampleDecimals lastBytePlaylist := by
  intro sound
  let before := ["#EXTM3U".toList, "#EXT-X-BYTERANGE:1@18446744073709551615".toList]
  have ran : (before.foldlM (Hls.readLine sampleDecimals) ParseState.start).toOption.any
      (fun state => lineSum state "a.ts".toList = some (2 ^ 64 - 1, 1)) = true := by
    decide +kernel
  obtain ⟨state, reads, formed⟩ := toOption_any_ok ran
  have reaches : Reaches sampleDecimals lastBytePlaylist before "a.ts".toList state :=
    ⟨⟨by decide +kernel, by decide +kernel, reads⟩, by decide +kernel⟩
  have below := sound.sums _ ⟨before, _, state, reaches, of_decide_eq_true formed⟩
  exact absurd below (by decide)

/-! ## Ranges of a segment list -/

/-- A translated range has the interval it came from. -/
def SurvivesTranslation (range : Nat × Nat) : Prop :=
  ∀ resource : StreamResource, resource.byteRange = some (rangeToByteRange range) →
    resource.byteInterval = some range

theorem parseByteRange_bounds {text : Text} {first last : Nat}
    (accepted : Dash.parseByteRange text = .ok (first, last)) : first ≤ last ∧ last < 2 ^ 64 := by
  unfold Dash.parseByteRange at accepted
  obtain ⟨parts, _, accepted⟩ := bind_ok accepted
  obtain ⟨low, _, accepted⟩ := bind_ok accepted
  obtain ⟨high, parsed, accepted⟩ := bind_ok accepted
  obtain ⟨ordered, accepted⟩ := guard_ok accepted
  cases accepted
  exact ⟨Nat.le_of_not_lt ordered,
    of_decide_eq_true (Option.filter_eq_some_iff.mp (required_ok parsed)).2⟩

/-- Only the range of every byte there can be is one too long for its length. -/
theorem dash_range_survives_iff {text : Text} {first last : Nat}
    (accepted : Dash.parseByteRange text = .ok (first, last)) :
    SurvivesTranslation (first, last) ↔ ¬ (first = 0 ∧ last = 2 ^ 64 - 1) := by
  obtain ⟨ordered, below⟩ := parseByteRange_bounds accepted
  have interval (resource : StreamResource)
      (same : resource.byteRange = some (rangeToByteRange (first, last))) :
      resource.byteInterval = some (readInterval (rangeToByteRange (first, last))) := by
    unfold StreamResource.byteInterval
    rw [same]
    rfl
  unfold readInterval rangeToByteRange saturatingAdd maxU64 at interval
  dsimp only [Option.getD_some] at interval
  constructor
  · intro survives ⟨zero, largest⟩
    have back := survives ⟨⟨[]⟩, some (rangeToByteRange (first, last)), 0⟩ rfl
    rw [interval _ rfl] at back
    have ends := congrArg Prod.snd (Option.some.inj back)
    dsimp only at ends
    omega
  · intro other resource same
    rw [interval resource same]
    have ends : min (first + (min (last - first + 1) (2 ^ 64 - 1) - 1)) (2 ^ 64 - 1) = last := by
      omega
    rw [ends]

theorem ten_bytes_survive : Dash.parseByteRange "0-9".toList = .ok (0, 9) ∧
    SurvivesTranslation (0, 9) := by
  have accepted : Dash.parseByteRange "0-9".toList = .ok (0, 9) := by
    decide +kernel
  exact ⟨accepted, (dash_range_survives_iff accepted).mpr (by decide)⟩

theorem every_byte_shortened :
    Dash.parseByteRange "0-18446744073709551615".toList = .ok (0, 2 ^ 64 - 1) ∧
      ¬ SurvivesTranslation (0, 2 ^ 64 - 1) := by
  have accepted : Dash.parseByteRange "0-18446744073709551615".toList = .ok (0, 2 ^ 64 - 1) := by
    decide +kernel
  refine ⟨accepted, fun survives => ?_⟩
  have back := survives ⟨⟨[]⟩, some (rangeToByteRange (0, 2 ^ 64 - 1)), 0⟩ rfl
  exact absurd back (by decide +kernel)

end Gunda.Stream

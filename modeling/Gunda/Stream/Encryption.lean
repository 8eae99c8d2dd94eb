import Gunda.Stream.Choice

/-!
# Encryption and planning

What a playlist declares about keys is read here from its lines alone: the key
in effect and the map in force below a line, and the resources a player fetches.
The plan is compared with that reading. For an MPD the protected elements of the
document are compared with the representations the default choice plans.
-/
namespace Gunda.Stream

open Gunda.Lib Gunda.Lib.Text
open Gunda.Core (Url)
open Gunda.Stream.Xml (Node)
open Gunda.Stream.Hls (ResourceRef ParseState Segment MediaPlaylist Playlist)

/-! ## What the lines of a playlist declare -/

/-- The value of a tag line with the given name. -/
def tagValue (name line : Text) : Option (Option Text) :=
  match line with
  | '#' :: tag => if (Hls.tagParts tag).1 = name then some (Hls.tagParts tag).2 else none
  | _ => none

/-- The `METHOD` of an `EXT-X-KEY` line. -/
def declaredMethod (line : Text) : Option Text := do
  let value ← tagValue "EXT-X-KEY".toList line
  let attributes ← (Hls.parseAttributes (value.getD [])).toOption
  attributes.get "METHOD".toList

/-- The initialization segment of an `EXT-X-MAP` line. -/
def declaredInit (line : Text) : Option ResourceRef := do
  let value ← tagValue "EXT-X-MAP".toList line
  (Hls.declaredMap value).toOption

/-- Whether the nearest `EXT-X-KEY` above, if any, names a method other than
`NONE`. Lines are given nearest first. -/
def keyInEffect : List Text → Bool
  | [] => false
  | line :: above =>
      match declaredMethod line with
      | some method => !eqIgnoreAsciiCase method "NONE".toList
      | none => keyInEffect above

/-- The nearest `EXT-X-MAP` above, with the lines above it. -/
def mapInForce : List Text → Option (ResourceRef × List Text)
  | [] => none
  | line :: above =>
      match declaredInit line with
      | some map => some (map, above)
      | none => mapInForce above

def isUriLine : Text → Bool
  | [] => false
  | '#' :: _ => false
  | _ => true

/-- A media segment's line and the lines above it. -/
structure SegmentLine where
  uri : Text
  above : List Text

/-- The segment lines of a playlist, in order; its lines are given last first. -/
def segmentLines : List Text → List SegmentLine
  | [] => []
  | line :: above =>
      if isUriLine line then segmentLines above ++ [⟨line, above⟩] else segmentLines above

/-- A resource to fetch, and the lines above its declaration. -/
structure Part where
  uri : Text
  above : List Text
  initialization : Bool

/-- What a player fetches: each segment, and ahead of it the map in force where
that is not the map of the segment before. -/
def fetchedParts : Option ResourceRef → List SegmentLine → List Part
  | _, [] => []
  | current, line :: rest =>
      match mapInForce line.above with
      | some (map, aboveMap) =>
          (if current ≠ some map then [⟨map.uri, aboveMap, true⟩] else []) ++
            ⟨line.uri, line.above, false⟩ :: fetchedParts (some map) rest
      | none => ⟨line.uri, line.above, false⟩ :: fetchedParts none rest

/-- The parts of a playlist text. -/
def playlistParts (text : Text) : List Part :=
  fetchedParts none (segmentLines (Hls.playlistLines text).reverse)

/-! ## The reader agrees with the lines -/

section Reading

variable {decimals : Decimals}

/-- A segment as read, and its line. -/
structure SegmentReads (segment : Segment) (line : SegmentLine) : Prop where
  uri : segment.resource.uri = line.uri
  init : segment.init = (mapInForce line.above).map (·.1)
  key : segment.key.isSome = keyInEffect line.above
  encrypted : ∀ key ∈ segment.key, key.isEncrypted = true

/-- The reader's state below the lines read, in a playlist without master tags. -/
structure Reads (above : List Text) (state : ParseState) : Prop where
  pending : state.pendingStreamInf = none
  key : state.currentKey.isSome = keyInEffect above
  encrypted : ∀ key ∈ state.currentKey, key.isEncrypted = true
  map : state.currentMap = (mapInForce above).map (·.1)
  segments : List.Forall₂ SegmentReads state.media.segments (segmentLines above)

theorem reads_start : Reads [] ParseState.start :=
  ⟨rfl, rfl, nofun, rfl, .nil⟩

/-- Neither the segments read nor what bears on them is touched. -/
structure Keeps (state next : ParseState) : Prop where
  pending : next.pendingStreamInf = state.pendingStreamInf
  segments : next.media.segments = state.media.segments
  master : next.sawMasterTag = state.sawMasterTag

/-- A tag line either makes the playlist a master one, declares the key or the
map, or leaves all of this alone. -/
inductive TagEffect (state next : ParseState) (tag : Text) : Prop where
  | master (seen : next.sawMasterTag = true)
  | key (name : (Hls.tagParts tag).1 = "EXT-X-KEY".toList)
      (declared : Hls.declaredKey (Hls.tagParts tag).2 = .ok next.currentKey)
      (map : next.currentMap = state.currentMap) (keeps : Keeps state next)
  | map (name : (Hls.tagParts tag).1 = "EXT-X-MAP".toList)
      (declared : ∃ map, Hls.declaredMap (Hls.tagParts tag).2 = .ok map ∧
        next.currentMap = some map)
      (key : next.currentKey = state.currentKey) (keeps : Keeps state next)
  | other (notKey : (Hls.tagParts tag).1 ≠ "EXT-X-KEY".toList)
      (notMap : (Hls.tagParts tag).1 ≠ "EXT-X-MAP".toList)
      (key : next.currentKey = state.currentKey) (map : next.currentMap = state.currentMap)
      (keeps : Keeps state next)

section Tags

variable {state next : ParseState} {value : Option Text}

theorem streamInfTag_master (h : Hls.streamInfTag state value = .ok next) :
    next.sawMasterTag = true := by
  unfold Hls.streamInfTag at h
  obtain ⟨attributes, _, h⟩ := bind_ok h
  cases h
  rfl

theorem iframeStreamInfTag_master (h : Hls.iframeStreamInfTag state value = .ok next) :
    next.sawMasterTag = true := by
  unfold Hls.iframeStreamInfTag at h
  obtain ⟨attributes, _, h⟩ := bind_ok h
  obtain ⟨uri, _, h⟩ := bind_ok h
  obtain ⟨variant, _, h⟩ := bind_ok h
  cases h
  rfl

theorem mediaTag_master (h : Hls.mediaTag state value = .ok next) : next.sawMasterTag = true := by
  unfold Hls.mediaTag at h
  obtain ⟨attributes, _, h⟩ := bind_ok h
  obtain ⟨kind, _, h⟩ := bind_ok h
  cases h
  rfl

/-- What the tags about the next segment or the whole playlist leave alone. -/
structure Leaves (state next : ParseState) : Prop where
  key : next.currentKey = state.currentKey
  map : next.currentMap = state.currentMap
  keeps : Keeps state next

theorem extInfTag_leaves (h : Hls.extInfTag decimals state value = .ok next) :
    Leaves state next := by
  unfold Hls.extInfTag at h
  obtain ⟨text, _, h⟩ := bind_ok h
  obtain ⟨duration, _, h⟩ := bind_ok h
  cases h
  exact ⟨rfl, rfl, rfl, rfl, rfl⟩

theorem byteRangeTag_leaves (h : Hls.byteRangeTag state value = .ok next) :
    Leaves state next := by
  unfold Hls.byteRangeTag at h
  obtain ⟨text, _, h⟩ := bind_ok h
  obtain ⟨range, _, h⟩ := bind_ok h
  cases h
  exact ⟨rfl, rfl, rfl, rfl, rfl⟩

theorem targetDurationTag_leaves (h : Hls.targetDurationTag state value = .ok next) :
    Leaves state next := by
  unfold Hls.targetDurationTag at h
  obtain ⟨text, _, h⟩ := bind_ok h
  obtain ⟨seconds, _, h⟩ := bind_ok h
  cases h
  exact ⟨rfl, rfl, rfl, rfl, rfl⟩

theorem mediaSequenceTag_leaves (h : Hls.mediaSequenceTag state value = .ok next) :
    Leaves state next := by
  unfold Hls.mediaSequenceTag at h
  obtain ⟨text, _, h⟩ := bind_ok h
  obtain ⟨sequence, _, h⟩ := bind_ok h
  cases h
  exact ⟨rfl, rfl, rfl, rfl, rfl⟩

end Tags

theorem tagLine_effect {state next : ParseState} {tag : Text}
    (h : Hls.tagLine decimals state tag = .ok next) : TagEffect state next tag := by
  have other {name : Text} (named : (Hls.tagParts tag).1 = name)
      (different : name ≠ "EXT-X-KEY".toList ∧ name ≠ "EXT-X-MAP".toList)
      (leaves : Leaves state next) : TagEffect state next tag :=
    .other (named ▸ different.1) (named ▸ different.2) leaves.key leaves.map leaves.keeps
  unfold Hls.tagLine at h
  obtain ⟨_, h⟩ | ⟨_, h⟩ := ite_ok h
  · exact .master (streamInfTag_master h)
  obtain ⟨_, h⟩ | ⟨_, h⟩ := ite_ok h
  · exact .master (iframeStreamInfTag_master h)
  obtain ⟨_, h⟩ | ⟨_, h⟩ := ite_ok h
  · exact .master (mediaTag_master h)
  obtain ⟨named, h⟩ | ⟨_, h⟩ := ite_ok h
  · exact other named (by decide) (extInfTag_leaves h)
  obtain ⟨named, h⟩ | ⟨_, h⟩ := ite_ok h
  · exact other named (by decide) (byteRangeTag_leaves h)
  obtain ⟨named, h⟩ | ⟨_, h⟩ := ite_ok h
  · exact other named (by decide) (targetDurationTag_leaves h)
  obtain ⟨named, h⟩ | ⟨_, h⟩ := ite_ok h
  · exact other named (by decide) (mediaSequenceTag_leaves h)
  obtain ⟨named, h⟩ | ⟨_, h⟩ := ite_ok h
  · cases h
    exact other named (by decide) ⟨rfl, rfl, rfl, rfl, rfl⟩
  obtain ⟨named, h⟩ | ⟨_, h⟩ := ite_ok h
  · cases h
    exact other named (by decide) ⟨rfl, rfl, rfl, rfl, rfl⟩
  obtain ⟨named, h⟩ | ⟨notKey, h⟩ := ite_ok h
  · unfold Hls.keyTag at h
    obtain ⟨key, declared, h⟩ := bind_ok h
    cases h
    exact .key named declared rfl ⟨rfl, rfl, rfl⟩
  obtain ⟨named, h⟩ | ⟨notMap, h⟩ := ite_ok h
  · unfold Hls.mapTag at h
    obtain ⟨map, declared, h⟩ := bind_ok h
    cases h
    exact .map named ⟨map, declared, rfl⟩ rfl ⟨rfl, rfl, rfl⟩
  · cases h
    exact .other notKey notMap rfl rfl ⟨rfl, rfl, rfl⟩

/-- The key an accepted `EXT-X-KEY` declares is the one its method names. -/
theorem declaredKey_ok {value : Option Text} {key : Option Hls.KeyRef}
    (h : Hls.declaredKey value = .ok key) :
    ∃ attributes method, Hls.parseAttributes (value.getD []) = .ok attributes ∧
      attributes.get "METHOD".toList = some method ∧
      key.isSome = !eqIgnoreAsciiCase method "NONE".toList ∧
      ∀ declared ∈ key, declared.isEncrypted = true := by
  unfold Hls.declaredKey at h
  obtain ⟨text, present, h⟩ := bind_ok h
  obtain ⟨attributes, parsed, h⟩ := bind_ok h
  obtain ⟨method, named, h⟩ := bind_ok h
  cases h
  cases required_ok present
  refine ⟨attributes, method, parsed, required_ok named, ?_, ?_⟩
  · split <;> simp_all
  · intro declared member
    split at member
    · cases member
    · rename_i encrypted
      cases member
      simp only [Hls.KeyRef.isEncrypted, encrypted, Bool.not_false]

theorem tagValue_tag {name tag : Text} (h : (Hls.tagParts tag).1 = name) :
    tagValue name ('#' :: tag) = some (Hls.tagParts tag).2 := if_pos h

theorem tagValue_other {name tag : Text} (h : (Hls.tagParts tag).1 ≠ name) :
    tagValue name ('#' :: tag) = none := if_neg h

theorem tagValue_blank (name : Text) : tagValue name [] = none := rfl

variable {line : Text}

theorem tagValue_uri {name : Text} (h : isUriLine line = true) :
    tagValue name line = none := by
  unfold tagValue
  split
  · cases h
  · rfl

theorem declaredMethod_none (h : tagValue "EXT-X-KEY".toList line = none) :
    declaredMethod line = none := by
  unfold declaredMethod
  rw [h]
  rfl

theorem declaredInit_none (h : tagValue "EXT-X-MAP".toList line = none) :
    declaredInit line = none := by
  unfold declaredInit
  rw [h]
  rfl

variable {above : List Text}

/-- A line that declares neither key nor map leaves both as they were. -/
theorem keyInEffect_skip (h : tagValue "EXT-X-KEY".toList line = none) :
    keyInEffect (line :: above) = keyInEffect above := by
  simp only [keyInEffect, declaredMethod_none h]

theorem mapInForce_skip (h : tagValue "EXT-X-MAP".toList line = none) :
    mapInForce (line :: above) = mapInForce above := by
  simp only [mapInForce, declaredInit_none h]

theorem segmentLines_skip (h : isUriLine line = false) :
    segmentLines (line :: above) = segmentLines above := by
  simp only [segmentLines, h, Bool.false_eq_true, if_false]

theorem Reads.tag {state next : ParseState} {tag : Text} (reads : Reads above state)
    (effect : TagEffect state next tag) (media : next.sawMasterTag = false) :
    Reads (('#' :: tag) :: above) next := by
  have segments (same : next.media.segments = state.media.segments) :
      List.Forall₂ SegmentReads next.media.segments (segmentLines (('#' :: tag) :: above)) := by
    rw [same, segmentLines_skip rfl]
    exact reads.segments
  cases effect with
  | master seen =>
    rw [seen] at media
    cases media
  | key name declared map keeps =>
    obtain ⟨attributes, method, parsed, named, encrypted, all⟩ := declaredKey_ok declared
    have spoken : declaredMethod ('#' :: tag) = some method := by
      unfold declaredMethod
      rw [tagValue_tag name]
      simp only [Option.bind_eq_bind, Option.bind_some, parsed, Except.toOption, named]
    refine ⟨keeps.pending.trans reads.pending, ?_, all, ?_, segments keeps.segments⟩
    · simp only [keyInEffect, spoken]
      exact encrypted
    · rw [map, mapInForce_skip (tagValue_other (by rw [name]; decide))]
      exact reads.map
  | map name declared key keeps =>
    obtain ⟨map, parsed, current⟩ := declared
    have spoken : declaredInit ('#' :: tag) = some map := by
      unfold declaredInit
      rw [tagValue_tag name]
      simp only [Option.bind_eq_bind, Option.bind_some, parsed, Except.toOption]
    refine ⟨keeps.pending.trans reads.pending, ?_, ?_, ?_, segments keeps.segments⟩
    · rw [key, keyInEffect_skip (tagValue_other (by rw [name]; decide))]
      exact reads.key
    · rw [key]
      exact reads.encrypted
    · simp only [mapInForce, spoken, current, Option.map_some]
  | other notKey notMap key map keeps =>
    refine ⟨keeps.pending.trans reads.pending, ?_, ?_, ?_, segments keeps.segments⟩
    · rw [key, keyInEffect_skip (tagValue_other notKey)]
      exact reads.key
    · rw [key]
      exact reads.encrypted
    · rw [map, mapInForce_skip (tagValue_other notMap)]
      exact reads.map

theorem Reads.segment {state next : ParseState} (reads : Reads above state)
    (uri : isUriLine line = true) (h : Hls.segmentLine state line = .ok next) :
    Reads (line :: above) next := by
  unfold Hls.segmentLine at h
  obtain ⟨_, h⟩ := throw_unless_ok h
  cases h
  refine ⟨reads.pending, ?_, reads.encrypted, ?_, ?_⟩
  · rw [keyInEffect_skip (tagValue_uri uri)]
    exact reads.key
  · rw [mapInForce_skip (tagValue_uri uri)]
    exact reads.map
  · simp only [segmentLines, uri, if_true]
    exact List.rel_append reads.segments
      (.cons ⟨rfl, reads.map, reads.key, reads.encrypted⟩ .nil)

/-- Lines never clear the mark of a master playlist. -/
theorem readLine_step {state next : ParseState} (h : Hls.readLine decimals state line = .ok next)
    (media : next.sawMasterTag = false) (reads : state.sawMasterTag = false → Reads above state) :
    state.sawMasterTag = false ∧ Reads (line :: above) next := by
  unfold Hls.readLine at h
  split at h
  · cases h
    have here := reads media
    refine ⟨media, here.pending, ?_, here.encrypted, ?_, ?_⟩
    · rw [keyInEffect_skip (tagValue_blank _)]
      exact here.key
    · rw [mapInForce_skip (tagValue_blank _)]
      exact here.map
    · rw [segmentLines_skip rfl]
      exact here.segments
  · have effect := tagLine_effect h
    have before : state.sawMasterTag = false := by
      cases effect with
      | master seen =>
        rw [seen] at media
        cases media
      | key _ _ _ keeps => exact keeps.master.symm.trans media
      | map _ _ _ keeps => exact keeps.master.symm.trans media
      | other _ _ _ _ keeps => exact keeps.master.symm.trans media
    exact ⟨before, (reads before).tag effect media⟩
  · rename_i notBlank notTag
    have uri : isUriLine line = true := by
      unfold isUriLine
      split
      · exact absurd rfl notBlank
      · exact absurd rfl (notTag _)
      · rfl
    unfold Hls.uriLine at h
    obtain ⟨_, h⟩ := throw_unless_ok h
    split at h
    · have before : state.sawMasterTag = false := by
        unfold Hls.segmentLine at h
        obtain ⟨_, h⟩ := throw_unless_ok h
        cases h
        exact media
      exact ⟨before, (reads before).segment uri h⟩
    · unfold Hls.variantLine at h
      obtain ⟨_, h⟩ := guard_ok h
      obtain ⟨variant, _, h⟩ := bind_ok h
      cases h
      cases media

variable {playlist : MediaPlaylist}

/-- A media playlist is what a reader that saw no master tag made of its lines. -/
theorem parse_folded {text : Text} (h : Hls.parse decimals text = .ok (.media playlist)) :
    (Hls.playlistLines text).find? (· ≠ []) = some "#EXTM3U".toList ∧
      ∃ final, (Hls.playlistLines text).foldlM (Hls.readLine decimals) ParseState.start =
        .ok final ∧ final.sawMasterTag = false ∧ final.media = playlist := by
  unfold Hls.parse at h
  obtain ⟨header, h⟩ := guard_ok h
  obtain ⟨final, folded, h⟩ := bind_ok h
  unfold Hls.finishPlaylist at h
  obtain ⟨_, h⟩ := throw_unless_ok h
  split at h
  · cases h
  · cases h
  · rename_i noMaster _
    cases h
    exact ⟨not_not.mp header, final, folded, noMaster, rfl⟩
  · cases h

section

variable {P : List Text → ParseState → Prop}
variable (step : ∀ {above line state next}, Hls.readLine decimals state line = .ok next →
  next.sawMasterTag = false → (state.sawMasterTag = false → P above state) →
    state.sawMasterTag = false ∧ P (line :: above) next)
include step

theorem foldlM_readLine {lines : List Text} {state final : ParseState}
    (h : lines.foldlM (Hls.readLine decimals) state = .ok final)
    (media : final.sawMasterTag = false) (reads : state.sawMasterTag = false → P above state) :
    state.sawMasterTag = false ∧ P (lines.reverse ++ above) final := by
  induction lines generalizing state above with
  | nil =>
    cases h
    exact ⟨media, reads media⟩
  | cons line lines ih =>
    rw [List.foldlM_cons] at h
    obtain ⟨next, read, h⟩ := bind_ok h
    obtain ⟨later, final⟩ := ih h fun later => (step read later reads).2
    refine ⟨(step read later reads).1, ?_⟩
    rw [List.reverse_cons, List.append_assoc]
    exact final

/-- A playlist without master tags is read as its lines declare. -/
theorem parse_reads {text : Text} (start : P [] ParseState.start)
    (h : Hls.parse decimals text = .ok (.media playlist)) :
    ∃ final, P (Hls.playlistLines text).reverse final ∧ final.media = playlist := by
  obtain ⟨_, final, folded, noMaster, same⟩ := parse_folded h
  have reads := (foldlM_readLine step folded noMaster fun _ => start).2
  rw [List.append_nil] at reads
  exact ⟨final, reads, same⟩

end

theorem parse_media {text : Text} (h : Hls.parse decimals text = .ok (.media playlist)) :
    List.Forall₂ SegmentReads playlist.segments
      (segmentLines (Hls.playlistLines text).reverse) := by
  obtain ⟨final, reads, rfl⟩ := parse_reads readLine_step reads_start h
  exact reads.segments

end Reading

/-! ## What the plan of a playlist fetches -/

section Planning

variable {urls : UrlLibrary} {decimals : Decimals} {current : Option ResourceRef}

theorem planInit_parts {base : Url} {track : Nat} {segment : Segment} {line : SegmentLine}
    {resources : List StreamResource} (reads : SegmentReads segment line)
    (h : planInit urls base track current segment = .ok resources) :
    resources.map (fun resource => some resource.url) =
      ((mapInForce line.above).elim [] fun found =>
        if current ≠ some found.1 then [urls.join base found.1.uri] else []) := by
  have init := reads.init
  unfold planInit at h
  cases found : mapInForce line.above with
  | none =>
    rw [found] at init
    simp only [Option.map_none] at init
    simp only [init] at h
    cases h
    rfl
  | some map =>
    rw [found] at init
    simp only [Option.map_some] at init
    simp only [init] at h
    by_cases same : current = some map.1
    · simp only [same, ne_eq, not_true_eq_false, if_false] at h
      cases h
      simp only [Option.elim_some, same, ne_eq, not_true_eq_false, if_false, List.map_nil]
    · simp only [ne_eq, same, not_false_eq_true, if_true] at h
      obtain ⟨resource, resolved, rfl⟩ := map_ok h
      simp only [Option.elim_some, ne_eq, same, not_false_eq_true, if_true, List.map_cons,
        List.map_nil, StreamResource.withTrack_url, (resolve_ok urls resolved).1]

variable {lines : List SegmentLine}

theorem planSegments_parts {base : Url} {track : Nat} {segments : List Segment}
    {resources : List StreamResource} (reads : List.Forall₂ SegmentReads segments lines)
    (h : planSegments urls base track current segments = .ok resources) :
    resources.map (fun resource => some resource.url) =
      (fetchedParts current lines).map fun part => urls.join base part.uri := by
  induction reads generalizing current resources with
  | nil =>
    cases h
    rfl
  | @cons segment line segments lines first _ ih =>
    unfold planSegments at h
    obtain ⟨initialization, planned, h⟩ := bind_ok h
    obtain ⟨media, resolved, h⟩ := bind_ok h
    obtain ⟨rest, others, h⟩ := bind_ok h
    cases h
    have initial := planInit_parts first planned
    have joined := (resolve_ok urls resolved).1
    have later := ih others
    rw [first.init] at later
    rw [first.uri] at joined
    rw [List.map_append, List.map_cons, initial, later, StreamResource.withTrack_url, ← joined]
    conv_rhs => unfold fetchedParts
    cases found : mapInForce line.above with
    | none => rfl
    | some map =>
      by_cases same : current = some map.1
      · simp only [same, ne_eq, not_true_eq_false, if_false, Option.elim_some, Option.map_some,
          List.nil_append, List.map_cons]
      · simp only [same, ne_eq, not_false_eq_true, if_true, Option.elim_some, Option.map_some,
          List.cons_append, List.nil_append, List.map_cons]

/-- A part that is no initialization segment is the line of a media segment. -/
theorem fetchedParts_segment {part : Part} (member : part ∈ fetchedParts current lines)
    (media : part.initialization = false) :
    ∃ line ∈ lines, part.above = line.above := by
  induction lines generalizing current with
  | nil => cases member
  | cons line lines ih =>
    have later {next : Option ResourceRef} (inside : part ∈ fetchedParts next lines) :
        ∃ other ∈ line :: lines, part.above = other.above := by
      obtain ⟨other, present, same⟩ := ih inside
      exact ⟨other, List.mem_cons_of_mem _ present, same⟩
    have here (same : part = ⟨line.uri, line.above, false⟩) :
        ∃ other ∈ line :: lines, part.above = other.above :=
      ⟨line, List.mem_cons_self, by rw [same]⟩
    unfold fetchedParts at member
    split at member
    · rcases List.mem_append.mp member with initial | rest
      · split at initial
        · cases List.mem_singleton.mp initial
          cases media
        · cases initial
      · rcases List.mem_cons.mp rest with same | rest
        · exact here same
        · exact later rest
    · rcases List.mem_cons.mp member with same | rest
      · exact here same
      · exact later rest

theorem unkeyed_of_plain {segments : List Segment}
    (reads : List.Forall₂ SegmentReads segments lines)
    (plain : ∀ segment ∈ segments, segment.key.any (·.isEncrypted) = false) :
    ∀ line ∈ lines, keyInEffect line.above = false := by
  induction reads with
  | nil => exact fun line member => absurd member List.not_mem_nil
  | @cons segment line segments lines first _ ih =>
    intro other member
    rcases List.mem_cons.mp member with rfl | member
    · have unencrypted := plain segment List.mem_cons_self
      cases key : segment.key with
      | none =>
        rw [← first.key, key]
        rfl
      | some key' =>
        rw [key, Option.any_some, first.encrypted key' key] at unencrypted
        cases unencrypted
    · exact ih (fun segment inside => plain segment (List.mem_cons_of_mem _ inside)) other member

/-- The plan of a playlist fetches its parts, and these are all in the clear
exactly when its initialization segments are. -/
theorem planHls_parts {text : Text} {base : Url} {playlist : MediaPlaylist} {plan : TrackPlan}
    (parsed : Hls.parse decimals text = .ok (.media playlist))
    (planned : planHls urls decimals base (.media playlist) = .ok (.ready plan)) :
    plan.resources.map (fun resource => some resource.url) =
        (playlistParts text).map (fun part => urls.join base part.uri) ∧
      ∀ part ∈ playlistParts text, part.initialization = false → keyInEffect part.above = false := by
  have reads := parse_media parsed
  unfold planHls planHlsSelected at planned
  simp only [Option.isNone_none, if_true] at planned
  obtain ⟨_, planned, same⟩ := map_ok planned
  cases same
  unfold planMediaPlaylist at planned
  obtain ⟨plain, planned⟩ := guard_ok planned
  obtain ⟨_, planned⟩ := guard_ok planned
  obtain ⟨_, planned⟩ := guard_ok planned
  obtain ⟨resources, segments, planned⟩ := bind_ok planned
  obtain ⟨built, new, planned⟩ := bind_ok planned
  cases planned
  rw [TrackPlan.withContainerHint_resources, TrackPlan.new_ok new]
  refine ⟨planSegments_parts reads segments, fun part member media => ?_⟩
  obtain ⟨line, present, same⟩ := fetchedParts_segment member media
  rw [same]
  refine unkeyed_of_plain reads (fun segment inside => ?_) line present
  rw [Bool.not_eq_true] at plain
  exact Bool.eq_false_iff.mpr (List.any_eq_false.mp plain segment inside)

end Planning

/-! ## Which representations an MPD protects -/

/-- Whether the element declares a content protection. -/
def hasContentProtection (node : Node) : Bool := (node.child "ContentProtection".toList).isSome

/-- An adaptation set's element and one of its representations'. -/
structure Element where
  set : Node
  representation : Node

def Element.isProtected (element : Element) : Bool :=
  hasContentProtection element.set || hasContentProtection element.representation

def hasRepresentations (period : Node) : Bool :=
  (period.childrenNamed "AdaptationSet".toList).any fun set =>
    !(set.childrenNamed "Representation".toList).isEmpty

/-- The elements at the indices of an adaptation set and a representation, in
the period that has representations. -/
def elementAt (root : Node) (choice : Nat × Nat) : Option Element := do
  let period ← (root.childrenNamed "Period".toList).find? hasRepresentations
  let set ← (period.childrenNamed "AdaptationSet".toList)[choice.1]?
  let representation ← (set.childrenNamed "Representation".toList)[choice.2]?
  pure ⟨set, representation⟩

/-! ## The elements behind a plan -/

section Elements

variable {decimals : Decimals}

theorem parseAdaptationSet_representations {node : Node} {set : Dash.AdaptationSet}
    (h : Dash.parseAdaptationSet node = .ok set) :
    List.Forall₂ (fun child representation => Dash.parseRepresentation child = .ok representation)
      (node.childrenNamed "Representation".toList) set.representations := by
  unfold Dash.parseAdaptationSet at h
  obtain ⟨representations, parsed, h⟩ := bind_ok h
  obtain ⟨template, _, h⟩ := bind_ok h
  obtain ⟨list, _, h⟩ := bind_ok h
  cases h
  exact mapM_ok parsed

theorem parsePeriod_sets {node : Node} {period : Dash.Period}
    (h : Dash.parsePeriod decimals node = .ok period) :
    List.Forall₂ (fun child set => Dash.parseAdaptationSet child = .ok set)
      (node.childrenNamed "AdaptationSet".toList) period.adaptationSets := by
  unfold Dash.parsePeriod at h
  obtain ⟨duration, _, h⟩ := bind_ok h
  obtain ⟨sets, parsed, h⟩ := bind_ok h
  obtain ⟨template, _, h⟩ := bind_ok h
  obtain ⟨list, _, h⟩ := bind_ok h
  cases h
  exact mapM_ok parsed

theorem parseRoot_periods {root : Node} {mpd : Dash.Mpd}
    (h : Dash.parseRoot decimals root = .ok mpd) :
    List.Forall₂ (fun child period => Dash.parsePeriod decimals child = .ok period)
      (root.childrenNamed "Period".toList) mpd.periods := by
  unfold Dash.parseRoot at h
  obtain ⟨_, h⟩ := guard_ok h
  obtain ⟨duration, _, h⟩ := bind_ok h
  obtain ⟨minBuffer, _, h⟩ := bind_ok h
  obtain ⟨periods, parsed, h⟩ := bind_ok h
  cases h
  exact mapM_ok parsed

/-- A period has representations exactly when its element does. -/
theorem parsePeriod_isEmpty {node : Node} {period : Dash.Period}
    (h : Dash.parsePeriod decimals node = .ok period) :
    period.isEmpty = !hasRepresentations node := by
  have read := parsePeriod_sets h
  unfold Dash.Period.isEmpty hasRepresentations
  generalize node.childrenNamed "AdaptationSet".toList = nodes at read ⊢
  generalize period.adaptationSets = sets at read ⊢
  induction read with
  | nil => rfl
  | cons first _ ih =>
    have same : ∀ {nodes representations}, List.Forall₂
        (fun child representation => Dash.parseRepresentation child = .ok representation)
        nodes representations → representations.isEmpty = nodes.isEmpty := by
      intro nodes representations both
      cases both <;> rfl
    rw [List.all_cons, List.any_cons, ih, same (parseAdaptationSet_representations first),
      Bool.not_or, Bool.not_not]

variable {root : Node} {mpd : Dash.Mpd} {period : Dash.Period}
  (parsed : Dash.parseRoot decimals root = .ok mpd) (only : mpd.mediaPeriod = .ok period)

include parsed only

/-- The period planned is read from the first element that has representations. -/
theorem mediaPeriod_element :
    ∃ node, (root.childrenNamed "Period".toList).find? hasRepresentations = some node ∧
      Dash.parsePeriod decimals node = .ok period := by
  have reads := parseRoot_periods parsed
  have found : mpd.periods.find? (!·.isEmpty) = some period := by
    unfold Dash.Mpd.mediaPeriod at only
    split at only
    · cases only
    · rename_i single
      cases only
      rw [← List.head?_filter, single]
      rfl
    · cases only
  generalize mpd.periods = periods at reads found
  generalize root.childrenNamed "Period".toList = nodes at reads ⊢
  induction reads with
  | nil => cases found
  | @cons node first nodes others read _ ih =>
    rw [List.find?_cons, parsePeriod_isEmpty read, Bool.not_not] at found
    rw [List.find?_cons]
    cases populated : hasRepresentations node with
    | true =>
      simp only [populated] at found
      cases found
      exact ⟨node, rfl, read⟩
    | false =>
      simp only [populated] at found
      exact ih found

/-- A chosen representation is read from the element at its indices. -/
theorem elementAt_of_chosen {choice : Nat × Nat} {set : Dash.AdaptationSet}
    {representation : Dash.Representation}
    (at_ : period.adaptationSets[choice.1]? = some set)
    (found : set.representations[choice.2]? = some representation) :
    ∃ element, elementAt root choice = some element ∧
      Dash.parseAdaptationSet element.set = .ok set ∧
      Dash.parseRepresentation element.representation = .ok representation := by
  obtain ⟨periodNode, first, read⟩ := mediaPeriod_element parsed only
  obtain ⟨setNode, setAt, setRead⟩ := forall₂_getElem? (parsePeriod_sets read) at_
  obtain ⟨node, nodeAt, nodeRead⟩ :=
    forall₂_getElem? (parseAdaptationSet_representations setRead) found
  refine ⟨⟨setNode, node⟩, ?_, setRead, nodeRead⟩
  unfold elementAt
  simp only [first, setAt, nodeAt, Option.bind_eq_bind, Option.bind_some, Option.pure_def]

end Elements

/-! ## Ciphertext in a plan -/

section Verdict

variable (urls : UrlLibrary) (decimals : Decimals)

/-- The plan is the resources of the chosen representations, one after another. -/
def MadeOf (base : Url) (mpd : Dash.Mpd) (period : Dash.Period) (choices : List (Nat × Nat))
    (plan : TrackPlan) : Prop :=
  ∃ parts, List.Forall₂ (fun choice part =>
      planDashTrack urls base mpd period choice.1 choice.2 = .ok part) choices parts ∧
    plan.resources.map (·.url) = parts.flatMap fun part => part.resources.map (·.url)

/-- Every part of a playlist is declared where no key is in effect. -/
def PartsInClear (text : Text) : Prop :=
  ∀ part ∈ playlistParts text, keyInEffect part.above = false

/-- Every initialization segment of a playlist is declared where no key is in
effect. -/
def InitializationsInClear (text : Text) : Prop :=
  ∀ part ∈ playlistParts text, part.initialization = true → keyInEffect part.above = false

/-- No representation of these indices is protected, by itself or by its set. -/
def Unprotected (root : Node) (chosen : Nat × Nat → Prop) : Prop :=
  ∀ choice, chosen choice → ∀ element ∈ elementAt root choice, element.isProtected = false

variable {urls decimals}

theorem planDashTrack_element {root : Node} {base : Url} {mpd : Dash.Mpd} {period : Dash.Period}
    {choice : Nat × Nat} {track : TrackPlan} (parsed : Dash.parseRoot decimals root = .ok mpd)
    (only : mpd.mediaPeriod = .ok period)
    (planned : planDashTrack urls base mpd period choice.1 choice.2 = .ok track) :
    (elementAt root choice).isSome = true := by
  unfold planDashTrack planSet at planned
  obtain ⟨set, found, planned⟩ := bind_ok planned
  obtain ⟨plannedSet, ok, _⟩ := bind_ok planned
  obtain ⟨representation, at_, _⟩ := bind_ok ok
  obtain ⟨element, here, _⟩ :=
    elementAt_of_chosen parsed only (required_ok found) (required_ok at_)
  rw [here]
  rfl

theorem planDash_madeOf {base : Url} {mpd : Dash.Mpd} {plan : TrackPlan}
    (h : planDash urls base mpd = .ok plan) :
    ∃ period tracks, mpd.mediaPeriod = .ok period ∧ defaultDashTracks period = .ok tracks ∧
      MadeOf urls base mpd period tracks.choices plan := by
  unfold planDash planDashSelected at h
  obtain ⟨_, h⟩ := guard_ok h
  obtain ⟨period, only, h⟩ := bind_ok h
  obtain ⟨tracks, chosen, h⟩ := bind_ok h
  obtain ⟨videoPlan, video, h⟩ := bind_ok h
  obtain ⟨audioPlan, audio, h⟩ := bind_ok h
  refine ⟨period, tracks, only, chosen, ?_⟩
  unfold DashTracks.choices
  rcases optionMapM_ok video with ⟨noVideo, rfl⟩ | ⟨choice, track, someVideo, rfl, planned⟩ <;>
    rcases optionMapM_ok audio with ⟨noAudio, rfl⟩ | ⟨sound, heard, someAudio, rfl, also⟩
  · cases h
  · cases h
    rw [noVideo, someAudio]
    exact ⟨[plan], .cons also .nil, (List.append_nil _).symm⟩
  · cases h
    rw [someVideo, noAudio]
    exact ⟨[plan], .cons planned .nil, (List.append_nil _).symm⟩
  · rw [someVideo, someAudio]
    refine ⟨[track, heard], .cons planned (.cons also .nil), ?_⟩
    rw [TrackPlan.withAudio_ok h, List.map_append, List.map_map]
    simp only [List.flatMap_cons, List.flatMap_nil, List.append_nil]
    rfl

theorem partsInClear_iff {text : Text} {base : Url} {playlist : MediaPlaylist} {plan : TrackPlan}
    (parsed : Hls.parse decimals text = .ok (.media playlist))
    (planned : planHls urls decimals base (.media playlist) = .ok (.ready plan)) :
    PartsInClear text ↔ InitializationsInClear text := by
  constructor
  · exact fun clear part member _ => clear part member
  · intro clear part member
    cases kind : part.initialization with
    | true => exact clear part member kind
    | false => exact (planHls_parts parsed planned).2 part member kind

end Verdict

/-- The plan of a playlist fetches exactly its parts, and these are in the clear
exactly when its initialization segments are; the plan of an MPD is made of the
representations played by default, protected or not. -/
theorem planned_in_clear_iff (urls : UrlLibrary) (decimals : Decimals) (base : Url) (text : Text) :
    (∀ playlist plan, Hls.parse decimals text = .ok (.media playlist) →
      planHls urls decimals base (.media playlist) = .ok (.ready plan) →
        plan.resources.map (fun resource => some resource.url) =
            (playlistParts text).map (fun part => urls.join base part.uri) ∧
          (PartsInClear text ↔ InitializationsInClear text)) ∧
    ∀ root mpd plan, Xml.parseDocument text = .ok root → Dash.parseRoot decimals root = .ok mpd →
      planDash urls base mpd = .ok plan →
        ∃ period tracks, mpd.mediaPeriod = .ok period ∧
          defaultDashTracks period = .ok tracks ∧
          MadeOf urls base mpd period tracks.choices plan ∧
          (∀ choice ∈ tracks.choices, (elementAt root choice).isSome = true) ∧
          (Unprotected root (· ∈ tracks.choices) ↔ Unprotected root (PlayedByDefault period)) := by
  refine ⟨fun playlist plan parsed planned =>
    ⟨(planHls_parts parsed planned).1, partsInClear_iff parsed planned⟩, ?_⟩
  intro root mpd plan _ parsed planned
  obtain ⟨period, tracks, only, chosen, made⟩ := planDash_madeOf planned
  refine ⟨period, tracks, only, chosen, made, ?_, ?_⟩
  · obtain ⟨parts, each, _⟩ := made
    intro choice member
    obtain ⟨index, at_⟩ := List.mem_iff_getElem?.mp member
    obtain ⟨part, _, track⟩ := forall₂_getElem? each.flip at_
    exact planDashTrack_element parsed only track
  · unfold Unprotected
    simp only [defaultDashTracks_choices chosen]

def Hls.Playlist.isMedia : Playlist → Bool
  | .media _ => true
  | .master _ => false

def HlsOutcome.isReady : HlsOutcome → Bool
  | .ready _ => true
  | .fetchVariant .. => false

/-- The map is declared under a key, the segment below `METHOD=NONE`. -/
def keyedMapPlaylist : Text :=
  ("#EXTM3U\n#EXT-X-KEY:METHOD=AES-128,URI=\"k\"\n#EXT-X-MAP:URI=\"init.mp4\"\n" ++
    "#EXT-X-KEY:METHOD=NONE\n#EXTINF:4,\nseg.m4s\n#EXT-X-ENDLIST\n").toList

def protectedMpd : Text :=
  ("<MPD><Period duration=\"PT4S\"><AdaptationSet contentType=\"video\">" ++
    "<ContentProtection/><Representation id=\"v\" bandwidth=\"1\"><BaseURL>v.mp4</BaseURL>" ++
    "</Representation></AdaptationSet></Period></MPD>").toList

theorem keyedMapPlaylist_planned :
    ∃ playlist plan, Hls.parse sampleDecimals keyedMapPlaylist = .ok (.media playlist) ∧
      planHls sampleUrls sampleDecimals sampleBase (.media playlist) = .ok (.ready plan) := by
  have accepted : (Hls.parse sampleDecimals keyedMapPlaylist).toOption.any (fun playlist =>
      playlist.isMedia && (planHls sampleUrls sampleDecimals sampleBase playlist).toOption.any
        HlsOutcome.isReady) = true := by
    decide +kernel
  obtain ⟨playlist, parsed, accepted⟩ := toOption_any_ok accepted
  rw [Bool.and_eq_true] at accepted
  obtain ⟨outcome, planned, ready⟩ := toOption_any_ok accepted.2
  cases playlist with
  | master master => cases accepted.1
  | media media =>
    cases outcome with
    | fetchVariant url label bandwidth total audio => cases ready
    | ready plan => exact ⟨media, plan, parsed, planned⟩

theorem protectedMpd_planned :
    ∃ root mpd plan period tracks, Xml.parseDocument protectedMpd = .ok root ∧
      Dash.parseRoot sampleDecimals root = .ok mpd ∧
      planDash sampleUrls sampleBase mpd = .ok plan ∧ mpd.mediaPeriod = .ok period ∧
      defaultDashTracks period = .ok tracks ∧
      MadeOf sampleUrls sampleBase mpd period tracks.choices plan ∧
      tracks.choices.any (fun choice => (elementAt root choice).any (·.isProtected)) = true := by
  have accepted : (Xml.parseDocument protectedMpd).toOption.any (fun root =>
      (Dash.parseRoot sampleDecimals root).toOption.any fun mpd =>
        (planDash sampleUrls sampleBase mpd).toOption.isSome &&
          mpd.mediaPeriod.toOption.any fun period =>
            (defaultDashTracks period).toOption.any fun tracks =>
              tracks.choices.any fun choice => (elementAt root choice).any (·.isProtected)) =
        true := by
    decide +kernel
  obtain ⟨root, document, accepted⟩ := toOption_any_ok accepted
  obtain ⟨mpd, parsed, accepted⟩ := toOption_any_ok accepted
  rw [Bool.and_eq_true, Option.isSome_iff_exists] at accepted
  obtain ⟨⟨plan, some⟩, guarded⟩ := accepted
  have planned := toOption_eq_some some
  obtain ⟨period, tracks, only, chosen, made⟩ := planDash_madeOf planned
  rw [only] at guarded
  simp only [Except.toOption, Option.any_some, chosen] at guarded
  exact ⟨root, mpd, plan, period, tracks, document, parsed, planned, only, chosen, made, guarded⟩

theorem ciphertext_is_planned :
    (∃ playlist plan, Hls.parse sampleDecimals keyedMapPlaylist = .ok (.media playlist) ∧
      planHls sampleUrls sampleDecimals sampleBase (.media playlist) = .ok (.ready plan) ∧
      plan.resources.map (fun resource => some resource.url) =
        (playlistParts keyedMapPlaylist).map (fun part => sampleUrls.join sampleBase part.uri) ∧
      ¬ PartsInClear keyedMapPlaylist) ∧
    ∃ root mpd plan period tracks, Xml.parseDocument protectedMpd = .ok root ∧
      Dash.parseRoot sampleDecimals root = .ok mpd ∧
      planDash sampleUrls sampleBase mpd = .ok plan ∧ mpd.mediaPeriod = .ok period ∧
      defaultDashTracks period = .ok tracks ∧
      MadeOf sampleUrls sampleBase mpd period tracks.choices plan ∧
      ¬ Unprotected root (· ∈ tracks.choices) := by
  constructor
  · obtain ⟨playlist, plan, parsed, planned⟩ := keyedMapPlaylist_planned
    refine ⟨playlist, plan, parsed, planned, (planHls_parts parsed planned).1, fun clear => ?_⟩
    have keyed : (playlistParts keyedMapPlaylist).any (fun part => keyInEffect part.above) =
        true := by
      decide +kernel
    obtain ⟨part, member, encrypted⟩ := List.any_eq_true.mp keyed
    rw [clear part member] at encrypted
    cases encrypted
  · obtain ⟨root, mpd, plan, period, tracks, document, parsed, planned, only, chosen, made,
      guarded⟩ := protectedMpd_planned
    refine ⟨root, mpd, plan, period, tracks, document, parsed, planned, only, chosen, made, ?_⟩
    intro clear
    obtain ⟨choice, member, found⟩ := List.any_eq_true.mp guarded
    obtain ⟨element, here, isProtected⟩ := (Option.any_eq_true _ _).mp found
    rw [clear choice member element here] at isProtected
    cases isProtected

theorem planned_in_clear_iff_example :
    (∃ playlist plan, Hls.parse sampleDecimals keyedMapPlaylist = .ok (.media playlist) ∧
      planHls sampleUrls sampleDecimals sampleBase (.media playlist) = .ok (.ready plan) ∧
      (PartsInClear keyedMapPlaylist ↔ InitializationsInClear keyedMapPlaylist)) ∧
    ∃ root mpd plan period tracks, Xml.parseDocument protectedMpd = .ok root ∧
      Dash.parseRoot sampleDecimals root = .ok mpd ∧
      planDash sampleUrls sampleBase mpd = .ok plan ∧ mpd.mediaPeriod = .ok period ∧
      defaultDashTracks period = .ok tracks ∧
      (Unprotected root (· ∈ tracks.choices) ↔ Unprotected root (PlayedByDefault period)) := by
  constructor
  · obtain ⟨playlist, plan, parsed, planned⟩ := keyedMapPlaylist_planned
    exact ⟨playlist, plan, parsed, planned, ((planned_in_clear_iff sampleUrls sampleDecimals
      sampleBase keyedMapPlaylist).1 playlist plan parsed planned).2⟩
  · obtain ⟨root, mpd, plan, _, _, document, parsed, planned, _⟩ := protectedMpd_planned
    obtain ⟨period, tracks, only, chosen, _, _, same⟩ := (planned_in_clear_iff sampleUrls
      sampleDecimals sampleBase protectedMpd).2 root mpd plan document parsed planned
    exact ⟨root, mpd, plan, period, tracks, document, parsed, planned, only, chosen, same⟩

end Gunda.Stream

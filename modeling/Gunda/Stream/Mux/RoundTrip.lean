import Gunda.Stream.Mux.Tables

/-!
# Reading a written file back

A reader of the format finds in a written file, for every track, the samples it was given,
and at the offset of each the bytes of that sample, as long as the movie box is not too
large for the 32 bits that state its size.
-/
namespace Gunda.Stream.Mux

open Gunda.Lib Gunda.Lib.Bytes
open IsoMedia (assemble chunkColumn find findPath findPath_of_find readTrack runningOffsets)
open Gunda.Lib.IsoMedia (kind)

variable {items : List (Kind × Bytes)} {field : Bytes} {list : List Laid}

/-! ## Boxes in a box -/

/-- Boxes one after another, as they are closed. -/
def sizedAll (items : List (Kind × Bytes)) : Bytes := items.flatMap fun item => sized item.1 item.2

theorem sizedAll_append (first second : List (Kind × Bytes)) :
    sizedAll (first ++ second) = sizedAll first ++ sizedAll second := List.flatMap_append

theorem sizedAll_length_le {item : Kind × Bytes} (member : item ∈ items)
    (four : ∀ item ∈ items, item.1.length = 4) : item.2.length + 8 ≤ (sizedAll items).length := by
  induction items with
  | nil => cases member
  | cons first items ih =>
    unfold sizedAll
    rw [List.flatMap_cons, List.length_append, sized_length (four first List.mem_cons_self)]
    obtain rfl | inside := List.mem_cons.mp member
    · exact Nat.le_add_right _ _
    · have rest := ih inside fun other member => four other (List.mem_cons_of_mem _ member)
      unfold sizedAll at rest
      omega

/-- Boxes are read back from a box that 32 bits hold. -/
theorem boxes_sizedAll (four : ∀ item ∈ items, item.1.length = 4)
    (fits : (sizedAll items).length < 2 ^ 32) : IsoMedia.boxes (sizedAll items) = items := by
  have each : ∀ item ∈ items, item.1.length = 4 ∧ item.2.length + 8 < 2 ^ 32 := by
    intro item member
    have within := sizedAll_length_le member four
    exact ⟨four item member, by omega⟩
  have same : sizedAll items = items.flatMap (fun item => IsoMedia.box item.1 item.2) ++ [] := by
    rw [List.append_nil]
    refine List.flatMap_congr fun item member => sized_eq_box (each item member).2
  rw [same, IsoMedia.boxes_flatMap each, IsoMedia.boxes_nil, List.append_nil]

variable {demuxed : DemuxedTrack} {boxes : TrakBoxes} {largeOffsets : Bool}

def optional (name : Kind) (body : Option Bytes) : List (Kind × Bytes) := (body.map (name, ·)).toList

theorem sizedAll_optional (name : Kind) (body : Option Bytes) :
    sizedAll (optional name body) = sizedIfAny name body := by
  cases body with
  | none => rfl
  | some body => exact List.append_nil _

def stblItems (demuxed : DemuxedTrack) (boxes : TrakBoxes) (largeOffsets : Bool) (field : Bytes) :
    List (Kind × Bytes) :=
  [(kind "stsd", demuxed.stsd), (kind "stts", boxes.stts)] ++ optional (kind "ctts") boxes.ctts ++
    [(kind "stsc", boxes.stsc), (kind "stsz", boxes.stsz)] ++ optional (kind "stss") boxes.stss ++
    [(offsetKind largeOffsets, oneChunk field)]

theorem stblBody_eq (field : Bytes) :
    stblBody demuxed boxes largeOffsets field = sizedAll (stblItems demuxed boxes largeOffsets field) := by
  unfold stblItems
  rw [sizedAll_append, sizedAll_append, sizedAll_append, sizedAll_append, sizedAll_optional,
    sizedAll_optional]
  simp only [stblBody, sizedAll, List.flatMap_cons, List.flatMap_nil, List.append_nil,
    List.append_assoc]

theorem stblItems_four (field : Bytes) :
    ∀ item ∈ stblItems demuxed boxes largeOffsets field, item.1.length = 4 := by
  intro item member
  unfold stblItems optional at member
  simp only [List.mem_append, List.mem_cons, List.not_mem_nil, or_false, Option.mem_toList,
    Option.map_eq_some_iff] at member
  obtain ((((rfl | rfl) | ⟨_, _, rfl⟩) | rfl | rfl) | ⟨_, _, rfl⟩) | rfl := member
  · rfl
  · rfl
  · rfl
  · rfl
  · rfl
  · rfl
  · exact offsetKind_length largeOffsets

/-- What is found in the table box of a track. -/
theorem find_stbl (fits : (stblBody demuxed boxes largeOffsets field).length < 2 ^ 32)
    (name : Kind) : find name (stblBody demuxed boxes largeOffsets field) =
      ((stblItems demuxed boxes largeOffsets field).find? (·.1 = name)).map Prod.snd := by
  unfold find
  rw [stblBody_eq] at fits ⊢
  rw [boxes_sizedAll (stblItems_four field) fits]

theorem stbl_columns (field : Bytes) :
    let found (name : String) :=
      ((stblItems demuxed boxes largeOffsets field).find? (·.1 = kind name)).map Prod.snd
    found "stts" = some boxes.stts ∧ found "ctts" = boxes.ctts ∧ found "stsc" = some boxes.stsc ∧
      found "stsz" = some boxes.stsz ∧ found "stss" = boxes.stss ∧
      found "stco" = (if largeOffsets then none else some (oneChunk field)) ∧
      found "co64" = (if largeOffsets then some (oneChunk field) else none) := by
  unfold stblItems optional
  cases boxes.ctts <;> cases boxes.stss <;> cases largeOffsets <;>
    exact ⟨rfl, rfl, rfl, rfl, rfl, rfl, rfl⟩

/-! ## Tracks -/

/-- The samples as a reader has them, when the first lies at an offset and the others after
it. -/
def placedFrom : (offset : Nat) → List Sample → List IsoMedia.Sample
  | _, [] => []
  | offset, sample :: rest =>
      ⟨offset, sample.size, sample.duration, sample.compositionOffset, sample.sync⟩ ::
        placedFrom (offset + sample.size) rest

theorem assemble_columns (offset : Nat) (samples : List Sample) :
    assemble (runningOffsets offset (samples.map (·.size))) (samples.map (·.size))
      (samples.map (·.duration)) (samples.map (·.compositionOffset)) (samples.map (·.sync)) =
        some (placedFrom offset samples) := by
  induction samples generalizing offset with
  | nil => rfl
  | cons sample samples ih =>
    simp only [List.map_cons, runningOffsets, assemble, ih, Option.map_some,
      placedFrom]

/-- The samples of a track are read back from its tables. -/
theorem readSamples_stbl {start : Nat} (builds : Builds demuxed boxes)
    (each : ∀ sample ∈ demuxed.samples, sample.Fits)
    (within : start < 256 ^ offsetWidth largeOffsets)
    (fits : (stblBody demuxed boxes largeOffsets (be (offsetWidth largeOffsets) start)).length < 2 ^ 32) :
    IsoMedia.readSamples (stblBody demuxed boxes largeOffsets (be (offsetWidth largeOffsets) start)) =
      some (placedFrom start demuxed.samples) := by
  obtain ⟨runs, durations, expanded⟩ := buildStts_ok each builds.stts
  obtain ⟨stts, ctts, stsc, stsz, stss, stco, co64⟩ :=
    @stbl_columns demuxed boxes largeOffsets (be (offsetWidth largeOffsets) start)
  have chunk : chunkColumn
      (if largeOffsets then none else some (oneChunk (be (offsetWidth largeOffsets) start)))
      (if largeOffsets then some (oneChunk (be (offsetWidth largeOffsets) start)) else none) =
      some [start] := by
    have read := @oneChunk_read largeOffsets start within
    cases largeOffsets with
    | true =>
      rw [if_pos rfl, if_pos rfl, chunkColumn, Option.bind_some]
      exact read
    | false =>
      rw [if_neg Bool.false_ne_true, chunkColumn]
      exact read
  have count : (demuxed.samples.map (·.size)).length = demuxed.samples.length := List.length_map _
  unfold IsoMedia.readSamples
  simp only [find_stbl fits, stts, ctts, stsc, stsz, stss, stco, co64, Option.bind_eq_bind,
    Option.bind_some, buildStsz_ok each builds.stsz, durations, count,
    buildCtts_ok each builds.ctts, buildStss_ok builds.stss, buildStsc_ok builds.stsc, chunk, expanded]
  rw [← count, IsoMedia.placesFrom_one]
  exact assemble_columns start demuxed.samples

/-! ## The timescale -/

theorem readBe_take_one (bytes : Bytes) : readBe (bytes.take 1) = (bytes.head?.getD 0).toNat := by
  cases bytes with
  | nil => rfl
  | cons byte bytes => simp [readBe]

/-- The timescale of a media header, found where its version puts it. -/
theorem readTimescale_eq {body : Bytes} {timescale width : Nat}
    (times : width = if readBe (body.take 1) = 1 then 16 else 8)
    (h : readTimescale body = some timescale) : timescale = readBe (slice body (4 + width) 4) := by
  obtain ⟨rest, h⟩ := Reader.of_ok (toOption_eq_some h)
  obtain ⟨⟨version, flags⟩, bytes, first, h⟩ := Reader.bind_ok h
  obtain ⟨⟨⟩, after, skipped, h⟩ := Reader.bind_ok h
  obtain ⟨byte, bytes₁, readVersion, first⟩ := Reader.bind_ok first
  obtain ⟨mask, bytes₂, readFlags, first⟩ := Reader.bind_ok first
  cases first
  obtain ⟨taken, took, versioned⟩ := Reader.map_ok readVersion
  obtain ⟨-, took⟩ := throw_unless_ok took
  cases took
  obtain ⟨taken', took', -⟩ := Reader.map_ok readFlags
  obtain ⟨-, took'⟩ := throw_unless_ok took'
  cases took'
  obtain ⟨dropped, left, skip, done⟩ := Reader.bind_ok skipped
  obtain ⟨-, skip⟩ := throw_unless_ok skip
  cases skip
  cases done
  obtain ⟨field, took'', value⟩ := Reader.map_ok h
  obtain ⟨-, took''⟩ := throw_unless_ok took''
  cases took''
  dsimp only at value versioned
  rw [versioned] at times
  rw [← times, List.drop_drop, List.drop_drop] at value
  rw [← value]
  unfold slice
  have order : 1 + 3 + width = 4 + width := by omega
  rw [← Nat.add_assoc, order]

/-- A track keeps its timescale. -/
theorem timescale_kept {mdhd : Bytes} {duration : Nat} {after : Bytes}
    (h : putDuration mdhd (mediaHeaderField (mdhd.head?.getD 0)) duration = .ok after) :
    ∃ timescale, IsoMedia.mediaTimescale.of after = some timescale ∧
      ∀ stated, readTimescale mdhd = some stated → timescale = stated := by
  have placed : ∃ width, (width = if readBe (mdhd.take 1) = 1 then 16 else 8) ∧
      (mediaHeaderField (mdhd.head?.getD 0)).1 = 8 + width ∧
      ((mediaHeaderField (mdhd.head?.getD 0)).2 = 8 ∨
        (mediaHeaderField (mdhd.head?.getD 0)).2 = 4) := by
    rw [readBe_take_one]
    unfold mediaHeaderField
    by_cases long : mdhd.head?.getD 0 = 1
    · rw [if_pos long, long]
      exact ⟨16, rfl, rfl, .inl rfl⟩
    · have short : (mdhd.head?.getD 0).toNat ≠ 1 := fun one => long (UInt8.toNat_inj.mp one)
      rw [if_neg long, if_neg short]
      exact ⟨8, rfl, rfl, .inr rfl⟩
  obtain ⟨width, times, offset, eight⟩ := placed
  obtain ⟨within, length, front⟩ := putDuration_ok eight h
  rw [offset] at within front
  have first : after.take 1 = mdhd.take 1 := by
    have one := congrArg (List.take 1) front
    rwa [List.take_take, List.take_take, Nat.min_eq_left (by omega)] at one
  have same : slice after (4 + width) 4 = slice mdhd (4 + width) 4 := by
    have inside : 4 + width + 4 ≤ 8 + width := by omega
    rw [← slice_take inside, front, slice_take inside]
  rw [← first] at times
  refine ⟨_, IsoMedia.mediaTimescale_of times (by omega), fun stated told => ?_⟩
  rw [first] at times
  rw [same, readTimescale_eq times told]

/-! ## Movies -/

def minfItems (demuxed : DemuxedTrack) (boxes : TrakBoxes) (largeOffsets : Bool) (field : Bytes) :
    List (Kind × Bytes) :=
  [demuxed.mediaHeader, (kind "dinf", demuxed.dinf),
    (kind "stbl", stblBody demuxed boxes largeOffsets field)]

def mdiaItems (demuxed : DemuxedTrack) (boxes : TrakBoxes) (largeOffsets : Bool) (field : Bytes) :
    List (Kind × Bytes) :=
  [(kind "mdhd", boxes.mdhd), (kind "hdlr", demuxed.hdlr),
    (kind "minf", minfBody demuxed boxes largeOffsets field)]

def trakItems (demuxed : DemuxedTrack) (boxes : TrakBoxes) (largeOffsets : Bool) (field : Bytes) :
    List (Kind × Bytes) :=
  [(kind "tkhd", boxes.tkhd), (kind "mdia", mdiaBody demuxed boxes largeOffsets field)]

theorem minfBody_eq (field : Bytes) :
    minfBody demuxed boxes largeOffsets field = sizedAll (minfItems demuxed boxes largeOffsets field) := by
  simp only [minfBody, minfItems, sizedAll, List.flatMap_cons, List.flatMap_nil, List.append_nil,
    List.append_assoc]

theorem mdiaBody_eq (field : Bytes) :
    mdiaBody demuxed boxes largeOffsets field = sizedAll (mdiaItems demuxed boxes largeOffsets field) := by
  simp only [mdiaBody, mdiaItems, sizedAll, List.flatMap_cons, List.flatMap_nil, List.append_nil,
    List.append_assoc]

theorem trakBody_eq (field : Bytes) :
    trakBody demuxed boxes largeOffsets field = sizedAll (trakItems demuxed boxes largeOffsets field) := by
  simp only [trakBody, trakItems, sizedAll, List.flatMap_cons, List.flatMap_nil, List.append_nil]

theorem find_sizedAll (four : ∀ item ∈ items, item.1.length = 4)
    (fits : (sizedAll items).length < 2 ^ 32) (name : Kind) :
    find name (sizedAll items) = (items.find? (·.1 = name)).map Prod.snd := by
  unfold find
  rw [boxes_sizedAll four fits]

/-- A track that was read from a file, by one of the two demuxers. -/
structure DemuxedTrack.Sound (demuxed : DemuxedTrack) : Prop where
  mediaHeader : demuxed.mediaHeader.1 ∈ mediaHeaderKinds
  samples : ∀ sample ∈ demuxed.samples, sample.Fits

theorem DemuxedTrack.Sound.four (sound : demuxed.Sound) : demuxed.mediaHeader.1.length = 4 := by
  have member := sound.mediaHeader
  unfold mediaHeaderKinds at member
  simp only [List.mem_cons, List.not_mem_nil, or_false] at member
  obtain named | named | named := member <;> rw [named] <;> rfl

theorem DemuxedTrack.Sound.ne_stbl (sound : demuxed.Sound) : demuxed.mediaHeader.1 ≠ kind "stbl" := by
  have member := sound.mediaHeader
  unfold mediaHeaderKinds at member
  simp only [List.mem_cons, List.not_mem_nil, or_false] at member
  obtain named | named | named := member <;> rw [named] <;> decide

/-- The first box of a type is found, and 32 bits hold what they hold around it. -/
theorem find_inside {name : Kind} {inner : Bytes} (four : ∀ item ∈ items, item.1.length = 4)
    (fits : (sizedAll items).length < 2 ^ 32)
    (first : items.find? (·.1 = name) = some (name, inner)) :
    find name (sizedAll items) = some inner ∧ inner.length < 2 ^ 32 := by
  have inside := sizedAll_length_le (List.mem_of_find?_eq_some first) four
  dsimp only at inside
  rw [find_sizedAll four fits, first]
  exact ⟨rfl, by omega⟩

theorem find_mdia (fits : (trakBody demuxed boxes largeOffsets field).length < 2 ^ 32) :
    find (kind "mdia") (trakBody demuxed boxes largeOffsets field) =
        some (mdiaBody demuxed boxes largeOffsets field) ∧
      (mdiaBody demuxed boxes largeOffsets field).length < 2 ^ 32 := by
  rw [trakBody_eq] at fits ⊢
  refine find_inside ?_ fits rfl
  intro item member
  simp only [trakItems, List.mem_cons, List.not_mem_nil, or_false] at member
  obtain rfl | rfl := member <;> rfl

theorem find_in_mdia (fits : (mdiaBody demuxed boxes largeOffsets field).length < 2 ^ 32) :
    find (kind "mdhd") (mdiaBody demuxed boxes largeOffsets field) = some boxes.mdhd ∧
      find (kind "minf") (mdiaBody demuxed boxes largeOffsets field) =
        some (minfBody demuxed boxes largeOffsets field) ∧
      (minfBody demuxed boxes largeOffsets field).length < 2 ^ 32 := by
  have four : ∀ item ∈ mdiaItems demuxed boxes largeOffsets field, item.1.length = 4 := by
    intro item member
    simp only [mdiaItems, List.mem_cons, List.not_mem_nil, or_false] at member
    obtain rfl | rfl | rfl := member <;> rfl
  rw [mdiaBody_eq] at fits ⊢
  exact ⟨(find_inside four fits rfl).1, find_inside four fits rfl⟩

theorem find_in_minf (sound : demuxed.Sound)
    (fits : (minfBody demuxed boxes largeOffsets field).length < 2 ^ 32) :
    find (kind "stbl") (minfBody demuxed boxes largeOffsets field) =
        some (stblBody demuxed boxes largeOffsets field) ∧
      (stblBody demuxed boxes largeOffsets field).length < 2 ^ 32 := by
  have other : decide (demuxed.mediaHeader.1 = kind "stbl") = false := decide_eq_false sound.ne_stbl
  rw [minfBody_eq] at fits ⊢
  refine find_inside ?_ fits ?_
  · intro item member
    simp only [minfItems, List.mem_cons, List.not_mem_nil, or_false] at member
    obtain rfl | rfl | rfl := member
    · exact sound.four
    · rfl
    · rfl
  · rw [minfItems, List.find?_cons, other]
    rfl

/-- A track whose box 32 bits hold is read back. -/
theorem readTrack_trak {start : Nat} (sound : demuxed.Sound) (builds : Builds demuxed boxes)
    (within : start < 256 ^ offsetWidth largeOffsets)
    (fits : (trakBody demuxed boxes largeOffsets (be (offsetWidth largeOffsets) start)).length < 2 ^ 32) :
    ∃ timescale, readTrack
        (trakBody demuxed boxes largeOffsets (be (offsetWidth largeOffsets) start)) =
        some ⟨timescale, placedFrom start demuxed.samples⟩ ∧
      ∀ stated, readTimescale demuxed.mdhd = some stated → timescale = stated := by
  obtain ⟨timescale, timed, kept⟩ := timescale_kept builds.mdhd
  refine ⟨timescale, ?_, kept⟩
  obtain ⟨mdia, mdiaFits⟩ := find_mdia fits
  obtain ⟨mdhd, minf, minfFits⟩ := find_in_mdia mdiaFits
  obtain ⟨stbl, stblFits⟩ := find_in_minf sound minfFits
  have samples := readSamples_stbl builds sound.samples within stblFits
  refine IsoMedia.readTrack_of ?_ timed ?_ samples
  · rw [findPath_of_find mdia, findPath_of_find mdhd, findPath]
  · rw [findPath_of_find mdia, findPath_of_find minf,
      findPath_of_find stbl, findPath]

/-! ## Files -/

/-- What a reader has of a sample: how it plays, and where its bytes are. -/
structure ReadsAs (source output : Bytes) (sample : Sample) (read : IsoMedia.Sample) : Prop where
  size : read.size = sample.size
  duration : read.duration = sample.duration
  compositionOffset : read.compositionOffset = sample.compositionOffset
  sync : read.sync = sample.sync
  bytes : slice output read.offset read.size = slice source sample.offset sample.size

/-- A reader of the file has the samples of every track. -/
def ReadsBack (tracks : List Track) (output : Bytes) : Prop :=
  ∃ movie, IsoMedia.readMovie output = some movie ∧
    List.Forall₂ (fun track read =>
      List.Forall₂ (ReadsAs track.source output) track.demuxed.samples read.samples) tracks movie

/-- What a reader has of a track whose samples begin at an offset. -/
structure Placed (at_ : Laid × Nat) (read : IsoMedia.Track) : Prop where
  samples : read.samples = placedFrom at_.2 at_.1.1.demuxed.samples
  timescale : ∀ stated, readTimescale at_.1.1.demuxed.mdhd = some stated → read.timescale = stated

theorem placed_reads {source output before after : Bytes} {samples : List Sample}
    (whole : output = before ++
      (samples.flatMap fun sample => slice source sample.offset sample.size) ++ after)
    (lengths : ∀ sample ∈ samples,
      (slice source sample.offset sample.size).length = sample.size) :
    List.Forall₂ (ReadsAs source output) samples (placedFrom before.length samples) := by
  induction samples generalizing before with
  | nil => exact .nil
  | cons sample samples ih =>
    have length := lengths sample List.mem_cons_self
    have split : output = before ++ slice source sample.offset sample.size ++
        ((samples.flatMap fun sample => slice source sample.offset sample.size) ++ after) := by
      rw [whole, List.flatMap_cons]
      simp only [List.append_assoc]
    have next : before.length + sample.size =
        (before ++ slice source sample.offset sample.size).length := by
      rw [List.length_append, length]
    refine .cons ⟨rfl, rfl, rfl, rfl, ?_⟩ ?_
    · have found := slice_append before (slice source sample.offset sample.size)
        ((samples.flatMap fun sample => slice source sample.offset sample.size) ++ after)
      rw [length, ← split] at found
      exact found
    · rw [next]
      refine ih ?_ fun other member => lengths other (List.mem_cons_of_mem _ member)
      rw [split]
      simp only [List.append_assoc]

theorem tracks_read {output before : Bytes} {movie : List IsoMedia.Track}
    (whole : output = before ++ (list.map Prod.fst).flatMap sampleData)
    (lengths : ∀ track ∈ list.map Prod.fst, ∀ sample ∈ track.demuxed.samples,
      (slice track.source sample.offset sample.size).length = sample.size)
    (placed : List.Forall₂ Placed (list.zip (runningOffsets before.length
      ((list.map Prod.fst).map (·.demuxed.sampleBytes)))) movie) :
    List.Forall₂ (fun track (read : IsoMedia.Track) =>
      List.Forall₂ (ReadsAs track.source output) track.demuxed.samples read.samples)
      (list.map Prod.fst) movie := by
  induction list generalizing before movie with
  | nil =>
    cases placed
    exact .nil
  | cons laid list ih =>
    rw [List.map_cons, List.map_cons, runningOffsets, List.zip_cons_cons] at placed
    obtain _ | ⟨first, rest⟩ := placed
    have own := lengths laid.1 List.mem_cons_self
    have data : (sampleData laid.1).length = laid.1.demuxed.sampleBytes := by
      unfold sampleData DemuxedTrack.sampleBytes
      rw [List.length_flatMap]
      exact congrArg List.sum (List.map_congr_left own)
    have split : output = before ++ sampleData laid.1 ++ (list.map Prod.fst).flatMap sampleData := by
      rw [whole, List.map_cons, List.flatMap_cons, List.append_assoc]
    refine .cons ?_ ?_
    · rw [first.samples]
      exact placed_reads split own
    · have next : before.length + laid.1.demuxed.sampleBytes =
          (before ++ sampleData laid.1).length := by
        rw [List.length_append, data]
      rw [next] at rest
      exact ih split (fun track member => lengths track (List.mem_cons_of_mem _ member)) rest

def moovItems (largeOffsets : Bool) (mvhd : Bytes) (list : List Laid) (starts : List Nat) :
    List (Kind × Bytes) :=
  (kind "mvhd", mvhd) :: (list.zip starts).map fun at_ =>
    (kind "trak", trakBody at_.1.1.demuxed at_.1.2 largeOffsets (be (offsetWidth largeOffsets) at_.2))

theorem moovBody_eq (mvhd : Bytes) (list : List Laid) (starts : List Nat) :
    moovBody largeOffsets mvhd list starts = sizedAll (moovItems largeOffsets mvhd list starts) := by
  unfold moovBody moovItems sizedAll
  rw [List.flatMap_cons, List.flatMap_map]
  rfl

theorem moovItems_four (mvhd : Bytes) (list : List Laid) (starts : List Nat) :
    ∀ item ∈ moovItems largeOffsets mvhd list starts, item.1.length = 4 := by
  intro item member
  obtain rfl | inside := List.mem_cons.mp member
  · rfl
  · obtain ⟨at_, -, rfl⟩ := List.mem_map.mp inside
    rfl

theorem filter_traks (mvhd : Bytes) (list : List Laid) (starts : List Nat) :
    (moovItems largeOffsets mvhd list starts).filter (·.1 = kind "trak") =
      (list.zip starts).map fun at_ => (kind "trak",
        trakBody at_.1.1.demuxed at_.1.2 largeOffsets (be (offsetWidth largeOffsets) at_.2)) := by
  have other : decide (kind "mvhd" = kind "trak") = false := by decide
  unfold moovItems
  rw [List.filter_cons]
  rw [other, if_neg Bool.false_ne_true, List.filter_eq_self.mpr]
  intro item member
  obtain ⟨at_, -, rfl⟩ := List.mem_map.mp member
  exact decide_eq_true rfl

theorem mapM_some {α β : Type} {f : α → Option β} {relation : α → β → Prop} {list : List α}
    (each : ∀ a ∈ list, ∃ b, f a = some b ∧ relation a b) :
    ∃ results, list.mapM f = some results ∧ List.Forall₂ relation list results := by
  induction list with
  | nil => exact ⟨[], rfl, .nil⟩
  | cons a list ih =>
    obtain ⟨b, first, related⟩ := each a List.mem_cons_self
    obtain ⟨results, rest, both⟩ := ih fun other member => each other (List.mem_cons_of_mem _ member)
    refine ⟨b :: results, ?_, .cons related both⟩
    rw [List.mapM_cons, first, rest]
    rfl

theorem boxes_moovBody {mvhd : Bytes} {starts : List Nat}
    (fits : (moovBody largeOffsets mvhd list starts).length < 2 ^ 32) :
    IsoMedia.boxes (moovBody largeOffsets mvhd list starts) =
      moovItems largeOffsets mvhd list starts := by
  rw [moovBody_eq] at fits ⊢
  exact boxes_sizedAll (moovItems_four mvhd list starts) fits

/-- The tracks of a movie box that 32 bits hold are read back. -/
theorem readTraks {mvhd : Bytes} {starts : List Nat} (sound : ∀ laid ∈ list, laid.1.demuxed.Sound)
    (builds : ∀ laid ∈ list, Builds laid.1.demuxed laid.2)
    (within : ∀ start ∈ starts, start < 256 ^ offsetWidth largeOffsets)
    (fits : (moovBody largeOffsets mvhd list starts).length < 2 ^ 32) :
    ∃ movie, ((IsoMedia.boxes (moovBody largeOffsets mvhd list starts)).filter
        (·.1 = kind "trak")).mapM (fun box => readTrack box.2) = some movie ∧
      List.Forall₂ Placed (list.zip starts) movie := by
  have each : ∀ at_ ∈ list.zip starts, ∃ read, readTrack (trakBody at_.1.1.demuxed at_.1.2
      largeOffsets (be (offsetWidth largeOffsets) at_.2)) = some read ∧ Placed at_ read := by
    intro at_ member
    obtain ⟨laid, start⟩ := at_
    have inside := List.of_mem_zip member
    have item : (kind "trak", trakBody laid.1.demuxed laid.2 largeOffsets
        (be (offsetWidth largeOffsets) start)) ∈ moovItems largeOffsets mvhd list starts :=
      List.mem_cons_of_mem _ (List.mem_map.mpr ⟨(laid, start), member, rfl⟩)
    have smaller := sizedAll_length_le item (moovItems_four mvhd list starts)
    rw [← moovBody_eq] at smaller
    dsimp only at smaller
    obtain ⟨timescale, read, kept⟩ := readTrack_trak (sound laid inside.1) (builds laid inside.1)
      (within start inside.2) (by omega)
    exact ⟨_, read, rfl, kept⟩
  obtain ⟨movie, read, placed⟩ := mapM_some each
  refine ⟨movie, ?_, placed⟩
  rw [boxes_moovBody fits]
  rw [filter_traks, List.mapM_map]
  exact read

end Gunda.Stream.Mux

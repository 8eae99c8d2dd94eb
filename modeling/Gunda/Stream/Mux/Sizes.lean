import Gunda.Stream.Mux.RoundTrip

/-!
# Movie boxes of any size

The size of the movie box, told from the tracks, and what a reader has of one that 32 bits
do not hold: its last track is cut off.
-/
namespace Gunda.Stream.Mux

open Gunda.Lib Gunda.Lib.Bytes
open IsoMedia (boxes_box find readMovie)
open Gunda.Lib.IsoMedia (kind)

variable {field body rest : Bytes} {limit : Nat}

/-! ## Sizes -/

/-- How many runs of equal values there are. -/
def runCount {α : Type} [DecidableEq α] : List α → Nat
  | [] => 0
  | [_] => 1
  | first :: second :: rest => (if first = second then 0 else 1) + runCount (second :: rest)

def compositionSize (samples : List Sample) : Nat :=
  if samples.all fun sample => sample.compositionOffset = 0 then 0
  else 16 + 8 * runCount (samples.map (·.compositionOffset))

def syncSize (samples : List Sample) : Nat :=
  if samples.all (·.sync) then 0 else 16 + 4 * samples.countP (·.sync)

/-- The size of the sample table box of a track, in bytes. -/
def tablesSize (demuxed : DemuxedTrack) (largeOffsets : Bool) : Nat :=
  8 + (8 + demuxed.stsd.length) + (16 + 8 * runCount (demuxed.samples.map (·.duration))) +
    compositionSize demuxed.samples + 28 + (20 + 4 * demuxed.samples.length) +
    syncSize demuxed.samples + (16 + offsetWidth largeOffsets)

/-- The size of the box of a track. -/
def trackSize (demuxed : DemuxedTrack) (largeOffsets : Bool) : Nat :=
  8 + (8 + demuxed.tkhd.length) + (8 + (8 + demuxed.mdhd.length) + (8 + demuxed.hdlr.length) +
    (8 + (8 + demuxed.mediaHeader.2.length) + (8 + demuxed.dinf.length) +
      tablesSize demuxed largeOffsets))

/-- The size of the movie box. -/
def movieSize (tracks : List Track) (largeOffsets : Bool) : Nat :=
  116 + (tracks.map fun track => trackSize track.demuxed largeOffsets).sum

section

variable {α : Type} [DecidableEq α]

theorem runCount_snoc (values : List α) (value : α) : runCount (values ++ [value]) =
    runCount values + if values.getLast? = some value then 0 else 1 := by
  induction values with
  | nil => rfl
  | cons first rest ih =>
    cases rest with
    | nil =>
      simp only [List.cons_append, List.nil_append, runCount, List.getLast?_singleton,
        Option.some.injEq]
      omega
    | cons second rest =>
      rw [List.cons_append, List.cons_append, runCount, ← List.cons_append, ih, runCount,
        List.getLast?_cons_cons]
      omega

theorem addRun_length {runs after : List (Nat × α)} {value : α} (h : addRun runs value = .ok after) :
    after.length = runs.length + (if (runs.getLast?.map Prod.snd) = some value then 0 else 1) ∧
      after.getLast?.map Prod.snd = some value := by
  unfold addRun at h
  cases last : runs.getLast? with
  | none =>
    rw [last] at h
    cases h
    rw [List.getLast?_eq_none_iff.mp last]
    exact ⟨rfl, rfl⟩
  | some run =>
    rw [last] at h
    dsimp only at h
    have split : runs.dropLast ++ [run] = runs := List.dropLast_append_getLast? _ last
    have lengths := congrArg List.length split
    rw [List.length_append, List.length_singleton] at lengths
    by_cases same : run.2 = value
    · rw [if_pos same] at h
      obtain ⟨_, h⟩ := throw_unless_ok h
      cases h
      rw [List.length_append, List.length_singleton, Option.map_some, same, if_pos rfl,
        List.getLast?_append]
      exact ⟨lengths, rfl⟩
    · rw [if_neg same] at h
      cases h
      have other : ¬ some run.2 = some value := fun equal => same (Option.some.inj equal)
      rw [List.length_append, List.length_singleton, Option.map_some, if_neg other,
        List.getLast?_append]
      exact ⟨rfl, rfl⟩

theorem foldlM_addRun_length {values front : List α} {runs after : List (Nat × α)}
    (count : runs.length = runCount front) (last : runs.getLast?.map Prod.snd = front.getLast?)
    (h : values.foldlM addRun runs = .ok after) : after.length = runCount (front ++ values) := by
  induction values generalizing runs front with
  | nil =>
    cases h
    rw [List.append_nil]
    exact count
  | cons value values ih =>
    obtain ⟨next, first, h⟩ := bind_ok h
    obtain ⟨length, newest⟩ := addRun_length first
    have counted : next.length = runCount (front ++ [value]) := by
      rw [length, runCount_snoc, count, last]
    have ends : next.getLast?.map Prod.snd = (front ++ [value]).getLast? := by
      rw [newest, List.getLast?_append]
      rfl
    have whole := ih counted ends h
    rw [List.append_assoc] at whole
    exact whole

theorem buildRuns_length {values : List α} {runs : List (Nat × α)} (h : buildRuns values = .ok runs) :
    runs.length = runCount values := @foldlM_addRun_length _ _ values [] [] runs rfl rfl h

end

variable {α : Type}

theorem flatMap_length {items : List α} {write : α → Bytes} {width : Nat}
    (each : ∀ item ∈ items, (write item).length = width) :
    (items.flatMap write).length = width * items.length := by
  induction items with
  | nil => rfl
  | cons first rest ih =>
    rw [List.flatMap_cons, List.length_append, each first List.mem_cons_self,
      ih fun item member => each item (List.mem_cons_of_mem _ member), List.length_cons]
    ring

variable {samples : List Sample}

theorem buildStts_length {stts : Bytes} (h : buildStts samples = .ok stts) :
    stts.length = 8 + 8 * runCount (samples.map (·.duration)) := by
  obtain ⟨runs, built, h⟩ := bind_ok h
  obtain ⟨-, h⟩ := number_bind_ok h
  cases h
  have each : ∀ run ∈ runs, (be 4 run.1 ++ be 4 run.2).length = 8 := by
    intro run member
    rw [List.length_append, be_length, be_length]
  rw [List.length_append, List.length_append, be_length, be_length, flatMap_length each,
    buildRuns_length built]

theorem buildCtts_length {ctts : Option Bytes} (h : buildCtts samples = .ok ctts) :
    (sizedIfAny (kind "ctts") ctts).length = compositionSize samples := by
  unfold compositionSize
  obtain ⟨none_, h⟩ | ⟨some_, h⟩ := ite_ok h
  · cases h
    rw [if_pos none_]
    rfl
  · obtain ⟨runs, built, h⟩ := bind_ok h
    obtain ⟨-, h⟩ := number_bind_ok h
    cases h
    have each : ∀ run ∈ runs, (be 4 run.1 ++ beI32 run.2).length = 8 := by
      intro run member
      rw [List.length_append, be_length, beI32, be_length]
    rw [if_neg some_]
    change (sized (kind "ctts") _).length = _
    rw [sized_length rfl, List.length_append, List.length_append, List.length_append, be_length,
      be_length, be_length, flatMap_length each, buildRuns_length built]
    omega

theorem buildStsc_length {stsc : Bytes} (h : buildStsc samples = .ok stsc) : stsc.length = 20 := by
  obtain ⟨-, h⟩ := number_bind_ok h
  cases h
  simp only [List.length_append, be_length]

theorem buildStsz_length {stsz : Bytes} (h : buildStsz samples = .ok stsz) :
    stsz.length = 12 + 4 * samples.length := by
  obtain ⟨-, h⟩ := number_bind_ok h
  cases h
  have each : ∀ sample ∈ samples, (be 4 sample.size).length = 4 := fun _ _ => be_length 4 _
  rw [List.length_append, List.length_append, List.length_append, be_length, be_length,
    flatMap_length each]

theorem syncNumbers_length : (syncNumbers samples).length = samples.countP (·.sync) := by
  unfold syncNumbers
  rw [List.length_map, ← List.countP_eq_length_filter]
  have general : ∀ start, (samples.zipIdx start).countP (fun one => one.1.sync) =
      samples.countP (·.sync) := by
    induction samples with
    | nil => exact fun _ => rfl
    | cons sample samples ih =>
      intro start
      rw [List.zipIdx_cons, List.countP_cons, List.countP_cons, ih]
  exact general 0

theorem buildStss_length {stss : Option Bytes} (h : buildStss samples = .ok stss) :
    (sizedIfAny (kind "stss") stss).length = syncSize samples := by
  unfold syncSize
  obtain ⟨all, h⟩ | ⟨some_, h⟩ := ite_ok h
  · cases h
    rw [if_pos all]
    rfl
  · obtain ⟨numbers, written, h⟩ := bind_ok h
    obtain ⟨-, h⟩ := number_bind_ok h
    cases h
    have both := mapM_ok written
    have lengths : numbers.length = samples.countP (·.sync) := by
      rw [← both.length_eq, syncNumbers_length]
    have each : ∀ number ∈ numbers, (id number).length = 4 := by
      intro bytes member
      obtain ⟨n, _, ok⟩ := mapM_ok_mem written member
      rw [(number_ok ok).2]
      exact be_length 4 n
    have flat := flatMap_length each
    rw [List.flatMap_id] at flat
    rw [if_neg some_]
    change (sized (kind "stss") _).length = _
    rw [sized_length rfl, List.length_append, List.length_append, be_length, be_length, flat, lengths]
    omega

variable {demuxed : DemuxedTrack} {boxes : TrakBoxes} {largeOffsets : Bool}

theorem stblBody_length (builds : Builds demuxed boxes)
    (width : field.length = offsetWidth largeOffsets) :
    (stblBody demuxed boxes largeOffsets field).length + 8 = tablesSize demuxed largeOffsets := by
  unfold stblBody tablesSize oneChunk
  simp only [List.length_append, sized_length (show (kind "stsd").length = 4 from rfl),
    sized_length (show (kind "stts").length = 4 from rfl),
    sized_length (show (kind "stsc").length = 4 from rfl),
    sized_length (show (kind "stsz").length = 4 from rfl),
    sized_length (offsetKind_length largeOffsets), buildStts_length builds.stts,
    buildCtts_length builds.ctts, buildStsc_length builds.stsc, buildStsz_length builds.stsz,
    buildStss_length builds.stss, be_length, width]
  omega

theorem trak_size {laid : Laid} (builds : Builds laid.1.demuxed laid.2)
    (four : laid.1.demuxed.mediaHeader.1.length = 4)
    (width : field.length = offsetWidth largeOffsets) :
    (laid.trak largeOffsets field).length = trackSize laid.1.demuxed largeOffsets := by
  have mdhd : laid.2.mdhd.length = laid.1.demuxed.mdhd.length := by
    have eight : ∀ version, (mediaHeaderField version).2 = 8 ∨ (mediaHeaderField version).2 = 4 := by
      intro version
      unfold mediaHeaderField
      split
      · exact .inl rfl
      · exact .inr rfl
    exact (putDuration_ok (eight _) builds.mdhd).2.1
  have tables := stblBody_length builds width
  unfold Laid.trak trakBody mdiaBody minfBody trackSize
  simp only [List.length_append, sized_length (show (kind "trak").length = 4 from rfl),
    sized_length (show (kind "tkhd").length = 4 from rfl),
    sized_length (show (kind "mdia").length = 4 from rfl),
    sized_length (show (kind "mdhd").length = 4 from rfl),
    sized_length (show (kind "hdlr").length = 4 from rfl),
    sized_length (show (kind "minf").length = 4 from rfl), sized_length four,
    sized_length (show (kind "dinf").length = 4 from rfl),
    sized_length (show (kind "stbl").length = 4 from rfl), builds.tkhd, mdhd]
  omega

theorem traks_size {list : List Laid} (builds : ∀ laid ∈ list, Builds laid.1.demuxed laid.2)
    (four : ∀ laid ∈ list, laid.1.demuxed.mediaHeader.1.length = 4) :
    (list.flatMap (·.trak largeOffsets (blank largeOffsets))).length =
      ((list.map Prod.fst).map fun track => trackSize track.demuxed largeOffsets).sum := by
  induction list with
  | nil => rfl
  | cons laid list ih =>
    rw [List.flatMap_cons, List.length_append, List.map_cons, List.map_cons, List.sum_cons,
      trak_size (builds laid List.mem_cons_self) (four laid List.mem_cons_self) blank_length,
      ih (fun other member => builds other (List.mem_cons_of_mem _ member))
        (fun other member => four other (List.mem_cons_of_mem _ member))]

/-- The movie box that is built is as large as it is told to be. -/
theorem buildMoov_size {tracks : List Track} {timescale duration : Nat} {movie : Writer}
    (four : ∀ track ∈ tracks, track.demuxed.mediaHeader.1.length = 4)
    (h : buildMoov tracks timescale duration largeOffsets = .ok movie) :
    movie.bytes.length = movieSize tracks largeOffsets := by
  obtain ⟨mvhd, list, hundred, names, each, bytes, _⟩ := buildMoov_ok four h
  have fours : ∀ laid ∈ list, laid.1.demuxed.mediaHeader.1.length = 4 := by
    intro laid member
    apply four
    rw [← names]
    exact List.mem_map_of_mem member
  rw [bytes, sized_length rfl, List.length_append, sized_length rfl, hundred, traks_size each fours,
    names]
  unfold movieSize
  omega

/-! ## A movie box that is cut off -/

theorem take_sized {name : Bytes} (four : name.length = 4) (whole : body.length + 8 ≤ limit) :
    (sized name body ++ rest).take limit = sized name body ++ rest.take (limit - (body.length + 8)) := by
  rw [List.take_append, List.take_of_length_le (by rw [sized_length four]; exact whole),
    sized_length four]

/-- A box of which the end is missing is not read. -/
theorem nextBox_cut {name : Bytes} (short : limit < body.length + 8) (small : limit < 2 ^ 32 - 1) :
    IsoMedia.nextBox ((sized name body ++ rest).take limit) = none := by
  have length : ((sized name body ++ rest).take limit).length ≤ limit := List.length_take_le _ _
  unfold IsoMedia.nextBox
  by_cases tiny : ((sized name body ++ rest).take limit).length < 8
  · rw [if_pos tiny]
  · obtain ⟨size, named⟩ : ∃ size, size = min (body.length + 8) (2 ^ 32 - 1) := ⟨_, rfl⟩
    have header : 8 ≤ size := by omega
    have beyond : limit < size := by omega
    have bound : size < 256 ^ 4 := by omega
    have stated : readBe (((sized name body ++ rest).take limit).take 4) = size := by
      rw [List.take_take, Nat.min_eq_left (by omega)]
      unfold sized
      rw [List.append_assoc, List.take_left' (be_length 4 _), ← named]
      exact readBe_be bound
    have zero : ¬ size = 0 := by omega
    have one : ¬ size = 1 := by omega
    have outside : size < 8 ∨ ((sized name body ++ rest).take limit).length < size :=
      .inr (Nat.lt_of_le_of_lt length beyond)
    rw [if_neg tiny]
    dsimp only
    rw [stated, if_neg one, if_neg zero, if_neg one, if_pos outside]

/-- What is read of boxes one after another when some of the end is missing. -/
theorem boxes_cut {items : List (Kind × Bytes)} (four : ∀ item ∈ items, item.1.length = 4)
    (short : limit < (sizedAll items).length) (small : limit < 2 ^ 32 - 1) :
    ∃ count < items.length, IsoMedia.boxes ((sizedAll items).take limit) = items.take count := by
  induction items generalizing limit with
  | nil => exact absurd short (Nat.not_lt_zero _)
  | cons item items ih =>
    have own := four item List.mem_cons_self
    have split : sizedAll (item :: items) = sized item.1 item.2 ++ sizedAll items := rfl
    by_cases cut : limit < item.2.length + 8
    · refine ⟨0, Nat.succ_pos _, ?_⟩
      rw [split]
      exact repeatedly_of_none (nextBox_cut cut small)
    · have whole := Nat.le_of_not_lt cut
      rw [split, List.length_append, sized_length own] at short
      obtain ⟨count, fewer, rest⟩ := ih (fun other member => four other (List.mem_cons_of_mem _ member))
        (show limit - (item.2.length + 8) < (sizedAll items).length by omega) (by omega)
      refine ⟨count + 1, Nat.succ_lt_succ fewer, ?_⟩
      rw [split, take_sized own whole, sized_eq_box (by omega), boxes_box own (by omega),
        rest]
      rfl

theorem buildFtyp_eq : buildFtyp = IsoMedia.box (kind "ftyp") (kind "isom" ++ be 4 0x00000200 ++
    [kind "isom", kind "iso2", kind "mp41", kind "mp42"].flatten) := by decide

theorem find_after_ftyp (rest : Bytes) :
    find (kind "moov") (buildFtyp ++ rest) = find (kind "moov") rest := by
  unfold find
  rw [buildFtyp_eq, boxes_box rfl (by decide), List.find?_cons]
  rfl

/-- A box with a size that 32 bits hold is found whole. -/
theorem find_whole (fits : body.length + 8 < 2 ^ 32) :
    find (kind "moov") (sized (kind "moov") body ++ rest) = some body := by
  unfold find
  rw [sized_eq_box fits, boxes_box rfl fits, List.find?_cons]
  rfl

/-- A larger one is found without its end. -/
theorem find_cut (large : 2 ^ 32 ≤ body.length + 8) :
    find (kind "moov") (sized (kind "moov") body ++ rest) =
      some (body.take (2 ^ 32 - 1 - 8)) := by
  have four : (kind "moov").length = 4 := rfl
  have next : IsoMedia.nextBox (sized (kind "moov") body ++ rest) =
      some ((kind "moov", body.take (2 ^ 32 - 1 - 8)),
        (sized (kind "moov") body ++ rest).drop (2 ^ 32 - 1)) := by
    have split : sized (kind "moov") body ++ rest =
        be 4 (2 ^ 32 - 1) ++ (kind "moov" ++ (body ++ rest)) := by
      rw [sized, Nat.min_eq_right (by omega)]
      simp only [List.append_assoc]
    have bound : 2 ^ 32 - 1 < 2 ^ 32 := by decide
    obtain ⟨stated, named, content, long⟩ := IsoMedia.header_read four bound (body ++ rest)
    rw [← split] at stated named content long
    have sum : (body ++ rest).length = body.length + rest.length := List.length_append
    have one : ¬ 2 ^ 32 - 1 = 1 := by omega
    have zero : ¬ 2 ^ 32 - 1 = 0 := by omega
    unfold IsoMedia.nextBox
    rw [if_neg (by omega)]
    dsimp only
    rw [stated, if_neg one, if_neg zero, if_neg one, if_neg (by omega), named, content,
      List.take_append_of_le_length (by omega)]
  unfold find
  rw [show IsoMedia.boxes (sized (kind "moov") body ++ rest) = _ from
    repeatedly_of_next IsoMedia.nextBox_shorter next, List.find?_cons]
  rfl

/-! ## Whole files -/

section

variable {tracks : List Track} {output mvhd : Bytes} {list : List Laid} {starts : List Nat}

section

variable (laid : LaidOut tracks output largeOffsets mvhd list starts)
include laid

theorem LaidOut.movie_size (sound : ∀ track ∈ tracks, track.demuxed.Sound) :
    (moovBody largeOffsets mvhd list starts).length + 8 = movieSize tracks largeOffsets := by
  have count : starts.length = list.length := by
    rw [laid.places, IsoMedia.runningOffsets_length, List.length_map, ← laid.names, List.length_map]
  have four : ∀ laid ∈ list, laid.1.demuxed.mediaHeader.1.length = 4 := by
    intro one member
    apply (sound _ _).four
    rw [← laid.names]
    exact List.mem_map_of_mem member
  unfold moovBody movieSize
  rw [List.length_append, sized_length rfl, laid.head, traks_length count,
    traks_size laid.builds four, laid.names]
  omega

theorem LaidOut.found :
    find (kind "moov") output =
      find (kind "moov") (sized (kind "moov") (moovBody largeOffsets mvhd list starts) ++
        (mdatHeader (payloadBytes tracks) ++ tracks.flatMap sampleData)) := by
  rw [laid.bytes, List.append_assoc, List.append_assoc, find_after_ftyp]

/-- A file whose movie box 32 bits hold is read back. -/
theorem LaidOut.readsBack (sound : ∀ track ∈ tracks, track.demuxed.Sound)
    (fits : (moovBody largeOffsets mvhd list starts).length + 8 < 2 ^ 32) :
    ReadsBack tracks output := by
  have sounds : ∀ laid ∈ list, laid.1.demuxed.Sound := by
    intro one member
    apply sound
    rw [← laid.names]
    exact List.mem_map_of_mem member
  obtain ⟨movie, read, placed⟩ := readTraks sounds laid.builds laid.fits
    (Nat.lt_of_le_of_lt (Nat.le_add_right _ 8) fits)
  refine ⟨movie, ?_, ?_⟩
  · unfold readMovie
    rw [laid.found, find_whole fits, Option.bind_eq_bind, Option.bind_some]
    exact read
  · have places := laid.places
    rw [← List.length_append, ← List.length_append, ← laid.names] at places
    rw [places] at placed
    have bytes := laid.bytes
    have samples := laid.samples
    rw [← laid.names] at bytes samples ⊢
    exact tracks_read bytes samples placed

omit laid in
theorem mapM_length {β : Type} {f : α → Option β} {items : List α} {results : List β}
    (h : items.mapM f = some results) : results.length = items.length := by
  induction items generalizing results with
  | nil =>
    cases h
    rfl
  | cons item items ih =>
    rw [List.mapM_cons] at h
    obtain ⟨first, _, h⟩ := Option.bind_eq_some_iff.mp h
    obtain ⟨rest, more, h⟩ := Option.bind_eq_some_iff.mp h
    cases h
    exact congrArg Nat.succ (ih more)

omit laid in
theorem filter_traks_take {many : Nat} (fewer : many < (moovItems largeOffsets mvhd list starts).length)
    (some_ : 0 < (list.zip starts).length) :
    (((moovItems largeOffsets mvhd list starts).take many).filter (·.1 = kind "trak")).length <
      (list.zip starts).length := by
  cases many with
  | zero => exact some_
  | succ many =>
    have other : decide (kind "mvhd" = kind "trak") = false := by decide
    unfold moovItems at fewer ⊢
    rw [List.length_cons, List.length_map] at fewer
    rw [List.take_succ_cons, List.filter_cons]
    rw [other, if_neg Bool.false_ne_true]
    apply Nat.lt_of_le_of_lt (List.length_filter_le _ _)
    rw [List.length_take]
    omega

/-- A larger one leaves a track out. -/
theorem LaidOut.not_readsBack
    (some_ : tracks ≠ []) (large : 2 ^ 32 ≤ (moovBody largeOffsets mvhd list starts).length + 8) :
    ¬ ReadsBack tracks output := by
  intro ⟨movie, read, same⟩
  have named : list.length = tracks.length := by
    rw [← laid.names, List.length_map]
  have count : (list.zip starts).length = tracks.length := by
    rw [List.length_zip, laid.places, IsoMedia.runningOffsets_length, List.length_map, named,
      Nat.min_self]
  have short : 2 ^ 32 - 1 - 8 < (sizedAll (moovItems largeOffsets mvhd list starts)).length := by
    rw [← moovBody_eq]
    omega
  obtain ⟨many, fewer, boxes⟩ := boxes_cut (moovItems_four mvhd list starts) short (by omega)
  have left := @filter_traks_take largeOffsets mvhd list starts many fewer
    (by rw [count]; exact List.length_pos_of_ne_nil some_)
  unfold readMovie at read
  rw [laid.found, find_cut large, Option.bind_eq_bind, Option.bind_some, moovBody_eq, boxes] at read
  rw [← mapM_length read, count, same.length_eq] at left
  exact Nat.lt_irrefl _ left

end

end

section

variable {tracks : List Track} {force : Bool} {output : Output}

/-- How large the movie box of a written file is. -/
theorem written_sized (sound : ∀ track ∈ tracks, track.demuxed.Sound)
    (h : writeMp4Layout tracks force = .ok output) : ∃ largeOffsets mvhd list starts,
    LaidOut tracks output.bytes largeOffsets mvhd list starts ∧
      (moovBody largeOffsets mvhd list starts).length + 8 =
        movieSize tracks (usesLarge tracks force (movieSize tracks false)) := by
  have four : ∀ track ∈ tracks, track.demuxed.mediaHeader.1.length = 4 :=
    fun track member => (sound track member).four
  obtain ⟨compact, largeOffsets, mvhd, list, starts, built, chosen, laid, -⟩ := writeMp4Layout_ok h four
  rw [buildMoov_size four built] at chosen
  rw [← chosen]
  exact ⟨largeOffsets, mvhd, list, starts, laid, laid.movie_size sound⟩

/-- A written file is read back, exactly when 32 bits hold the size of its movie box. -/
theorem readsBack_iff_small (some_ : tracks ≠ []) (sound : ∀ track ∈ tracks, track.demuxed.Sound)
    (h : writeMp4Layout tracks force = .ok output) :
    ReadsBack tracks output.bytes ↔
      movieSize tracks (usesLarge tracks force (movieSize tracks false)) < 2 ^ 32 := by
  obtain ⟨largeOffsets, mvhd, list, starts, laid, size⟩ := written_sized sound h
  rw [← size]
  constructor
  · intro back
    by_contra large
    exact laid.not_readsBack some_ (Nat.le_of_not_lt large) back
  · exact laid.readsBack sound

end

/-! ## A track of very many samples -/

theorem runCount_replicate [DecidableEq α] (value : α) (count : Nat) :
    runCount (List.replicate (count + 1) value) = 1 := by
  induction count with
  | zero => rfl
  | succ count ih =>
    rw [List.replicate_succ, List.replicate_succ, runCount, if_pos rfl, Nat.zero_add]
    exact ih

theorem foldlM_addRun_replicate [DecidableEq α] (value : α) (before count : Nat)
    (fits : before + count < 2 ^ 32) :
    (List.replicate count value).foldlM addRun [(before, value)] = .ok [(before + count, value)] := by
  induction count generalizing before with
  | zero => rfl
  | succ count ih =>
    have small : ¬ 2 ^ 32 ≤ before + 1 := by omega
    have one : addRun [(before, value)] value = .ok [(before + 1, value)] := by
      unfold addRun
      rw [List.getLast?_singleton]
      dsimp only
      rw [if_pos rfl, if_neg small]
      rfl
    rw [List.replicate_succ, List.foldlM_cons, one, ok_bind, ih (before + 1) (by omega),
      Nat.add_assoc, Nat.add_comm 1 count]

theorem buildRuns_replicate [DecidableEq α] (value : α) (count : Nat) (fits : count + 1 < 2 ^ 32) :
    buildRuns (List.replicate (count + 1) value) = .ok [(count + 1, value)] := by
  unfold buildRuns
  rw [List.replicate_succ, List.foldlM_cons, addRun, List.getLast?_nil]
  rw [ok_bind, foldlM_addRun_replicate value 1 count (by omega), Nat.add_comm 1 count]

theorem number_of_lt {n : Nat} (fits : n < 2 ^ 32) : number n = .ok (be 4 n) :=
  if_neg (Nat.not_le_of_lt fits)

/-- A track is written if its headers take their fields and its tables can be built. -/
theorem writeTrak_of {writer : Writer} {track : Track} {index timescale : Nat}
    {identified tkhd mdhd stts stsc stsz : Bytes} {ctts stss : Option Bytes}
    (small : index + 1 < 2 ^ 32)
    (identifies : putU32 track.demuxed.tkhd (identifierField (track.demuxed.tkhd.head?.getD 0))
      (index + 1) = .ok identified)
    (times : putDuration identified (durationField (track.demuxed.tkhd.head?.getD 0))
      (track.demuxed.durationIn timescale) = .ok tkhd)
    (media : putDuration track.demuxed.mdhd (mediaHeaderField (track.demuxed.mdhd.head?.getD 0))
      track.demuxed.duration = .ok mdhd)
    (durations : buildStts track.demuxed.samples = .ok stts)
    (offsets : buildCtts track.demuxed.samples = .ok ctts)
    (chunk : buildStsc track.demuxed.samples = .ok stsc)
    (sizes : buildStsz track.demuxed.samples = .ok stsz)
    (syncs : buildStss track.demuxed.samples = .ok stss) :
    ∃ after, writer.writeTrak track index timescale largeOffsets = .ok after := by
  unfold Writer.writeTrak
  dsimp only
  rw [if_neg (Nat.not_le_of_lt small), identifies, ok_bind, times, ok_bind, media, ok_bind, durations,
    ok_bind, offsets, ok_bind, chunk, ok_bind, sizes, ok_bind, syncs, ok_bind]
  exact ⟨_, rfl⟩

theorem put_of {offset : Nat} {short : String} (within : offset + field.length ≤ body.length) :
    put body offset field short = .ok (overwrite body offset field) :=
  if_neg (Nat.not_lt.mpr within)

theorem putDuration_of {field : Nat × Nat} {value : Nat}
    (within : field.1 + field.2 ≤ body.length) (four : field.2 = 4) (fits : value < 2 ^ 32) :
    putDuration body field value = .ok (overwrite body field.1 (be 4 value)) := by
  have short : ¬ field.2 = 8 := by omega
  have inside : field.1 + (be 4 value).length ≤ body.length := by
    rw [be_length, ← four]
    exact within
  unfold putDuration
  rw [if_neg (Nat.not_lt.mpr within), if_neg short, if_neg (Nat.not_le_of_lt fits), put_of inside]

/-- A picture that does not change, told in a run that states a number of samples only. -/
def still (count : Nat) : Track where
  source := []
  demuxed :=
    { tkhd := List.replicate 84 0
      mdhd := be 4 0 ++ be 4 0 ++ be 4 0 ++ be 4 1000 ++ be 4 0 ++ be 4 0
      hdlr := List.replicate 25 0
      mediaHeader := (kind "vmhd", List.replicate 12 0)
      dinf := List.replicate 28 0
      stsd := List.replicate 8 0
      timescale := 1000
      samples := List.replicate count ⟨0, 0, 0, 0, true⟩
      duration := 0 }

variable {count : Nat}

theorem still_tables (fits : count + 1 < 2 ^ 32) (writer : Writer) :
    ∃ after, writer.writeTrak (still (count + 1)) 0 movieTimescale largeOffsets = .ok after := by
  have durations : buildStts (still (count + 1)).demuxed.samples =
      .ok (be 4 0 ++ be 4 1 ++ (be 4 (count + 1) ++ be 4 0)) := by
    unfold buildStts still
    rw [List.map_replicate, buildRuns_replicate _ _ fits]
    rfl
  have offsets : buildCtts (still (count + 1)).demuxed.samples = .ok none := by
    unfold buildCtts still
    rw [if_pos (by simp)]
  have syncs : buildStss (still (count + 1)).demuxed.samples = .ok none := by
    unfold buildStss still
    rw [if_pos (by simp)]
  have counted : number (still (count + 1)).demuxed.samples.length = .ok (be 4 (count + 1)) := by
    unfold still
    rw [List.length_replicate, number_of_lt fits]
  have chunk : ∃ stsc, buildStsc (still (count + 1)).demuxed.samples = .ok stsc := by
    unfold buildStsc
    rw [counted]
    exact ⟨_, rfl⟩
  have sizes : ∃ stsz, buildStsz (still (count + 1)).demuxed.samples = .ok stsz := by
    unfold buildStsz
    rw [counted]
    exact ⟨_, rfl⟩
  have none : (still (count + 1)).demuxed.durationIn movieTimescale < 2 ^ 32 := by
    simp [DemuxedTrack.durationIn, still]
  obtain ⟨stsc, chunk⟩ := chunk
  obtain ⟨stsz, sizes⟩ := sizes
  exact writeTrak_of (by decide) (put_of (Nat.le_of_ble_eq_true rfl))
    (putDuration_of (Nat.le_of_ble_eq_true rfl) rfl none)
    (putDuration_of (Nat.le_of_ble_eq_true rfl) rfl (Nat.two_pow_pos 32))
    durations offsets chunk sizes syncs

theorem still_duration (count : Nat) : movieDuration [still count] = 0 := by
  simp [movieDuration, DemuxedTrack.durationIn, still]

theorem still_movie (fits : count + 1 < 2 ^ 32) : ∃ movie,
    buildMoov [still (count + 1)] movieTimescale (movieDuration [still (count + 1)]) largeOffsets =
      .ok movie := by
  have header : ∃ headed, (Writer.default.openBox (kind "moov")).writeMvhd movieTimescale 0 1 =
      .ok headed := by
    unfold Writer.writeMvhd
    rw [number_of_lt (Nat.two_pow_pos 32), number_of_lt (by decide)]
    exact ⟨_, rfl⟩
  obtain ⟨headed, header⟩ := header
  obtain ⟨after, written⟩ := @still_tables largeOffsets count fits headed
  have traks : headed.writeTraks movieTimescale largeOffsets 0 [still (count + 1)] = .ok after := by
    rw [Writer.writeTraks, written]
    rfl
  unfold buildMoov Writer.container
  dsimp only
  rw [still_duration, List.length_singleton, header, ok_bind, traks]
  exact ⟨_, rfl⟩

theorem still_size (count : Nat) : movieSize [still (count + 1)] largeOffsets =
    469 + 4 * count + offsetWidth largeOffsets := by
  have composition : compositionSize (still (count + 1)).demuxed.samples = 0 :=
    if_pos (by simp [still])
  have sync : syncSize (still (count + 1)).demuxed.samples = 0 := if_pos (by simp [still])
  have runs : runCount ((still (count + 1)).demuxed.samples.map (·.duration)) = 1 := by
    unfold still
    rw [List.map_replicate]
    exact runCount_replicate 0 count
  have length : (still (count + 1)).demuxed.samples.length = count + 1 := List.length_replicate
  unfold movieSize trackSize tablesSize
  rw [List.map_singleton, List.sum_singleton, composition, sync, runs, length]
  unfold still
  simp only [List.length_append, List.length_replicate, be_length]
  omega

theorem copySamples_still (count : Nat) :
    copySamples [] (still count).demuxed.samples = .ok [] := by
  unfold still
  dsimp only
  induction count with
  | zero => rfl
  | succ count ih =>
    rw [List.replicate_succ, copySamples, ih]
    rfl

theorem still_payload (count : Nat) : payloadBytes [still count] = 0 := by
  simp [payloadBytes, DemuxedTrack.sampleBytes, still]

theorem still_sound (count : Nat) : (still count).demuxed.Sound where
  mediaHeader := List.mem_cons_self
  samples := by
    intro sample member
    rw [List.eq_of_mem_replicate member]
    exact ⟨by decide, by decide, by decide, by decide⟩

/-- The one chunk offset of a movie box can be filled in. -/
theorem fillIn_only {movie : Writer} {mvhd : Bytes} {laid : Laid} {start : Nat}
    (hundred : mvhd.length = 100)
    (bytes : movie.bytes = sized (kind "moov") (sized (kind "mvhd") mvhd ++
      [laid].flatMap (·.trak largeOffsets (blank largeOffsets))))
    (patch : movie.patch = marksFrom largeOffsets 116 [laid])
    (fits : start < 256 ^ offsetWidth largeOffsets) : ∃ moov,
    (movie.patch.zip [start]).foldlM (fillIn largeOffsets) movie.bytes = .ok moov := by
  obtain ⟨opening, long, whole⟩ := moov_split hundred
    ([laid].flatMap (·.trak largeOffsets (blank largeOffsets)))
  have one : [start].length = [laid].length := rfl
  have filled := fillIn_every one (List.forall_mem_singleton.mpr fits) opening
  rw [long, ← patch, ← whole _ rfl, ← bytes] at filled
  exact ⟨_, filled⟩

theorem chunkStarts_still {start : Nat} (fits : start < 2 ^ 64) :
    chunkStarts start [still count] = .ok [start] := by
  have nothing : (still count).demuxed.sampleBytes = 0 := by
    simp [DemuxedTrack.sampleBytes, still]
  rw [chunkStarts, nothing, Nat.add_zero, if_neg (Nat.not_le_of_lt fits)]
  rfl

/-- Any number of such samples is written. -/
theorem still_written (fits : count + 1 < 2 ^ 32) (force : Bool) :
    ∃ output, writeMp4Layout [still (count + 1)] force = .ok output := by
  have four : ∀ track ∈ [still (count + 1)], track.demuxed.mediaHeader.1.length = 4 := by
    intro track member
    rw [List.mem_singleton.mp member]
    rfl
  obtain ⟨compact, small⟩ := @still_movie false count fits
  generalize choice : usesLarge [still (count + 1)] force compact.bytes.length = largeOffsets
  obtain ⟨movie, chosen, built⟩ : ∃ movie, rebuilt [still (count + 1)] compact largeOffsets = .ok movie ∧
      buildMoov [still (count + 1)] movieTimescale (movieDuration [still (count + 1)]) largeOffsets =
        .ok movie := by
    cases largeOffsets with
    | true =>
      obtain ⟨movie, built⟩ := @still_movie true count fits
      exact ⟨movie, built, built⟩
    | false => exact ⟨compact, rfl, small⟩
  have length := buildMoov_size four built
  rw [still_size] at length
  obtain ⟨mvhd, list, hundred, names, -, bytes, patch⟩ := buildMoov_ok four built
  obtain ⟨laid, rest, rfl, -, last⟩ := List.map_eq_cons_iff.mp names
  cases List.map_eq_nil_iff.mp last
  have width : offsetWidth largeOffsets ≤ 8 := by
    cases largeOffsets <;> decide
  have ftyp : buildFtyp.length = 32 := by decide
  obtain ⟨start, named⟩ : ∃ start, start = buildFtyp.length + movie.bytes.length + 8 := ⟨_, rfl⟩
  have within : start < 2 ^ 64 := by omega
  have reached : start < 256 ^ offsetWidth largeOffsets := by
    cases largeOffsets with
    | true => exact within
    | false =>
      cases chosen
      unfold usesLarge at choice
      rw [still_payload, Bool.or_eq_false_iff, decide_eq_false_iff_not] at choice
      change start < 2 ^ 32
      omega
  obtain ⟨moov, filled⟩ := fillIn_only hundred bytes patch reached
  have header : mdatHeaderSize 0 = 8 := rfl
  unfold writeMp4Layout
  rw [small, ok_bind]
  dsimp only
  rw [choice, chosen, ok_bind, still_payload, header, ← named, if_neg (Nat.not_le_of_lt within),
    chunkStarts_still within, ok_bind, filled, ok_bind, List.mapM_cons, List.mapM_nil,
    show (still (count + 1)).source = [] from rfl, copySamples_still]
  exact ⟨_, rfl⟩

theorem still_lost (fits : count + 1 < 2 ^ 32) (many : 2 ^ 32 ≤ 469 + 4 * count) :
    ∃ output, writeMp4Layout [still (count + 1)] false = .ok output ∧
      ¬ ReadsBack [still (count + 1)] output.bytes := by
  obtain ⟨output, written⟩ := still_written fits false
  have sound : ∀ track ∈ [still (count + 1)], track.demuxed.Sound := by
    intro track member
    rw [List.mem_singleton.mp member]
    exact still_sound (count + 1)
  obtain ⟨largeOffsets, mvhd, list, starts, laid, size⟩ := written_sized sound written
  rw [still_size] at size
  exact ⟨output, written, laid.not_readsBack (List.cons_ne_nil _ _) (by omega)⟩

/-- A track of 2 ^ 30 samples is written, and cannot be read back. -/
theorem long_still_lost : ∃ output, writeMp4Layout [still 1073741824] false = .ok output ∧
    ¬ ReadsBack [still 1073741824] output.bytes :=
  @still_lost 1073741823 (by decide) (by decide)

/-- A track of three samples is. -/
theorem short_still_kept : ∃ output, writeMp4Layout [still 3] false = .ok output ∧
    ReadsBack [still 3] output.bytes := by
  obtain ⟨output, written⟩ := @still_written 2 (by decide) false
  have sound : ∀ track ∈ [still 3], track.demuxed.Sound := by
    intro track member
    rw [List.mem_singleton.mp member]
    exact still_sound 3
  have small : movieSize [still 3] (usesLarge [still 3] false (movieSize [still 3] false)) < 2 ^ 32 := by
    decide
  exact ⟨output, written, (readsBack_iff_small (List.cons_ne_nil _ _) sound written).mpr small⟩

end Gunda.Stream.Mux

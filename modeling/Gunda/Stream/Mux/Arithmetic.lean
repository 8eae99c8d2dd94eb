import Gunda.Stream.Mux.Layout

/-!
# The arithmetic of the layout

What `write_mp4_layout` decides from lengths: how wide the chunk offsets are, where the
payload begins, and how the media data box states its size.
-/
namespace Gunda.Stream.Mux

open Gunda.Lib Gunda.Lib.Bytes
open Gunda.Lib.IsoMedia (kind runningOffsets)

variable {start : Nat}

/-! ## Media data -/

/-- The size that the head of a box states, in 32 bits or, behind its type, in 64. -/
def statedSize (bytes : Bytes) : Nat :=
  let short := readBe (bytes.take 4)
  if short = 1 then readBe (slice bytes 8 8) else short

theorem statedSize_short {size : Nat} (fits : size < 2 ^ 32) (some_ : size ≠ 1) (rest : Bytes) :
    statedSize (be 4 size ++ rest) = size := by
  have first : readBe ((be 4 size ++ rest).take 4) = size := by
    rw [List.take_left' (be_length 4 size)]
    exact readBe_be fits
  unfold statedSize
  rw [first, if_neg some_]

theorem statedSize_long {name : Bytes} (four : name.length = 4) {size : Nat} (fits : size < 2 ^ 64)
    (rest : Bytes) : statedSize (be 4 1 ++ name ++ (be 8 size ++ rest)) = size := by
  have first : readBe ((be 4 1 ++ name ++ (be 8 size ++ rest)).take 4) = 1 := by
    rw [List.append_assoc, List.take_left' (be_length 4 1)]
    exact readBe_be (by decide)
  have eight : (be 4 1 ++ name).length = 8 := by
    rw [List.length_append, be_length, four]
  unfold statedSize
  rw [first, if_pos rfl]
  unfold slice
  rw [List.drop_left' eight, List.take_left' (be_length 8 size)]
  exact readBe_be fits

/-- The media data box states its own length, below 4 GiB and above. -/
theorem statedSize_mdat {data : Bytes}
    (admitted : mdatHeaderSize data.length + data.length < 2 ^ 64) :
    statedSize (mdatHeader data.length ++ data) = (mdatHeader data.length ++ data).length := by
  rw [List.length_append, mdatHeader_length]
  by_cases large : 2 ^ 32 - 1 - 8 < data.length
  · have size : mdatHeaderSize data.length = 16 := if_pos large
    have header : mdatHeader data.length = be 4 1 ++ kind "mdat" ++ be 8 (data.length + 16) :=
      if_neg (by omega)
    rw [header, List.append_assoc, statedSize_long rfl (by omega), size, Nat.add_comm]
  · have size : mdatHeaderSize data.length = 8 := if_neg large
    have header : mdatHeader data.length = be 4 (data.length + 8) ++ kind "mdat" := if_pos size
    rw [header, List.append_assoc, statedSize_short (by omega) (by omega), size, Nat.add_comm]

/-! ## Chunk offsets -/

variable {tracks : List Track}

theorem chunkStarts_of (admitted : start + payloadBytes tracks < 2 ^ 64) :
    chunkStarts start tracks = .ok (runningOffsets start (tracks.map (·.demuxed.sampleBytes))) := by
  induction tracks generalizing start with
  | nil => rfl
  | cons track tracks ih =>
    have split : payloadBytes (track :: tracks) =
        track.demuxed.sampleBytes + payloadBytes tracks := rfl
    rw [chunkStarts, if_neg (by omega), ih (by omega)]
    rfl

theorem runningOffsets_le {sizes : List Nat} :
    ∀ offset ∈ runningOffsets start sizes, offset ≤ start + sizes.sum := by
  induction sizes generalizing start with
  | nil => exact fun offset none => nomatch none
  | cons size sizes ih =>
    intro offset member
    rw [List.sum_cons]
    cases member with
    | head => omega
    | tail _ later =>
      have within := ih offset later
      omega

variable {largeOffsets : Bool}

/-- The box of one chunk offset. -/
def chunkBox (largeOffsets : Bool) (field : Bytes) : Bytes :=
  sized (offsetKind largeOffsets) (oneChunk field)

theorem chunkBox_length (field : Bytes) : (chunkBox largeOffsets field).length = 16 + field.length := by
  unfold chunkBox oneChunk
  rw [sized_length (offsetKind_length largeOffsets), List.length_append, List.length_append,
    be_length, be_length]
  omega

theorem sized_suffix (name body : Bytes) : body <:+ sized name body :=
  ⟨be 4 (min (body.length + 8) (2 ^ 32 - 1)) ++ name, List.append_assoc _ _ _⟩

/-- The box of a track ends with that of its chunk offset. -/
theorem trak_ends (laid : Laid) (field : Bytes) :
    chunkBox largeOffsets field <:+ laid.trak largeOffsets field := by
  have stbl : chunkBox largeOffsets field <:+ stblBody laid.1.demuxed laid.2 largeOffsets field :=
    List.suffix_append _ _
  have minf : chunkBox largeOffsets field <:+ minfBody laid.1.demuxed laid.2 largeOffsets field :=
    (stbl.trans (sized_suffix _ _)).trans (List.suffix_append _ _)
  have mdia : chunkBox largeOffsets field <:+ mdiaBody laid.1.demuxed laid.2 largeOffsets field :=
    (minf.trans (sized_suffix _ _)).trans (List.suffix_append _ _)
  have trak : chunkBox largeOffsets field <:+ trakBody laid.1.demuxed laid.2 largeOffsets field :=
    (mdia.trans (sized_suffix _ _)).trans (List.suffix_append _ _)
  exact trak.trans (sized_suffix _ _)

theorem marksFrom_getElem? {list : List Laid} {k : Nat} {laid : Laid} (start : Nat)
    (present : list[k]? = some laid) :
    (marksFrom largeOffsets start list)[k]? =
      some (start + ((list.take k).flatMap (·.trak largeOffsets (blank largeOffsets))).length +
        (laid.trak largeOffsets (blank largeOffsets)).length - offsetWidth largeOffsets) := by
  induction list generalizing start k with
  | nil => cases present
  | cons first list ih =>
    cases k with
    | zero =>
      cases present
      rfl
    | succ k =>
      rw [List.getElem?_cons_succ] at present
      rw [marksFrom, List.getElem?_cons_succ, ih _ present, List.take_succ_cons, List.flatMap_cons,
        List.length_append, Nat.add_assoc start]

/-! ## The layout -/

/-- Where the payload of a written file begins. -/
def headerLength (tracks : List Track) (movie : Writer) : Nat :=
  buildFtyp.length + movie.bytes.length + mdatHeaderSize (payloadBytes tracks)

/-- The movie box before and after its chunk offsets are filled in, and every position to be
filled in, inside the chunk offset box that ends the box of its track. -/
structure Patches (largeOffsets : Bool) (tracks : List Track) (movie : Writer)
    (starts : List Nat) (moov opening : Bytes) (list : List Laid) : Prop where
  names : list.map Prod.fst = tracks
  count : movie.patch.length = tracks.length
  blank : movie.bytes = opening ++ list.flatMap (·.trak largeOffsets (blank largeOffsets))
  filled : moov = opening ++ (list.zip starts).flatMap fun at_ =>
    at_.1.trak largeOffsets (be (offsetWidth largeOffsets) at_.2)
  own : ∀ k laid, list[k]? = some laid → ∃ front,
    laid.trak largeOffsets (Mux.blank largeOffsets) =
      front ++ chunkBox largeOffsets (Mux.blank largeOffsets) ∧
    movie.patch[k]? = some (opening.length +
      ((list.take k).flatMap (·.trak largeOffsets (Mux.blank largeOffsets))).length +
      front.length + 16)

theorem patches_of {timescale duration : Nat} {movie : Writer}
    (four : ∀ track ∈ tracks, track.demuxed.mediaHeader.1.length = 4)
    (built : buildMoov tracks timescale duration largeOffsets = .ok movie) {starts : List Nat}
    (count : starts.length = tracks.length)
    (fits : ∀ start ∈ starts, start < 256 ^ offsetWidth largeOffsets) :
    ∃ moov opening list,
      (movie.patch.zip starts).foldlM (fillIn largeOffsets) movie.bytes = .ok moov ∧
      Patches largeOffsets tracks movie starts moov opening list := by
  obtain ⟨mvhd, list, hundred, names, -, bytes, patch⟩ := buildMoov_ok four built
  have many : list.length = tracks.length := by
    rw [← names, List.length_map]
  obtain ⟨opening, long, whole⟩ := moov_split hundred
    (list.flatMap (·.trak largeOffsets (blank largeOffsets)))
  have whole := bytes.trans (whole _ rfl)
  refine ⟨_, opening, list, ?_, names, ?_, whole, rfl, ?_⟩
  · rw [patch, whole, ← long]
    exact fillIn_every (count.trans many.symm) fits opening
  · rw [patch, marksFrom_length, many]
  · intro k laid present
    obtain ⟨front, ends⟩ := trak_ends laid (blank largeOffsets)
    refine ⟨front, ends.symm, ?_⟩
    rw [patch, ← long, marksFrom_getElem? _ present, ← ends, List.length_append, chunkBox_length,
      blank_length]
    exact congrArg some (by omega)

theorem rebuilt_ok {compact movie : Writer}
    (built : buildMoov tracks movieTimescale (movieDuration tracks) false = .ok compact)
    (chosen : rebuilt tracks compact largeOffsets = .ok movie) :
    buildMoov tracks movieTimescale (movieDuration tracks) largeOffsets = .ok movie := by
  cases largeOffsets with
  | true => exact chosen
  | false =>
    cases chosen
    exact built

/-- The compact layout is only chosen where every byte of the file has a 32-bit offset. -/
theorem compact_small {force : Bool} {movie : Writer}
    (compact : usesLarge tracks force movie.bytes.length = false) :
    headerLength tracks movie + payloadBytes tracks < 2 ^ 32 := by
  unfold usesLarge at compact
  have small := of_decide_eq_false (Bool.or_eq_false_iff.mp compact).2
  have short : mdatHeaderSize (payloadBytes tracks) = 8 := if_neg (by omega)
  unfold headerLength
  omega

/-- What is decided about a file agrees: the chunk offsets fit their width, follow the header
and the tracks before, and go where they belong; and what is written is as long as is said. -/
structure Consistent (tracks : List Track) (force : Bool) (compact movie : Writer)
    (starts : List Nat) (moov opening : Bytes) (list : List Laid) : Prop where
  begun : chunkStarts (headerLength tracks movie) tracks = .ok starts
  filled : (movie.patch.zip starts).foldlM
    (fillIn (usesLarge tracks force compact.bytes.length)) movie.bytes = .ok moov
  patches : Patches (usesLarge tracks force compact.bytes.length) tracks movie starts moov opening
    list
  narrow : usesLarge tracks force compact.bytes.length = false → ∀ start ∈ starts, start < 2 ^ 32
  count : starts.length = tracks.length
  places : ∀ k, k < tracks.length →
    starts[k]? = some (headerLength tracks movie + payloadBytes (tracks.take k))
  written : ∀ output, writeMp4Layout tracks force = .ok output →
    output.total = output.bytes.length ∧ ∃ data, data.length = payloadBytes tracks ∧
      output.bytes = buildFtyp ++ moov ++ mdatHeader data.length ++ data ∧
      headerLength tracks movie = (buildFtyp ++ moov ++ mdatHeader data.length).length ∧
      statedSize (mdatHeader data.length ++ data) = (mdatHeader data.length ++ data).length

variable {tracks : List Track} {force : Bool} {compact movie : Writer}

/-- The decisions of the layout agree with each other, and with what is written. -/
theorem layout_consistent (four : ∀ track ∈ tracks, track.demuxed.mediaHeader.1.length = 4)
    (built : buildMoov tracks movieTimescale (movieDuration tracks) false = .ok compact)
    (chosen : rebuilt tracks compact (usesLarge tracks force compact.bytes.length) = .ok movie)
    (admitted : headerLength tracks movie + payloadBytes tracks < 2 ^ 64) :
    ∃ starts moov opening list, Consistent tracks force compact movie starts moov opening list := by
  have begun := chunkStarts_of admitted
  have sum : (tracks.map (·.demuxed.sampleBytes)).sum = payloadBytes tracks := rfl
  have narrow : usesLarge tracks force compact.bytes.length = false →
      ∀ start ∈ runningOffsets (headerLength tracks movie) (tracks.map (·.demuxed.sampleBytes)),
        start < 2 ^ 32 := by
    intro small start member
    have within := runningOffsets_le start member
    rw [small] at chosen
    cases chosen
    have whole := compact_small small
    omega
  have many : (runningOffsets (headerLength tracks movie)
      (tracks.map (·.demuxed.sampleBytes))).length = tracks.length := by
    rw [IsoMedia.runningOffsets_length, List.length_map]
  have fits : ∀ start ∈ runningOffsets (headerLength tracks movie)
      (tracks.map (·.demuxed.sampleBytes)),
      start < 256 ^ offsetWidth (usesLarge tracks force compact.bytes.length) := by
    intro start member
    cases choice : usesLarge tracks force compact.bytes.length with
    | true =>
      have within := runningOffsets_le start member
      change start < 2 ^ 64
      omega
    | false => exact narrow choice start member
  obtain ⟨moov, opening, list, filled, patches⟩ := patches_of four (rebuilt_ok built chosen) many fits
  refine ⟨_, moov, opening, list, ⟨begun, filled, patches, narrow, many, ?_, ?_⟩⟩
  · intro k inside
    rw [IsoMedia.runningOffsets_getElem? _ (by rw [List.length_map]; exact inside), ← List.map_take]
    rfl
  · intro output written
    have laid : moov.length = movie.bytes.length := by
      have count : (runningOffsets (headerLength tracks movie)
          (tracks.map (·.demuxed.sampleBytes))).length = list.length := by
        rw [many, ← patches.names, List.length_map]
      rw [patches.filled, patches.blank, List.length_append, List.length_append, traks_length count]
    unfold writeMp4Layout at written
    rw [built, ok_bind] at written
    dsimp only at written
    rw [chosen, ok_bind] at written
    obtain ⟨-, written⟩ := throw_unless_ok written
    obtain ⟨starts, again, written⟩ := bind_ok written
    cases begun.symm.trans again
    obtain ⟨other, twice, written⟩ := bind_ok written
    cases filled.symm.trans twice
    obtain ⟨copied, copies, written⟩ := bind_ok written
    cases written
    obtain ⟨data, sizes⟩ := mapM_copySamples copies
    have length : copied.flatten.length = payloadBytes tracks := by
      rw [data]
      exact sampleData_length sizes
    have header : headerLength tracks movie =
        (buildFtyp ++ moov ++ mdatHeader (payloadBytes tracks)).length := by
      rw [List.length_append, List.length_append, mdatHeader_length, laid]
      rfl
    refine ⟨?_, copied.flatten, length, ?_, ?_, ?_⟩
    · dsimp only
      rw [@List.length_append _ _ copied.flatten, ← header, length]
      rfl
    · rw [length]
    · rw [length]
      exact header
    · apply statedSize_mdat
      rw [length]
      unfold headerLength at admitted
      omega

/-- A track of one sample, which is its whole source. -/
def wholeSource (media : String) (source : Bytes) : Track where
  source := source
  demuxed :=
    { tkhd := List.replicate 24 0
      mdhd := List.replicate 12 0 ++ be 4 1000 ++ List.replicate 4 0
      hdlr := [1]
      mediaHeader := (kind media, [2])
      dinf := [3]
      stsd := [4]
      timescale := 1000
      samples := [⟨0, source.length, 2000, 0, true⟩]
      duration := 2000 }

def pictureAndSound : List Track := [wholeSource "vmhd" [1, 2, 3, 4, 5], wholeSource "smhd" [6, 7, 8]]

theorem pictureAndSound_written : ∃ output, writeMp4Layout pictureAndSound false = .ok output := by
  have accepted : (writeMp4Layout pictureAndSound false).toOption.any (fun _ => true) = true := by
    decide +kernel
  obtain ⟨output, written, _⟩ := toOption_any_ok accepted
  exact ⟨output, written⟩

theorem pictureAndSound_consistent : ∃ compact movie starts moov opening list output,
    writeMp4Layout pictureAndSound false = .ok output ∧
    Consistent pictureAndSound false compact movie starts moov opening list := by
  obtain ⟨output, written⟩ := pictureAndSound_written
  obtain ⟨compact, built, rest⟩ := bind_ok written
  obtain ⟨movie, chosen, rest⟩ := bind_ok rest
  obtain ⟨large, rest⟩ := throw_unless_ok rest
  obtain ⟨starts, moov, opening, list, consistent⟩ :=
    layout_consistent (by decide) built chosen (Nat.lt_of_not_le large)
  exact ⟨compact, movie, starts, moov, opening, list, output, written, consistent⟩

end Gunda.Stream.Mux

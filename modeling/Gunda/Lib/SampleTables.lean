import Gunda.Lib.IsoMedia

/-!
# Sample tables

The tables that time and place the samples of a track, and how a reader puts them together:
runs of equal values are expanded, an absent table stands for its default, and the samples of
a chunk lie one after another.
-/
namespace Gunda.Lib.IsoMedia

open Bytes

variable {α : Type}

structure Sample where
  offset : Nat
  size : Nat
  duration : Nat
  compositionOffset : Int
  sync : Bool
  deriving DecidableEq, Repr

/-! ## Tables -/

/-- A table of a full box: its version decides how an entry is read. -/
def table {α : Type} (entry : Nat → Get α) : Get (List α) := do
  let version ← version
  let count ← number 4
  many (entry version) count

def pair (first second : Nat) : Get (Nat × Nat) := do
  let a ← number first
  let b ← number second
  return (a, b)

def timeToSample : Get (List (Nat × Nat)) := table fun _ => pair 4 4

/-- A run of composition offsets, which are signed but for version zero. -/
def compositionRun (version : Nat) : Get (Nat × Int) := do
  let run ← pair 4 4
  return (run.1, if version = 0 then run.2 else signed run.2)

def compositionOffsets : Get (List (Nat × Int)) := table compositionRun

def sampleSizes : Get (List Nat) := do
  let _ ← version
  let size ← number 4
  let count ← number 4
  if size = 0 then many (number 4) count else return List.replicate count size

/-- A first chunk, and how many samples it and those after it hold. -/
def chunkRun : Get (Nat × Nat) := do
  let run ← pair 4 4
  let _ ← number 4
  return run

def samplesToChunk : Get (List (Nat × Nat)) := table fun _ => chunkRun

def syncSamples : Get (List Nat) := table fun _ => number 4

def chunkOffsets (width : Nat) : Get (List Nat) := table fun _ => number width

/-- What every table begins with: its version, no flags, and the count of its entries. -/
def tableHead (version count : Nat) : Bytes := be 1 version ++ (be 3 0 ++ be 4 count)

/-- A table whose entries are read back one by one is read back. -/
theorem table_of {β : Type} (entry : Nat → Get β) {write : α → Bytes} {value : α → β}
    {items : List α} {version : Nat} (one : version < 2 ^ 8) (count : items.length < 2 ^ 32)
    (each : ∀ item ∈ items, ∀ rest,
      entry version (write item ++ rest) = some (value item, rest)) :
    (table entry).of (tableHead version items.length ++ items.flatMap write) =
      some (items.map value) := by
  have versioned : IsoMedia.version (tableHead version items.length ++ items.flatMap write) =
      some (version, be 4 items.length ++ items.flatMap write) := by
    unfold IsoMedia.version tableHead
    rw [List.append_assoc, List.append_assoc, Get.bind (number_be one _),
      Get.bind (number_be (by decide) _)]
    rfl
  have read := many_flatMap each []
  rw [List.append_nil] at read
  unfold Get.of table
  rw [Get.bind versioned, Get.bind (number_be count _), read]
  rfl

theorem pair_be {a b : Nat} (first : a < 2 ^ 32) (second : b < 2 ^ 32) (rest : Bytes) :
    pair 4 4 (be 4 a ++ be 4 b ++ rest) = some ((a, b), rest) := by
  unfold pair
  rw [List.append_assoc, Get.bind (number_be first _), Get.bind (number_be second _)]
  rfl

/-! ## Runs -/

/-- The values of runs, each as often as its run says. -/
def expand {α : Type} (runs : List (Nat × α)) : List α :=
  runs.flatMap fun run => List.replicate run.1 run.2

theorem expand_append (first second : List (Nat × α)) :
    expand (first ++ second) = expand first ++ expand second := by
  unfold expand
  rw [List.flatMap_append]

theorem expand_single (count : Nat) (value : α) :
    expand [(count, value)] = List.replicate count value := by
  simp [expand]

/-! ## Places -/

def runningOffsets : Nat → List Nat → List Nat
  | _, [] => []
  | offset, size :: rest => offset :: runningOffsets (offset + size) rest

/-- How many samples a chunk holds: as the last run says that begins no later. -/
def samplesIn (runs : List (Nat × Nat)) (chunk : Nat) : Nat :=
  ((runs.filter (·.1 ≤ chunk)).getLast?.map Prod.snd).getD 0

/-- The offsets of the samples of the chunks, which are numbered from one. -/
def placesFrom (runs : List (Nat × Nat)) : (chunk : Nat) → List Nat → List Nat → List Nat
  | _, [], _ => []
  | chunk, offset :: offsets, sizes =>
      let count := samplesIn runs chunk
      runningOffsets offset (sizes.take count) ++
        placesFrom runs (chunk + 1) offsets (sizes.drop count)

theorem runningOffsets_length (offset : Nat) (sizes : List Nat) :
    (runningOffsets offset sizes).length = sizes.length := by
  induction sizes generalizing offset with
  | nil => rfl
  | cons size sizes ih => rw [runningOffsets, List.length_cons, ih, List.length_cons]

/-- An offset is behind the sizes of those before it. -/
theorem runningOffsets_getElem? (offset : Nat) {sizes : List Nat} {k : Nat}
    (inside : k < sizes.length) :
    (runningOffsets offset sizes)[k]? = some (offset + (sizes.take k).sum) := by
  induction sizes generalizing offset k with
  | nil => exact absurd inside (Nat.not_lt_zero k)
  | cons size sizes ih =>
    cases k with
    | zero => rfl
    | succ k =>
      rw [runningOffsets, List.getElem?_cons_succ, ih _ (Nat.lt_of_succ_lt_succ inside),
        List.take_succ_cons, List.sum_cons, Nat.add_assoc]

theorem runningOffsets_append (offset : Nat) (first second : List Nat) :
    runningOffsets offset (first ++ second) =
      runningOffsets offset first ++ runningOffsets (offset + first.sum) second := by
  induction first generalizing offset with
  | nil => rfl
  | cons size first ih =>
    rw [List.cons_append, runningOffsets, runningOffsets, ih, List.sum_cons, Nat.add_assoc,
      List.cons_append]

/-- One chunk holds all samples. -/
theorem placesFrom_one (offset : Nat) (sizes : List Nat) :
    placesFrom [(1, sizes.length)] 1 [offset] sizes = runningOffsets offset sizes := by
  have count : samplesIn [(1, sizes.length)] 1 = sizes.length := rfl
  unfold placesFrom
  dsimp only
  rw [count, List.take_length]
  exact List.append_nil _

/-! ## Samples -/

/-- The columns of the tables, which have to be equally long. -/
def assemble : List Nat → List Nat → List Nat → List Int → List Bool → Option (List Sample)
  | [], [], [], [], [] => some []
  | offset :: offsets, size :: sizes, duration :: durations, compositionOffset :: compositions,
      sync :: syncs =>
      (assemble offsets sizes durations compositions syncs).map
        ({ offset, size, duration, compositionOffset, sync } :: ·)
  | _, _, _, _, _ => none

/-- Without their table, the samples are not reordered. -/
def compositionColumn (count : Nat) (ctts : Option Bytes) : Option (List Int) :=
  match ctts with
  | some ctts => (compositionOffsets.of ctts).map expand
  | none => some (List.replicate count 0)

/-- The sync samples are numbered from one; without their table, all are. -/
def syncColumn (count : Nat) (stss : Option Bytes) : Option (List Bool) :=
  match stss with
  | some stss => (syncSamples.of stss).map fun numbers =>
      (List.range count).map fun index => numbers.contains (index + 1)
  | none => some (List.replicate count true)

/-- The chunk offsets, in 32 bits or else in 64. -/
def chunkColumn (stco co64 : Option Bytes) : Option (List Nat) :=
  match stco with
  | some stco => (chunkOffsets 4).of stco
  | none => co64.bind (chunkOffsets 8).of

/-- The samples that the tables of a track describe. -/
def readSamples (stbl : Bytes) : Option (List Sample) := do
  let sizes ← (find (kind "stsz") stbl).bind sampleSizes.of
  let durations ← (find (kind "stts") stbl).bind timeToSample.of
  let compositions ← compositionColumn sizes.length (find (kind "ctts") stbl)
  let syncs ← syncColumn sizes.length (find (kind "stss") stbl)
  let runs ← (find (kind "stsc") stbl).bind samplesToChunk.of
  let offsets ← chunkColumn (find (kind "stco") stbl) (find (kind "co64") stbl)
  assemble (placesFrom runs 1 offsets sizes) sizes (expand durations) compositions syncs

structure Track where
  timescale : Nat
  samples : List Sample
  deriving DecidableEq, Repr

/-- The times before the timescale take more bytes in version one. -/
def mediaTimescale : Get Nat := do
  let version ← version
  let _ ← number (if version = 1 then 16 else 8)
  number 4

theorem mediaTimescale_of {body : Bytes} {width : Nat}
    (times : width = if readBe (body.take 1) = 1 then 16 else 8) (enough : 8 + width ≤ body.length) :
    mediaTimescale.of body = some (readBe (slice body (4 + width) 4)) := by
  have first : version body = some (readBe (body.take 1), body.drop 4) := by
    unfold version
    rw [Get.bind (number_of_le (by omega)), Get.bind (number_of_le (by rw [List.length_drop]; omega)),
      List.drop_drop]
    rfl
  unfold Get.of mediaTimescale
  rw [Get.bind first, ← times, Get.bind (number_of_le (by rw [List.length_drop]; omega)),
    List.drop_drop, number_of_le (by rw [List.length_drop]; omega)]
  rfl

def readTrack (trak : Bytes) : Option Track := do
  let timescale ← (findPath [kind "mdia", kind "mdhd"] trak).bind mediaTimescale.of
  let samples ← (findPath [kind "mdia", kind "minf", kind "stbl"] trak).bind readSamples
  return { timescale, samples }

theorem readTrack_of {trak mdhd stbl : Bytes} {timescale : Nat} {samples : List Sample}
    (header : findPath [kind "mdia", kind "mdhd"] trak = some mdhd)
    (timed : mediaTimescale.of mdhd = some timescale)
    (tables : findPath [kind "mdia", kind "minf", kind "stbl"] trak = some stbl)
    (read : readSamples stbl = some samples) : readTrack trak = some ⟨timescale, samples⟩ := by
  unfold readTrack
  rw [header, tables, Option.bind_some, timed, Option.bind_some, read]
  rfl

/-- The tracks that the movie box of a file describes. -/
def readMovie (file : Bytes) : Option (List Track) := do
  let moov ← find (kind "moov") file
  ((boxes moov).filter (·.1 = kind "trak")).mapM fun box => readTrack box.2

end Gunda.Lib.IsoMedia

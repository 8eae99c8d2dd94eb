import Gunda.Stream.Mux.Layout

/-!
# The written tables

Each table that is written for a track is read back as the column it was built from.
-/
namespace Gunda.Stream.Mux

open Gunda.Lib Gunda.Lib.Bytes
open IsoMedia (Get chunkRun compositionRun expand_append expand_single number_be pair pair_be
  sampleSizes signed syncColumn tableHead table_of)


/-- A sample as its fields hold it. -/
structure Sample.Fits (sample : Sample) : Prop where
  size : sample.size < 2 ^ 32
  duration : sample.duration < 2 ^ 32
  low : -2 ^ 31 ≤ sample.compositionOffset
  high : sample.compositionOffset < 2 ^ 31

/-! ## Runs -/

section

variable {α : Type} [DecidableEq α]
variable {runs : List (Nat × α)}

/-- Runs of some values each, as many as 32 bits count. -/
def Counted {α : Type} (runs : List (Nat × α)) : Prop := ∀ run ∈ runs, 0 < run.1 ∧ run.1 < 2 ^ 32

theorem addRun_ok {after : List (Nat × α)} {value : α} (counted : Counted runs)
    (h : addRun runs value = .ok after) :
    IsoMedia.expand after = IsoMedia.expand runs ++ [value] ∧ Counted after := by
  unfold addRun at h
  have one : Counted [(1, value)] := by
    intro run member
    rw [List.mem_singleton.mp member]
    exact ⟨Nat.one_pos, Nat.one_lt_two_pow (by decide)⟩
  cases last : runs.getLast? with
  | none =>
    rw [last] at h
    cases h
    rw [List.getLast?_eq_none_iff.mp last]
    exact ⟨rfl, one⟩
  | some run =>
    obtain ⟨count, repeated⟩ := run
    rw [last] at h
    have split : runs.dropLast ++ [(count, repeated)] = runs := List.dropLast_append_getLast? _ last
    by_cases same : repeated = value
    · dsimp only at h
      rw [if_pos same] at h
      obtain ⟨small, h⟩ := throw_unless_ok h
      cases h
      constructor
      · conv_rhs => rw [← split]
        rw [expand_append, expand_append, expand_single,
          expand_single, List.replicate_succ', same, List.append_assoc]
      · intro run member
        obtain front | back := List.mem_append.mp member
        · exact counted run ((List.dropLast_sublist runs).subset front)
        · rw [List.mem_singleton.mp back]
          exact ⟨Nat.succ_pos count, Nat.lt_of_not_le small⟩
    · dsimp only at h
      rw [if_neg same] at h
      cases h
      constructor
      · rw [expand_append]
        rfl
      · intro run member
        obtain front | back := List.mem_append.mp member
        · exact counted run front
        · exact one run back

theorem foldlM_addRun_ok {values : List α} {after : List (Nat × α)} (counted : Counted runs)
    (h : values.foldlM addRun runs = .ok after) :
    IsoMedia.expand after = IsoMedia.expand runs ++ values ∧ Counted after := by
  induction values generalizing runs with
  | nil =>
    cases h
    exact ⟨(List.append_nil _).symm, counted⟩
  | cons value values ih =>
    obtain ⟨next, first, h⟩ := bind_ok h
    obtain ⟨expanded, counted⟩ := addRun_ok counted first
    obtain ⟨whole, counted⟩ := ih counted h
    refine ⟨?_, counted⟩
    rw [whole, expanded, List.append_assoc]
    rfl

/-- Runs expand to the values they were built from. -/
theorem buildRuns_ok {values : List α} (h : buildRuns values = .ok runs) :
    IsoMedia.expand runs = values ∧ Counted runs :=
  foldlM_addRun_ok (fun run none => by cases none) h

end

theorem mem_of_run {α : Type} {values : List α} {runs : List (Nat × α)} {run : Nat × α}
    (expanded : IsoMedia.expand runs = values) (counted : Counted runs) (member : run ∈ runs) :
    run.2 ∈ values := by
  rw [← expanded]
  refine List.mem_flatMap.mpr ⟨run, member, List.mem_replicate.mpr ⟨?_, rfl⟩⟩
  have some_ := (counted run member).1
  omega

/-! ## Tables -/

variable {samples : List Sample}

theorem head_eq (version count : Nat) :
    be 1 version ++ be 3 0 ++ be 4 count = tableHead version count := by
  unfold tableHead
  rw [List.append_assoc]

theorem zeroHead_eq (count : Nat) : be 4 0 ++ be 4 count = tableHead 0 count := rfl

section

variable (fits : ∀ sample ∈ samples, sample.Fits)
include fits

theorem buildStts_ok {stts : Bytes} (h : buildStts samples = .ok stts) :
    ∃ runs, IsoMedia.timeToSample.of stts = some runs ∧
      IsoMedia.expand runs = samples.map (·.duration) := by
  obtain ⟨runs, built, h⟩ := bind_ok h
  obtain ⟨few, h⟩ := number_bind_ok h
  cases h
  obtain ⟨expanded, counted⟩ := buildRuns_ok built
  refine ⟨runs, ?_, expanded⟩
  have each : ∀ run ∈ runs, ∀ rest, pair 4 4 (be 4 run.1 ++ be 4 run.2 ++ rest) =
      some (run, rest) := by
    intro run member rest
    obtain ⟨sample, inside, same⟩ := List.mem_map.mp (mem_of_run expanded counted member)
    refine pair_be (counted run member).2 ?_ rest
    rw [← same]
    exact (fits sample inside).duration
  have first : 0 < 2 ^ 8 := by decide
  have read := table_of (fun _ => pair 4 4) first few each
  rw [List.map_id'] at read
  exact read

omit fits in
theorem compositionRun_be {version count : Nat} {n : Int} (low : -2 ^ 31 ≤ n) (high : n < 2 ^ 31)
    (few : count < 2 ^ 32) (unsigned : version = 0 → 0 ≤ n) (rest : Bytes) :
    compositionRun version (be 4 count ++ beI32 n ++ rest) = some ((count, n), rest) := by
  unfold compositionRun beI32
  rw [Get.bind (pair_be few (by omega) rest)]
  have value : (if version = 0 then ((n % 2 ^ 32).toNat : Int)
      else signed (n % 2 ^ 32).toNat) = n := by
    by_cases zero : version = 0
    · have positive := unsigned zero
      rw [if_pos zero]
      omega
    · rw [if_neg zero, IsoMedia.signed_mod low high]
  exact congrArg (fun value => some ((count, value), rest)) value

theorem buildCtts_ok {ctts : Option Bytes} (h : buildCtts samples = .ok ctts) :
    IsoMedia.compositionColumn samples.length ctts = some (samples.map (·.compositionOffset)) := by
  unfold buildCtts at h
  obtain ⟨zero, h⟩ | ⟨-, h⟩ := ite_ok h
  · cases h
    rw [List.all_eq_true] at zero
    refine congrArg some (List.eq_replicate_iff.mpr ⟨?_, ?_⟩).symm
    · rw [List.length_map]
    · intro offset member
      obtain ⟨sample, inside, rfl⟩ := List.mem_map.mp member
      exact of_decide_eq_true (zero sample inside)
  · obtain ⟨runs, built, h⟩ := bind_ok h
    obtain ⟨few, h⟩ := number_bind_ok h
    cases h
    obtain ⟨expanded, counted⟩ := buildRuns_ok built
    have unsigned : (if samples.any fun sample => sample.compositionOffset < 0 then 1 else 0) = 0 →
        ∀ sample ∈ samples, 0 ≤ sample.compositionOffset := by
      intro version sample inside
      by_contra negative
      have some_ : (samples.any fun sample => sample.compositionOffset < 0) = true :=
        List.any_eq_true.mpr ⟨sample, inside, decide_eq_true (by omega)⟩
      rw [if_pos some_] at version
      cases version
    have small : (if samples.any fun sample => sample.compositionOffset < 0 then 1 else 0) < 2 ^ 8 := by
      split <;> decide
    unfold IsoMedia.compositionColumn
    rw [head_eq]
    generalize (if samples.any fun sample => sample.compositionOffset < 0 then 1 else 0) = version
      at unsigned small
    have each : ∀ run ∈ runs, ∀ rest, compositionRun version
        (be 4 run.1 ++ beI32 run.2 ++ rest) = some (run, rest) := by
      intro run member rest
      obtain ⟨sample, inside, same⟩ := List.mem_map.mp (mem_of_run expanded counted member)
      have within := fits sample inside
      refine compositionRun_be ?_ ?_ (counted run member).2 ?_ rest
      · rw [← same]
        exact within.low
      · rw [← same]
        exact within.high
      · rw [← same]
        exact fun zero => unsigned zero sample inside
    have read := table_of compositionRun small few each
    rw [List.map_id'] at read
    change ((IsoMedia.table compositionRun).of _).map _ = _
    rw [read, Option.map_some, expanded]

theorem buildStsz_ok {stsz : Bytes} (h : buildStsz samples = .ok stsz) :
    sampleSizes.of stsz = some (samples.map (·.size)) := by
  obtain ⟨few, h⟩ := number_bind_ok h
  cases h
  have each : ∀ sample ∈ samples, ∀ rest, IsoMedia.number 4 (be 4 sample.size ++ rest) =
      some (sample.size, rest) := fun sample inside => number_be (fits sample inside).size
  have read := IsoMedia.many_flatMap each []
  rw [List.append_nil] at read
  have versioned : IsoMedia.version (be 4 0 ++ (be 4 0 ++ (be 4 samples.length ++
      samples.flatMap fun sample => be 4 sample.size))) = some (0, be 4 0 ++ (be 4 samples.length ++
      samples.flatMap fun sample => be 4 sample.size)) := rfl
  unfold Get.of sampleSizes
  rw [List.append_assoc, List.append_assoc, Get.bind versioned,
    Get.bind (number_be (by decide) _),
    Get.bind (number_be few _), if_pos rfl, read]
  rfl

end

theorem buildStsc_ok {stsc : Bytes} (h : buildStsc samples = .ok stsc) :
    IsoMedia.samplesToChunk.of stsc = some [(1, samples.length)] := by
  obtain ⟨few, h⟩ := number_bind_ok h
  cases h
  have each : ∀ count ∈ [samples.length], ∀ rest, chunkRun
      (be 4 1 ++ be 4 count ++ be 4 1 ++ rest) = some ((1, count), rest) := by
    intro count member rest
    rw [List.mem_singleton.mp member]
    unfold chunkRun
    rw [List.append_assoc, Get.bind (pair_be (by decide) few _),
      Get.bind (number_be (by decide) _)]
    rfl
  have first : 0 < 2 ^ 8 := by decide
  have one : [samples.length].length < 2 ^ 32 := by
    rw [List.length_singleton]
    decide
  have read := table_of (fun _ => chunkRun) first one each
  rw [List.flatMap_singleton] at read
  exact read

theorem mapM_number {numbers : List Nat} {written : List Bytes} (h : numbers.mapM number = .ok written) :
    written.length = numbers.length ∧ written.flatten = numbers.flatMap (be 4) ∧
      ∀ n ∈ numbers, n < 2 ^ 32 := by
  have both := mapM_ok h
  clear h
  induction both with
  | nil => exact ⟨rfl, rfl, fun n none => by cases none⟩
  | cons first _ ih =>
    obtain ⟨small, rfl⟩ := number_ok first
    obtain ⟨lengths, flat, each⟩ := ih
    refine ⟨congrArg Nat.succ lengths, ?_, List.forall_mem_cons.mpr ⟨small, each⟩⟩
    rw [List.flatten_cons, flat, List.flatMap_cons]

theorem mem_syncNumbers {index : Nat} {sample : Sample} (at_ : samples[index]? = some sample) :
    index + 1 ∈ syncNumbers samples ↔ sample.sync = true := by
  unfold syncNumbers
  rw [List.mem_map]
  constructor
  · rintro ⟨⟨other, place⟩, member, same⟩
    obtain ⟨listed, sync⟩ := List.mem_filter.mp member
    have found := List.mem_zipIdx_iff_getElem?.mp listed
    have here : place = index := Nat.succ.inj same
    rw [here, at_] at found
    cases found
    exact sync
  · intro sync
    refine ⟨(sample, index), List.mem_filter.mpr ⟨?_, sync⟩, rfl⟩
    exact List.mem_zipIdx_iff_getElem?.mpr at_

theorem sync_column : (List.range samples.length).map (fun index =>
    (syncNumbers samples).contains (index + 1)) = samples.map (·.sync) := by
  refine List.ext_getElem? fun index => ?_
  rw [List.getElem?_map, List.getElem?_map]
  cases at_ : samples[index]? with
  | none =>
    have past : (List.range samples.length).length ≤ index := by
      rw [List.length_range]
      exact List.getElem?_eq_none_iff.mp at_
    rw [List.getElem?_eq_none past]
    rfl
  | some sample =>
    have inside := (List.getElem?_eq_some_iff.mp at_).1
    rw [List.getElem?_range inside]
    refine congrArg some ?_
    rw [Bool.eq_iff_iff, List.contains_iff_mem]
    exact mem_syncNumbers at_

theorem buildStss_ok {stss : Option Bytes} (h : buildStss samples = .ok stss) :
    syncColumn samples.length stss = some (samples.map (·.sync)) := by
  unfold buildStss at h
  obtain ⟨all, h⟩ | ⟨-, h⟩ := ite_ok h
  · cases h
    rw [List.all_eq_true] at all
    refine congrArg some (List.eq_replicate_iff.mpr ⟨?_, ?_⟩).symm
    · rw [List.length_map]
    · intro sync member
      obtain ⟨sample, inside, rfl⟩ := List.mem_map.mp member
      exact all sample inside
  · obtain ⟨written, numbers, h⟩ := bind_ok h
    obtain ⟨few, h⟩ := number_bind_ok h
    cases h
    obtain ⟨lengths, flat, small⟩ := mapM_number numbers
    rw [lengths] at few
    have first : 0 < 2 ^ 8 := by decide
    have each : ∀ n ∈ syncNumbers samples, ∀ rest, IsoMedia.number 4 (be 4 n ++ rest) =
        some (n, rest) := fun n member => number_be (small n member)
    have read := table_of (fun _ => IsoMedia.number 4) first few each
    rw [List.map_id'] at read
    unfold syncColumn
    rw [lengths, flat, zeroHead_eq]
    change ((IsoMedia.table fun _ => IsoMedia.number 4).of _).map _ = _
    rw [read, Option.map_some, sync_column]

/-- The one chunk offset is read back. -/
theorem oneChunk_read {largeOffsets : Bool} {start : Nat} (fits : start < 256 ^ offsetWidth largeOffsets) :
    (IsoMedia.chunkOffsets (offsetWidth largeOffsets)).of
      (oneChunk (be (offsetWidth largeOffsets) start)) = some [start] := by
  have first : 0 < 2 ^ 8 := by decide
  have one : [start].length < 2 ^ 32 := by
    rw [List.length_singleton]
    decide
  have each : ∀ at_ ∈ [start], ∀ rest, IsoMedia.number (offsetWidth largeOffsets)
      (be (offsetWidth largeOffsets) at_ ++ rest) = some (at_, rest) := by
    intro at_ member
    rw [List.mem_singleton.mp member]
    exact number_be fits
  have read := table_of (fun _ => IsoMedia.number (offsetWidth largeOffsets)) first one each
  rw [List.map_id', List.flatMap_singleton] at read
  exact read

end Gunda.Stream.Mux

import Gunda.Stream.Mux.Resolution

/-!
# One description for all samples

A track file may hold several initialization segments, and a track is written with one.
-/
namespace Gunda.Stream.Mux

open Gunda.Lib Gunda.Lib.Bytes
open Gunda.Lib.IsoMedia (kind)

variable {index : Nat} {part : Part}

/-- What the samples of a track are decoded and timed by. -/
structure Description where
  stsd : Bytes
  hdlr : Bytes
  timescale : Nat
  deriving DecidableEq

def DemuxedTrack.description (track : DemuxedTrack) : Description :=
  ⟨track.stsd, track.hdlr, track.timescale⟩

/-- The description in an initialization segment. -/
def describe (moov : Bytes) : Option Description := do
  let track ← findBox [kind "trak"] moov
  let mdhd ← findBox [kind "mdia", kind "mdhd"] track
  let timescale ← readTimescale mdhd
  let hdlr ← findBox [kind "mdia", kind "hdlr"] track
  let stsd ← findBox [kind "mdia", kind "minf", kind "stbl", kind "stsd"] track
  return ⟨stsd, hdlr, timescale⟩

/-- How many samples the first boxes of a file push. -/
def samplesUpTo (parts : List Part) (count : Nat) : Nat :=
  ((pushParts (parts.take count)).toOption.map (·.samples.length)).getD 0

/-- The sample comes from the fragment at the index. -/
def FromFragment (parts : List Part) (sample index : Nat) : Prop :=
  samplesUpTo parts index ≤ sample ∧ sample < samplesUpTo parts (index + 1)

/-- The sample entry that a track fragment selects, or else its movie. -/
def Traf.entry (traf : Traf) (moov : Bytes) : Nat :=
  (traf.header.sampleDescriptionIndex.or ((movieTrex moov traf.trackId).map Trex.entry)).getD 1

/-- The samples of a fragment are all of the first sample entry, which is the one that is
written for them. -/
def Part.OfFirstEntry (moov : Bytes) : Part → Prop
  | .moof body _ => ∀ trafs, readTrafs body = .ok trafs →
      ∀ traf ∈ trafs, traf.holdsSamples → traf.entry moov = 1
  | _ => True

/-- Every sample is described by the initialization segment most recently before its
fragment, and by its first sample entry. -/
def DescribedByTheirs (parts : List Part) (track : DemuxedTrack) : Prop :=
  ∀ sample < track.samples.length, ∃ index part moov, FromFragment parts sample index ∧
    parts[index]? = some part ∧ lastMoov (parts.take index) = some moov ∧
    describe moov = some track.description ∧ part.OfFirstEntry moov

/-- A fragment with samples. -/
def Part.HoldsSamples : Part → Prop
  | .moof body _ => ∃ trafs, readTrafs body = .ok trafs ∧ ∃ traf ∈ trafs, traf.holdsSamples
  | _ => False

/-- No track fragment with samples leaves its sample entry to a movie that selects another
one than the first. -/
def Part.LeavesFirstEntry (moov : Bytes) : Part → Prop
  | .moof body _ => ∀ trafs, readTrafs body = .ok trafs →
      ∀ traf ∈ trafs, traf.holdsSamples → traf.header.sampleDescriptionIndex = none →
        ∀ trex, movieTrex moov traf.trackId = some trex → trex.entry = 1
  | _ => True

/-- Every fragment with samples follows an initialization segment that describes what the
last one does, and selects no other sample entry than the first. -/
def OneDescription (parts : List Part) : Prop :=
  ∀ index part, parts[index]? = some part → part.HoldsSamples →
    ∃ moov, lastMoov (parts.take index) = some moov ∧
      describe moov = (lastMoov parts).bind describe ∧ part.LeavesFirstEntry moov

theorem describe_of_ok {moov : Bytes} {fragments : Fragments} {track : DemuxedTrack}
    (h : readInitialization moov fragments = .ok track) : describe moov = some track.description := by
  obtain ⟨trak, trak_eq, h⟩ := bind_ok h
  obtain ⟨tkhd, -, h⟩ := bind_ok h
  obtain ⟨mdhd, mdhd_eq, h⟩ := bind_ok h
  obtain ⟨timescale, timescale_eq, h⟩ := bind_ok h
  obtain ⟨-, h⟩ := throw_unless_ok h
  obtain ⟨hdlr, hdlr_eq, h⟩ := bind_ok h
  obtain ⟨mediaHeader, -, h⟩ := bind_ok h
  obtain ⟨dinf, -, h⟩ := bind_ok h
  obtain ⟨stsd, stsd_eq, h⟩ := bind_ok h
  obtain ⟨-, h⟩ := throw_unless_ok h
  cases h
  simp only [describe, required_ok trak_eq, required_ok mdhd_eq, required_ok timescale_eq,
    required_ok hdlr_eq, required_ok stsd_eq, Option.bind_eq_bind, Option.bind_some]
  rfl

variable {list : List Part} {fragments : Fragments}

theorem pushParts_take (pushed : pushParts list = .ok fragments) (count : Nat) :
    ∃ before, pushParts (list.take count) = .ok before := by
  have split := List.take_append_drop count list
  unfold pushParts at pushed ⊢
  rw [← split, List.foldlM_append] at pushed
  obtain ⟨before, first, -⟩ := bind_ok pushed
  exact ⟨before, first⟩

theorem samplesUpTo_of_ok {count : Nat} {before : Fragments}
    (h : pushParts (list.take count) = .ok before) :
    samplesUpTo list count = before.samples.length := by
  unfold samplesUpTo
  rw [h]
  rfl

theorem Stands.length {kept : List Sample} {line : Timeline} (stands : Stands fragments kept line) :
    fragments.samples.length = kept.length := by
  rw [stands.samples, List.length_zipWith, stands.count, Nat.min_self]

theorem taken_ne_nil_iff {moof : Moof} :
    moof.taken ≠ [] ↔ ∃ traf ∈ moof.trafs, traf.holdsSamples := by
  unfold Moof.taken
  rw [ne_eq, List.flatMap_eq_nil_iff]
  push Not
  refine exists_congr fun traf => and_congr_right fun _ => ?_
  unfold Traf.taken Traf.holdsSamples
  have lengths := congrArg List.length (resolveRuns_durations traf.header.defaults
    (traf.base moof.start) (traf.base moof.start) traf.runs)
  rw [List.length_map, List.length_map] at lengths
  rw [ne_eq, ne_eq, List.map_eq_nil_iff, ← List.length_eq_zero_iff, ← List.length_eq_zero_iff,
    ← lengths]
  rfl

section

variable (pushed : pushParts list = .ok fragments)
include pushed

section

variable (at_ : list[index]? = some part)
include at_

theorem pushPart_ok :
    ∃ before after, pushParts (list.take index) = .ok before ∧
      pushParts (list.take (index + 1)) = .ok after ∧ before.pushPart part = .ok after := by
  obtain ⟨before, first⟩ := pushParts_take pushed index
  obtain ⟨after, second⟩ := pushParts_take pushed (index + 1)
  refine ⟨before, after, first, second, ?_⟩
  unfold pushParts at first second
  rw [List.take_add_one, at_, Option.toList_some, List.foldlM_append, first, ok_bind,
    List.foldlM_cons] at second
  obtain ⟨next, pushed, last⟩ := bind_ok second
  cases last
  exact pushed

/-- A box pushes samples exactly when it is a fragment that holds some. -/
theorem samplesUpTo_succ :
    samplesUpTo list index ≤ samplesUpTo list (index + 1) ∧
      (samplesUpTo list index < samplesUpTo list (index + 1) ↔ part.HoldsSamples) := by
  obtain ⟨before, after, first, second, step⟩ := pushPart_ok pushed at_
  rw [samplesUpTo_of_ok first, samplesUpTo_of_ok second]
  cases part with
  | moov body =>
    cases step
    exact ⟨Nat.le_refl _, fun less => absurd less (Nat.lt_irrefl _), False.elim⟩
  | other =>
    cases step
    exact ⟨Nat.le_refl _, fun less => absurd less (Nat.lt_irrefl _), False.elim⟩
  | moof body start =>
    obtain ⟨moofs, kept, -, stands, -⟩ := pushParts_ok first
    obtain ⟨trafs, added, read, -, stood, taken⟩ := stands.push step
    have lengths : after.samples.length = before.samples.length + added.length := by
      rw [stood.length, stands.length, List.length_append]
    have counted := congrArg List.length taken
    rw [List.length_map] at counted
    have holds : 0 < added.length ↔ (Part.moof body start).HoldsSamples := by
      rw [counted, List.length_pos_iff, taken_ne_nil_iff]
      constructor
      · intro some_
        exact ⟨trafs, read, some_⟩
      · rintro ⟨others, read', some_⟩
        cases read.symm.trans read'
        exact some_
    refine ⟨by omega, ?_⟩
    rw [← holds]
    omega

/-- The code sees to the sample entries that the fragments select themselves. -/
theorem ofFirstEntry_iff (moov : Bytes) :
    part.OfFirstEntry moov ↔ part.LeavesFirstEntry moov := by
  obtain ⟨before, after, first, -, step⟩ := pushPart_ok pushed at_
  cases part with
  | moov body => rfl
  | other => rfl
  | moof body start =>
    obtain ⟨moofs, kept, -, stands, -⟩ := pushParts_ok first
    obtain ⟨trafs, added, read, selects, -, -⟩ := stands.push step
    refine forall₂_congr fun others read' => forall₂_congr fun traf member => imp_congr_right fun _ => ?_
    cases read.symm.trans read'
    unfold Traf.entry
    cases named : traf.header.sampleDescriptionIndex with
    | some entry =>
      have one := selects traf member entry named
      exact ⟨fun _ none => (by cases none), fun _ => one⟩
    | none =>
      cases movieTrex moov traf.trackId with
      | none => exact ⟨fun _ _ _ none => (by cases none), fun _ => rfl⟩
      | some trex =>
        constructor
        · intro one _ other same
          cases same
          exact one
        · intro one
          exact one rfl trex rfl

end

theorem samplesUpTo_mono {first second : Nat}
    (le : first ≤ second) : samplesUpTo list first ≤ samplesUpTo list second := by
  induction le with
  | refl => exact Nat.le_refl _
  | @step second le ih =>
    refine Nat.le_trans ih ?_
    cases at_ : list[second]? with
    | some part => exact (samplesUpTo_succ pushed at_).1
    | none =>
      have past := List.getElem?_eq_none_iff.mp at_
      unfold samplesUpTo
      rw [List.take_of_length_le past, List.take_of_length_le (Nat.le_succ_of_le past)]

theorem samplesUpTo_length :
    samplesUpTo list list.length = fragments.samples.length := by
  refine samplesUpTo_of_ok ?_
  rw [List.take_length]
  exact pushed

omit pushed in
theorem exists_crossing {f : Nat → Nat} {k : Nat} (low : f 0 ≤ k) (n : Nat) (high : k < f n) :
    ∃ i < n, f i ≤ k ∧ k < f (i + 1) := by
  induction n with
  | zero => omega
  | succ n ih =>
    by_cases within : k < f n
    · obtain ⟨i, less, both⟩ := ih within
      exact ⟨i, Nat.lt_succ_of_lt less, both⟩
    · exact ⟨n, Nat.lt_succ_self n, Nat.le_of_not_lt within, high⟩

/-- Every sample comes from one fragment. -/
theorem exists_fragment {sample : Nat} (inside : sample < fragments.samples.length) :
    ∃ index < list.length, FromFragment list sample index := by
  rw [← samplesUpTo_length pushed] at inside
  have none : samplesUpTo list 0 ≤ sample := Nat.zero_le _
  exact exists_crossing none list.length inside

theorem fromFragment_unique {sample first second : Nat}
    (one : FromFragment list sample first) (two : FromFragment list sample second) :
    first = second := by
  have ordered : ∀ a b, FromFragment list sample a → FromFragment list sample b → b ≤ a := by
    intro a b of_a of_b
    by_contra later
    have mono : samplesUpTo list (a + 1) ≤ samplesUpTo list b :=
      samplesUpTo_mono pushed (Nat.lt_of_not_le later)
    have low := of_b.1
    have high := of_a.2
    omega
  exact Nat.le_antisymm (ordered second first two one) (ordered first second one two)

end

/-- A track that is accepted has each sample described by the initialization segment most
recently before its fragment exactly when all of these describe the same. -/
theorem described_by_theirs_iff {file : Bytes} {track : DemuxedTrack} (accepted : demux file = .ok track) :
    ∃ found, parts file = .ok found ∧ (DescribedByTheirs found track ↔ OneDescription found) := by
  obtain ⟨found, moov, fragments, walked, last, pushed, initialized⟩ := demux_ok accepted
  have described := describe_of_ok initialized
  have lasting : (lastMoov found).bind describe = some track.description := by
    rw [last]
    exact described
  have counted : track.samples.length = fragments.samples.length := by
    rw [(readInitialization_samples initialized).1]
  refine ⟨found, walked, ?_, ?_⟩
  · intro theirs index part at_ holds
    obtain ⟨-, grows⟩ := samplesUpTo_succ pushed at_
    have more := grows.mpr holds
    have here : FromFragment found (samplesUpTo found index) index := ⟨Nat.le_refl _, more⟩
    have inside : samplesUpTo found index < track.samples.length := by
      have most : samplesUpTo found (index + 1) ≤ samplesUpTo found found.length :=
        samplesUpTo_mono pushed (Nat.succ_le_of_lt (List.getElem?_eq_some_iff.mp at_).1)
      rw [samplesUpTo_length pushed] at most
      omega
    obtain ⟨other, part', moov', from_, at', before, describes, first⟩ := theirs _ inside
    have same := fromFragment_unique pushed from_ here
    subst same
    cases at_.symm.trans at'
    refine ⟨moov', before, ?_, (ofFirstEntry_iff pushed at_ moov').mp first⟩
    rw [lasting]
    exact describes
  · intro one sample inside
    rw [counted] at inside
    obtain ⟨index, less, from_⟩ := exists_fragment pushed inside
    have at_ : found[index]? = some found[index] := List.getElem?_eq_getElem less
    have holds := (samplesUpTo_succ pushed at_).2.mp (Nat.lt_of_le_of_lt from_.1 from_.2)
    obtain ⟨moov', before, describes, first⟩ := one index _ at_ holds
    refine ⟨index, _, moov', from_, at_, before, ?_, (ofFirstEntry_iff pushed at_ moov').mpr first⟩
    rw [describes]
    exact lasting

/-! ## Two initialization segments -/

/-- A file whose second initialization segment counts time twice as fine. -/
def changedFile : Bytes :=
  boxed (kind "moov") (movie 1000 0) ++ boxed (kind "moof") oneSample ++
    (boxed (kind "moov") (movie 2000 0) ++ boxed (kind "moof") oneSample)

def changedTrack : DemuxedTrack :=
  { dependentTrack with
    mdhd := be 4 0 ++ be 8 0 ++ be 4 2000 ++ be 4 0
    timescale := 2000
    samples := [⟨172, 7, 40, 0, true⟩, ⟨396, 7, 40, 0, true⟩]
    duration := 80 }

theorem changedFile_accepted : demux changedFile = .ok changedTrack := by decide +kernel

/-- The samples before a change of the timescale are timed by the later one. -/
theorem first_fragment_timed_by_second :
    ¬ ∀ file track, demux file = .ok track →
      ∃ found, parts file = .ok found ∧ DescribedByTheirs found track := by
  intro all
  obtain ⟨found, walked, theirs⟩ := all _ _ changedFile_accepted
  have whole : parts changedFile = .ok [.moov (movie 1000 0), .moof oneSample 164,
      .moov (movie 2000 0), .moof oneSample 388] := by decide +kernel
  cases whole.symm.trans walked
  obtain ⟨index, part, moov, from_, -, before, describes, -⟩ := theirs 0 (by decide)
  have pushed : pushParts [.moov (movie 1000 0), .moof oneSample 164, .moov (movie 2000 0),
      .moof oneSample 388] = .ok ⟨changedTrack.samples, 80, none⟩ := by decide +kernel
  have second : FromFragment [.moov (movie 1000 0), .moof oneSample 164, .moov (movie 2000 0),
      .moof oneSample 388] 0 1 := by
    unfold FromFragment
    decide +kernel
  cases fromFragment_unique pushed from_ second
  cases before
  revert describes
  decide +kernel

theorem changedFile_described_iff :
    ∃ found, parts changedFile = .ok found ∧
      (DescribedByTheirs found changedTrack ↔ OneDescription found) :=
  described_by_theirs_iff changedFile_accepted

end Gunda.Stream.Mux

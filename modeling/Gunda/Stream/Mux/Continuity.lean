import Gunda.Stream.Mux.Resolution
import Mathlib.Data.List.TakeWhile

/-!
# The decode times of fragments

Fragments say when their first sample is decoded. What the durations of the samples add up
to against these times, over a whole file.
-/
namespace Gunda.Stream.Mux

open Gunda.Lib Gunda.Lib.Bytes
open Gunda.Lib.IsoMedia (kind)

variable {trafs done : List Traf} {k time : Nat} {before : List Sample} {owns : List Nat}

/-! ## Decode times -/

def firstTime (trafs : List Traf) : Option Nat := trafs.findSome? (·.decodeTime)

/-- The fragments in front of the first one that carries a decode time. -/
def untimed (trafs : List Traf) : List Traf := trafs.takeWhile (·.decodeTime.isNone)

/-- How long the samples in front of the first decode time last. -/
def ahead (trafs : List Traf) : Nat := ((untimed trafs).flatMap Traf.durations).sum

/-- How long the samples in front of a fragment last. -/
def startOf (trafs : List Traf) (samples : List Sample) (k : Nat) : Nat :=
  durations (samples.take ((trafs.take k).flatMap Traf.durations).length)

/-- A fragment that carries a decode time for its first sample. -/
def Places (trafs : List Traf) (k time : Nat) : Prop :=
  ∃ traf : Traf, trafs[k]? = some traf ∧ traf.decodeTime = some time ∧ traf.durations ≠ []

/-- The samples of a track are decoded when its fragments say, measured from the first one. -/
structure OnTime (trafs : List Traf) (track : DemuxedTrack) : Prop where
  total : track.duration = durations track.samples
  starts : ∀ origin k time, firstTime trafs = some origin → Places trafs k time →
    startOf trafs track.samples k + origin = time + ahead trafs
  apart : ∀ i start k time, i < k → Places trafs i start → Places trafs k time →
    start + (((trafs.take k).drop i).flatMap Traf.durations).sum ≤ time

/-- How long the samples in front of a fragment last before its own decode time is met. -/
def reached (trafs : List Traf) (k : Nat) : Nat :=
  ((trafs.take k).foldl Timeline.step .start).decoded

/-- Behind the first decode time, the time that the code takes for reached is the one the
samples so far have reached. -/
def TrulyReached (trafs : List Traf) : Prop :=
  ∀ origin k time, firstTime trafs = some origin → Places trafs k time →
    (untimed trafs).length < k →
      saturatingAdd origin (reached trafs k) + ahead trafs = origin + reached trafs k

/-! ## Runs over track fragments -/

def trafsOf (moofs : List Moof) : List Traf := moofs.flatMap (·.trafs)

section Rule

variable {P : List Traf → Fragments → Prop}

section

variable (step : ∀ {done before traf fragment after read}, P done before → before.pushTraf traf fragment = .ok after → Traf.read traf = .ok read → P (done ++ [read]) after)
include step

theorem push_rule {moof : Bytes} {start : Nat} {trafs done : List Traf} {before after : Fragments}
    (held : P done before) (read : readTrafs moof = .ok trafs)
    (h : before.push moof start = .ok after) : P (done ++ trafs) after := by
  unfold Fragments.push at h
  unfold readTrafs at read
  generalize boxes moof = boxes at h read
  induction boxes generalizing before trafs done with
  | nil =>
    cases h
    rw [List.filter_nil, List.mapM_nil] at read
    cases read
    rw [List.append_nil]
    exact held
  | cons box boxes ih =>
    obtain ⟨middle, first, h⟩ := bind_ok h
    dsimp only at first
    by_cases track : box.1 = kind "traf"
    · rw [if_pos track] at first
      rw [List.filter_cons_of_pos (by simpa using track), List.mapM_cons] at read
      obtain ⟨one, readOne, read⟩ := bind_ok read
      obtain ⟨others, readOthers, read⟩ := bind_ok read
      cases read
      have later := ih (step held first readOne) h readOthers
      rwa [List.append_assoc] at later
    · rw [if_neg track] at first
      cases first
      rw [List.filter_cons_of_neg (by simpa using track)] at read
      exact ih held h read

/-- What every track fragment preserves holds of those of a whole file. -/
theorem pushParts_rule
    {parts : List Part} {moofs : List Moof} {done : List Traf} {before after : Fragments}
    (held : P done before) (read : readMoofs parts = .ok moofs)
    (h : parts.foldlM Fragments.pushPart before = .ok after) : P (done ++ trafsOf moofs) after := by
  induction parts generalizing moofs before done with
  | nil =>
    cases h
    cases read
    rw [trafsOf, List.flatMap_nil, List.append_nil]
    exact held
  | cons part parts ih =>
    obtain ⟨middle, first, onward⟩ := bind_ok h
    cases part with
    | moov body =>
      cases first
      exact ih held read onward
    | other =>
      cases first
      exact ih held read onward
    | moof body start =>
      unfold readMoofs at read
      obtain ⟨trafs, readTrafs, read⟩ := bind_ok read
      obtain ⟨more, readMore, read⟩ := bind_ok read
      cases read
      have later := ih (push_rule step held readTrafs first) readMore onward
      rwa [List.append_assoc] at later

end

end Rule

/-! ## One decode time -/

/-- A decode time that was met exactly, as far as the code can count, or by a gap. -/
def Met (origin before after time : Nat) : Prop :=
  time = saturatingAdd origin before ∧ after = before ∨
    origin + before < time ∧ time ≤ maxU64 ∧ after + origin = time

/-- The samples with the last one possibly longer. -/
def Lengthened (before after : List Sample) : Prop :=
  after = before ∨ ∃ front last gap, before = front ++ [last] ∧ after = front ++ [last.stretched gap]

structure Aligned (before after : Fragments) (base : Option Nat) : Prop where
  origin : after.origin = before.origin.or base
  total : after.decoded = durations after.samples
  samples : Lengthened before.samples after.samples
  met : ∀ origin time, before.origin = some origin → base = some time →
    Met origin before.decoded after.decoded time
  fresh : before.origin = none → after.samples = before.samples

theorem durations_append (first second : List Sample) :
    durations (first ++ second) = durations first + durations second := by
  unfold durations
  rw [List.map_append, List.sum_append]

theorem alignTo_aligned {before after : Fragments} {base : Option Nat}
    (fits : ∀ time, base = some time → time < 2 ^ 64)
    (total : before.decoded = durations before.samples) (h : before.alignTo base = .ok after) :
    Aligned before after base := by
  cases base with
  | none =>
    cases h
    refine ⟨(Option.or_none).symm, total, .inl rfl, fun _ _ _ none => ?_, fun _ => rfl⟩
    cases none
  | some base =>
    have small := fits base rfl
    unfold Fragments.alignTo at h
    unfold Fragments.align at h
    cases begun : before.origin with
    | none =>
      rw [begun] at h
      cases h
      refine ⟨by rw [begun]; rfl, total, .inl rfl, fun _ _ some_ _ => ?_, fun _ => rfl⟩
      rw [begun] at some_
      cases some_
    | some origin =>
      rw [begun] at h
      dsimp only at h
      have most : saturatingAdd origin before.decoded = min (origin + before.decoded) maxU64 := rfl
      have largest : maxU64 = 2 ^ 64 - 1 := rfl
      have nothingFresh {P : Prop} : before.origin = none → P := by
        intro none
        rw [begun] at none
        cases none
      by_cases met : base = saturatingAdd origin before.decoded
      · rw [if_pos met] at h
        cases h
        refine ⟨by rw [begun]; rfl, total, .inl rfl, fun other time same at_ => ?_, nothingFresh⟩
        rw [begun] at same
        cases same
        cases at_
        exact .inl ⟨met, rfl⟩
      · rw [if_neg met] at h
        obtain ⟨later, h⟩ := throw_unless_ok h
        obtain ⟨-, h⟩ := throw_unless_ok h
        cases ends : before.samples.getLast? with
        | none =>
          rw [ends] at h
          cases h
        | some last =>
          rw [ends] at h
          obtain ⟨-, h⟩ := throw_unless_ok h
          cases h
          obtain ⟨front, shape⟩ := List.getLast?_eq_some_iff.mp ends
          refine ⟨by rw [begun]; rfl, ?_,
            .inr ⟨front, last, base - saturatingAdd origin before.decoded, shape, ?_⟩,
            fun other time same at_ => ?_, nothingFresh⟩
          · dsimp only
            rw [total, shape, List.dropLast_concat, durations_append, durations_append]
            unfold durations
            simp only [List.map_cons, List.map_nil, List.sum_cons, List.sum_nil]
            omega
          · dsimp only
            rw [shape, List.dropLast_concat]
            rfl
          · rw [begun] at same
            cases same
            cases at_
            refine .inr ?_
            dsimp only
            omega

/-! ## Prefixes of the fragments -/

theorem Places.lt (places : Places trafs k time) :
    k < trafs.length := by
  obtain ⟨traf, there, -⟩ := places
  exact (List.getElem?_eq_some_iff.mp there).1

theorem Places.of_append {more : List Traf} (earlier : k < done.length)
    (places : Places (done ++ more) k time) : Places done k time := by
  obtain ⟨traf, there, rest⟩ := places
  rw [List.getElem?_append_left earlier] at there
  exact ⟨traf, there, rest⟩

theorem take_append {more : List Traf} (earlier : k ≤ done.length) :
    (done ++ more).take k = done.take k := List.take_append_of_le_length earlier

theorem firstTime_append (done more : List Traf) :
    firstTime (done ++ more) = (firstTime done).or (firstTime more) := List.findSome?_append

theorem untimed_of_none (none : firstTime done = none) : untimed done = done := by
  refine List.takeWhile_eq_self_iff.mpr fun traf member => ?_
  rw [List.findSome?_eq_none_iff.mp none traf member]
  rfl

theorem untimed_append (more : List Traf) {origin : Nat} (timed : firstTime done = some origin) :
    untimed (done ++ more) = untimed done := by
  induction done with
  | nil => cases timed
  | cons traf done ih =>
    unfold firstTime at timed
    unfold untimed
    rw [List.findSome?_cons] at timed
    rw [List.cons_append, List.takeWhile_cons, List.takeWhile_cons]
    cases time : traf.decodeTime with
    | none =>
      rw [time] at timed
      exact congrArg (traf :: ·) (ih timed)
    | some time => rfl

theorem untimed_lt {origin : Nat} (timed : firstTime done = some origin) :
    (untimed done).length < done.length := by
  induction done with
  | nil => cases timed
  | cons traf done ih =>
    unfold firstTime at timed
    unfold untimed
    rw [List.findSome?_cons] at timed
    rw [List.takeWhile_cons]
    cases time : traf.decodeTime with
    | none =>
      rw [time] at timed
      exact Nat.succ_lt_succ (ih timed)
    | some time => exact Nat.succ_pos _

/-- The samples in front of a fragment are fewer than those of all. -/
theorem Places.before_lt (places : Places trafs k time) :
    ((trafs.take k).flatMap Traf.durations).length < (trafs.flatMap Traf.durations).length := by
  obtain ⟨traf, there, -, some_⟩ := places
  obtain ⟨inside, same⟩ := List.getElem?_eq_some_iff.mp there
  have whole : trafs = trafs.take k ++ traf :: trafs.drop (k + 1) := by
    rw [← same, ← List.drop_eq_getElem_cons inside, List.take_append_drop]
  have own := List.length_pos_iff.mpr some_
  conv_rhs => rw [whole]
  rw [List.flatMap_append, List.flatMap_cons, List.length_append, List.length_append]
  omega

theorem Lengthened.take {after : List Sample} (lengthened : Lengthened before after)
    (added : List Sample) {n : Nat} (inside : n < before.length) :
    (after ++ added).take n = before.take n := by
  cases lengthened with
  | inl same => rw [same, List.take_append_of_le_length inside.le]
  | inr longer =>
    obtain ⟨front, last, gap, rfl, rfl⟩ := longer
    rw [List.length_append] at inside
    have front_ : n ≤ front.length := Nat.le_of_lt_succ inside
    rw [List.append_assoc, List.take_append_of_le_length front_, List.take_append_of_le_length front_]

/-! ## What lasts -/

/-- A sample lasts at least as long as its fragment says. -/
def Lasts (own : Nat) (sample : Sample) : Prop := own ≤ sample.duration

/-- Where the samples stand after some fragments. -/
structure Continues (done : List Traf) (fragments : Fragments) : Prop where
  stands : ∃ kept, Stands fragments kept (done.foldl Timeline.step .start)
  total : fragments.decoded = durations fragments.samples
  owned : List.Forall₂ Lasts (done.flatMap Traf.durations) fragments.samples
  origin : fragments.origin = firstTime done
  silent : firstTime done = none →
    durations fragments.samples = (done.flatMap Traf.durations).sum
  first : ∀ origin time, firstTime done = some origin →
    Places done (untimed done).length time →
      time = origin ∧ startOf done fragments.samples (untimed done).length = ahead done
  met : ∀ origin k time, firstTime done = some origin → Places done k time →
    (untimed done).length < k →
      Met origin (reached done k) (startOf done fragments.samples k) time

theorem Continues.start : Continues [] .default := by
  refine ⟨⟨[], stands_start⟩, rfl, .nil, rfl, fun _ => rfl, ?_, ?_⟩
  · intro origin time timed
    cases timed
  · intro origin k time timed
    cases timed

theorem Lengthened.owned {after : List Sample} (lengthened : Lengthened before after)
    (owned : List.Forall₂ Lasts owns before) :
    List.Forall₂ Lasts owns after := by
  cases lengthened with
  | inl same => rwa [same]
  | inr longer =>
    obtain ⟨front, last, gap, rfl, rfl⟩ := longer
    induction front generalizing owns with
    | nil =>
      cases owned with
      | cons own rest => exact .cons (Nat.le_trans own (Nat.le_add_right _ gap)) rest
    | cons sample front ih =>
      cases owned with
      | cons own rest => exact .cons own (ih rest)

theorem owned_by {added : List Sample} (own : added.map (·.duration) = owns) :
    List.Forall₂ Lasts owns added := by
  rw [← own]
  induction added generalizing owns with
  | nil => exact .nil
  | cons sample added ih => exact .cons (Nat.le_refl _) (ih rfl)

/-- Where the samples of a fragment start does not move any more. -/
theorem startOf_append {done : List Traf} {read : Traf} {before after added : List Sample}
    (lengthened : Lengthened before after) (owned : List.Forall₂ Lasts (done.flatMap Traf.durations) before)
    {k time : Nat} (places : Places done k time) :
    startOf (done ++ [read]) (after ++ added) k = startOf done before k := by
  have inside := places.before_lt
  rw [owned.length_eq] at inside
  unfold startOf
  rw [take_append places.lt.le, lengthened.take added inside]

theorem untimed_snoc {read : Traf} (none : firstTime done = none)
    (timed : read.decodeTime = some time) : untimed (done ++ [read]) = done := by
  have all := List.takeWhile_eq_self_iff.mp (untimed_of_none none)
  unfold untimed
  rw [List.takeWhile_append_of_pos all, List.takeWhile_cons, timed]
  exact List.append_nil done

theorem firstTime_snoc (done : List Traf) (read : Traf) :
    firstTime (done ++ [read]) = (firstTime done).or read.decodeTime := by
  rw [firstTime_append]
  congr 1
  unfold firstTime
  rw [List.findSome?_cons]
  cases read.decodeTime <;> rfl

theorem Places.last {done : List Traf} {read : Traf} {time : Nat}
    (places : Places (done ++ [read]) done.length time) : read.decodeTime = some time := by
  obtain ⟨traf, there, timed, -⟩ := places
  rw [List.getElem?_concat_length] at there
  cases there
  exact timed

/-- The samples of the last fragment start where those before it end. -/
theorem startOf_last (read : Traf) (added : List Sample)
    (owned : List.Forall₂ Lasts (done.flatMap Traf.durations) before) :
    startOf (done ++ [read]) (before ++ added) done.length = durations before := by
  unfold startOf
  rw [List.take_left, owned.length_eq, List.take_left]

theorem Continues.push {before after : Fragments} {traf : Bytes} {fragment : Nat} {read : Traf}
    (continues : Continues done before) (h : before.pushTraf traf fragment = .ok after)
    (reads : Traf.read traf = .ok read) : Continues (done ++ [read]) after := by
  obtain ⟨kept, stands⟩ := continues.stands
  obtain ⟨read', added', same', -, stood, -⟩ := stands.pushTraf h
  obtain ⟨read'', aligned, added, same, -, brought, pushed⟩ := pushTraf_ok h
  cases same'.symm.trans reads
  cases same.symm.trans reads
  have fits : ∀ time, read.decodeTime = some time → time < 2 ^ 64 :=
    fun time there => Traf.read_decodeTime_lt reads there
  have own := durations_of_resolved pushed.resolved
  have along := alignTo_aligned fits continues.total brought
  have owned := along.samples.owned continues.owned
  have last := startOf_last read added owned
  have earlier {k time : Nat} (places : Places done k time) :=
    @startOf_append done read _ _ added along.samples continues.owned k time places
  have origins := firstTime_snoc done read
  rw [pushed.after]
  refine ⟨⟨kept ++ added', ?_⟩, ?_, ?_, ?_, ?_, ?_, ?_⟩
  · rw [List.foldl_append, ← pushed.after]
    exact stood
  · dsimp only
    rw [durations_append, along.total]
  · rw [List.flatMap_append, List.flatMap_singleton]
    exact List.rel_append owned (owned_by own)
  · rw [origins]
    rw [along.origin, continues.origin]
  · intro none
    rw [origins, Option.or_eq_none_iff] at none
    rw [durations_append, along.fresh (continues.origin.trans none.1), continues.silent none.1,
      List.flatMap_append, List.flatMap_singleton, List.sum_append, ← own]
    rfl
  · intro origin time timed places
    rw [origins] at timed
    cases begun : firstTime done with
    | some other =>
      rw [begun] at timed
      cases timed
      rw [untimed_append [read] begun] at places ⊢
      have there := places.of_append (untimed_lt begun)
      rw [earlier there, ahead, untimed_append [read] begun]
      exact continues.first origin time begun there
    | none =>
      rw [begun, Option.none_or] at timed
      rw [untimed_snoc begun timed] at places ⊢
      cases timed.symm.trans places.last
      rw [last, ahead, untimed_snoc begun timed, ← continues.silent begun,
        along.fresh (continues.origin.trans begun)]
      exact ⟨rfl, rfl⟩
  · intro origin k time timed places behind
    rw [origins] at timed
    have inside := places.lt
    rw [List.length_append, List.length_singleton] at inside
    cases begun : firstTime done with
    | some other =>
      rw [begun] at timed
      cases timed
      rw [untimed_append [read] begun] at behind
      unfold reached
      by_cases early : k < done.length
      · have there := places.of_append early
        rw [earlier there, take_append early.le]
        exact continues.met origin k time begun there behind
      · obtain rfl : k = done.length := by omega
        rw [last, List.take_left, ← stands.decoded, ← along.total]
        exact along.met origin time (continues.origin.trans begun) places.last
    | none =>
      rw [begun, Option.none_or] at timed
      rw [untimed_snoc begun timed] at behind
      omega

/-! ## Whole files -/

theorem Places.untimed_le (places : Places trafs k time) :
    (untimed trafs).length ≤ k := by
  obtain ⟨traf, there, timed, -⟩ := places
  unfold untimed
  by_contra inside
  have early := Nat.lt_of_not_le inside
  have same := (List.takeWhile_prefix fun traf : Traf => traf.decodeTime.isNone).getElem early
  have none := List.mem_takeWhile_imp (List.getElem_mem early)
  rw [same, (List.getElem?_eq_some_iff.mp there).2, timed] at none
  cases none

theorem Places.firstTime (places : Places trafs k time) :
    ∃ origin, firstTime trafs = some origin := by
  obtain ⟨traf, there, timed, -⟩ := places
  refine Option.ne_none_iff_exists'.mp fun none => ?_
  rw [List.findSome?_eq_none_iff.mp none traf (List.mem_of_getElem? there)] at timed
  cases timed

theorem sum_le_durations {samples : List Sample} (owned : List.Forall₂ Lasts owns samples) :
    owns.sum ≤ durations samples := by
  induction owned with
  | nil => exact Nat.le_refl 0
  | cons own _ ih =>
    have longer := Nat.add_le_add own ih
    unfold durations at longer ⊢
    rwa [List.sum_cons, List.map_cons, List.sum_cons]

/-- The samples from one fragment up to another last at least as long as the fragments say. -/
theorem startOf_between {samples : List Sample}
    (owned : List.Forall₂ Lasts (trafs.flatMap Traf.durations) samples) {i : Nat} (before : i ≤ k) :
    startOf trafs samples i + (((trafs.take k).drop i).flatMap Traf.durations).sum ≤
      startOf trafs samples k := by
  have split : trafs.take k = trafs.take i ++ (trafs.take k).drop i := by
    conv_lhs => rw [← List.take_append_drop i (trafs.take k)]
    rw [List.take_take, Nat.min_eq_left before]
  have whole : trafs.flatMap Traf.durations = (trafs.take i).flatMap Traf.durations ++
      (((trafs.take k).drop i).flatMap Traf.durations ++
        (trafs.drop k).flatMap Traf.durations) := by
    rw [← List.append_assoc, ← List.flatMap_append, ← split, ← List.flatMap_append,
      List.take_append_drop]
  have length : ((trafs.take k).flatMap Traf.durations).length =
      ((trafs.take i).flatMap Traf.durations).length +
        (((trafs.take k).drop i).flatMap Traf.durations).length := by
    conv_lhs => rw [split, List.flatMap_append, List.length_append]
  rw [whole] at owned
  have between := List.forall₂_drop ((trafs.take i).flatMap Traf.durations).length owned
  rw [List.drop_left] at between
  have within := List.forall₂_take (((trafs.take k).drop i).flatMap Traf.durations).length between
  rw [List.take_left] at within
  unfold startOf
  rw [length, List.take_add, durations_append]
  exact Nat.add_le_add_left (sum_le_durations within) _

/-- The decode times of the fragments are met exactly where the code takes the right time for
reached behind the first of them. -/
theorem on_time_iff {file : Bytes} {track : DemuxedTrack} (accepted : demux file = .ok track) :
    ∃ moov moofs, Says file moov moofs ∧
      (OnTime (trafsOf moofs) track ↔ TrulyReached (trafsOf moofs)) := by
  obtain ⟨found, moov, fragments, walked, last, pushed, described⟩ := demux_ok accepted
  obtain ⟨moofs, kept, read, -, -⟩ := pushParts_ok pushed
  have continues := pushParts_rule Continues.push Continues.start read pushed
  rw [List.nil_append] at continues
  obtain ⟨samples, duration⟩ := readInitialization_samples described
  refine ⟨moov, moofs, ⟨found, walked, last, read⟩, ?_⟩
  constructor
  · intro onTime origin k time timed places behind
    have starts := onTime.starts origin k time timed places
    have met := continues.met origin k time timed places behind
    rw [samples] at starts
    have largest : saturatingAdd origin (reached (trafsOf moofs) k) =
      min (origin + reached (trafsOf moofs) k) maxU64 := rfl
    cases met with
    | inl exact_ => omega
    | inr gap => omega
  · intro truly
    have starts (origin k time : Nat) (timed : firstTime (trafsOf moofs) = some origin)
        (places : Places (trafsOf moofs) k time) :
        startOf (trafsOf moofs) track.samples k + origin = time + ahead (trafsOf moofs) := by
      rw [samples]
      obtain first | behind := Nat.eq_or_lt_of_le places.untimed_le
      · rw [← first] at places ⊢
        obtain ⟨same, start⟩ := continues.first origin time timed places
        omega
      · have right := truly origin k time timed places behind
        cases continues.met origin k time timed places behind with
        | inl exact_ => omega
        | inr gap =>
          have largest : saturatingAdd origin (reached (trafsOf moofs) k) =
            min (origin + reached (trafsOf moofs) k) maxU64 := rfl
          omega
    refine ⟨?_, starts, fun i start k time before first second => ?_⟩
    · rw [duration, continues.total, samples]
    · obtain ⟨origin, timed⟩ := first.firstTime
      have early := starts origin i start timed first
      have late := starts origin k time timed second
      have between := startOf_between (samples ▸ continues.owned) before.le
      omega

/-! ## A late first decode time -/

/-- A fragment with a decode time and one sample that lasts 40. -/
def timedSample (time : Nat) : Bytes :=
  boxed (kind "traf")
    (boxed (kind "tfhd") (be 4 0x020000 ++ be 4 1) ++
      boxed (kind "tfdt") (be 4 0 ++ be 4 time) ++
      boxed (kind "trun") (be 4 0x000301 ++ be 4 1 ++ be 4 8 ++ be 4 40 ++ be 4 7))

/-- A sample without a decode time, and two that are decoded 80 apart. -/
def lateFile : Bytes :=
  boxed (kind "moov") (movie 1000 0) ++ boxed (kind "moof") oneSample ++
    boxed (kind "moof") (timedSample 100) ++ boxed (kind "moof") (timedSample 180)

def lateTrack : DemuxedTrack where
  tkhd := be 4 0 ++ be 8 0 ++ be 4 1
  mdhd := be 4 0 ++ be 8 0 ++ be 4 1000 ++ be 4 0
  hdlr := []
  mediaHeader := (kind "vmhd", [])
  dinf := []
  stsd := []
  timescale := 1000
  samples := [⟨172, 7, 40, 0, true⟩, ⟨232, 7, 40, 0, true⟩, ⟨308, 7, 40, 0, true⟩]
  duration := 120

theorem lateFile_accepted : demux lateFile = .ok lateTrack := by decide +kernel

def lateMoofs : List Moof :=
  [⟨164, [⟨⟨none, none, none, none, none⟩, 1, true, none,
      [⟨some 8, none, [⟨some 40, some 7, none, 0⟩]⟩]⟩]⟩,
    ⟨224, [⟨⟨none, none, none, none, none⟩, 1, true, some 100,
      [⟨some 8, none, [⟨some 40, some 7, none, 0⟩]⟩]⟩]⟩,
    ⟨300, [⟨⟨none, none, none, none, none⟩, 1, true, some 180,
      [⟨some 8, none, [⟨some 40, some 7, none, 0⟩]⟩]⟩]⟩]

theorem on_time_iff_lateFile : ∃ moov moofs, Says lateFile moov moofs ∧
    (OnTime (trafsOf moofs) lateTrack ↔ TrulyReached (trafsOf moofs)) :=
  on_time_iff lateFile_accepted

/-- The sample in front of the first decode time is counted as if it came behind it. -/
theorem later_time_counts_from_the_first :
    demux lateFile = .ok lateTrack ∧ ∃ moov moofs, Says lateFile moov moofs ∧
      ¬ OnTime (trafsOf moofs) lateTrack := by
  have whole : parts lateFile = .ok [.moov (movie 1000 0), .moof oneSample 164,
      .moof (timedSample 100) 224, .moof (timedSample 180) 300] := by decide +kernel
  have read : readMoofs [.moov (movie 1000 0), .moof oneSample 164,
      .moof (timedSample 100) 224, .moof (timedSample 180) 300] = .ok lateMoofs := by
    decide +kernel
  refine ⟨lateFile_accepted, movie 1000 0, lateMoofs, ⟨_, whole, rfl, read⟩, fun onTime => ?_⟩
  have starts := onTime.starts 100 2 180 rfl ⟨_, rfl, rfl, by decide⟩
  exact absurd starts (by decide)

end Gunda.Stream.Mux

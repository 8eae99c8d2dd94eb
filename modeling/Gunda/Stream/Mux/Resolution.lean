import Gunda.Stream.Mux.Reading

/-!
# Sample resolution

The reading of a fragmented track by the rules of its format, where every field has four
levels of defaults and the data of a fragment three places to start from, and which files
the code reads alike.
-/
namespace Gunda.Stream.Mux

open Gunda.Lib Gunda.Lib.Bytes
open Gunda.Lib.IsoMedia (kind)

/-! ## The reading by the rules -/

/-- The track that the initialization segment describes. -/
def movieTrack (moov : Bytes) : Option Nat := do
  let trak ← findBox [kind "trak"] moov
  let tkhd ← findBox [kind "tkhd"] trak
  let read : Reader Nat := do
    let (version, _) ← full
    skip (if version = 1 then 16 else 8)
    u32
  (read.of tkhd).toOption

/-- A `trex`: what the fragments of a track leave to the initialization segment. -/
structure Trex where
  track : Nat
  entry : Nat
  defaults : Defaults

def Trex.fields : Reader Trex := do
  let _ ← full
  let track ← u32
  let entry ← u32
  let duration ← u32
  let size ← u32
  let flags ← u32
  return { track, entry, defaults := ⟨some duration, some size, some flags⟩ }

def movieTrex (moov : Bytes) (track : Nat) : Option Trex :=
  let inside := ((findBox [kind "mvex"] moov).map boxes).getD []
  let trexes := (inside.filter (·.1 = kind "trex")).filterMap fun box =>
    (Trex.fields.of box.2).toOption
  trexes.find? (·.track = track)

/-- The defaults that the initialization segment gives the fragments of a track. -/
def movieDefaults (moov : Bytes) (track : Nat) : Defaults :=
  ((movieTrex moov track).map Trex.defaults).getD ⟨none, none, none⟩

def Defaults.or (first second : Defaults) : Defaults :=
  ⟨first.duration.or second.duration, first.size.or second.size, first.flags.or second.flags⟩

@[simp] theorem Defaults.or_duration (first second : Defaults) :
    (first.or second).duration = first.duration.or second.duration := rfl

@[simp] theorem Defaults.or_size (first second : Defaults) :
    (first.or second).size = first.size.or second.size := rfl

@[simp] theorem Defaults.or_flags (first second : Defaults) :
    (first.or second).flags = first.flags.or second.flags := rfl

/-- The defaults of a track fragment: its own, then those of its track. -/
def Traf.defaults (traf : Traf) (moov : Bytes) : Defaults :=
  traf.header.defaults.or (movieDefaults moov traf.trackId)

/-- Where the data of a track fragment is found from. -/
def Traf.foundFrom (traf : Traf) (start : Nat) (preceding : Option Int) : Int :=
  match traf.header.baseDataOffset with
  | some base => base
  | none => if traf.defaultBaseIsMoof then start else preceding.getD start

/-- The track fragments of a fragment, each with where its data is found from. -/
def placed (moov : Bytes) (start : Nat) : Option Int → List Traf → List (Traf × Int)
  | _, [] => []
  | preceding, traf :: rest =>
      let base := traf.foundFrom start preceding
      (traf, base) :: placed moov start (some (runsEnd (traf.defaults moov) base base traf.runs)) rest

/-- The samples of a track fragment of the track; others hold nothing of it. -/
def Traf.samplesOf (traf : Traf) (moov : Bytes) (base : Int) : List Resolved :=
  if movieTrack moov = some traf.trackId then traf.resolve (traf.defaults moov) base else []

/-- The samples of a track by the rules of its format. -/
def readByTheRules (moov : Bytes) (moofs : List Moof) : List Resolved :=
  moofs.flatMap fun moof =>
    (placed moov moof.start none moof.trafs).flatMap fun at_ => at_.1.samplesOf moov at_.2

/-! ## Where the code reads alike -/

def Resolved.stretched (gap : Nat) (sample : Resolved) : Resolved :=
  { sample with duration := sample.duration.map (· + gap) }

/-- The samples are those of the rules, each with the gap that the decode times leave
after it. -/
def AsTheRules (moov : Bytes) (moofs : List Moof) (samples : List Sample) : Prop :=
  samples.map Sample.resolved =
    List.zipWith Resolved.stretched (timeline moofs).gaps (readByTheRules moov moofs)

/-- A track fragment of the track, with its data where the code looks for it, whose samples
need none of their movie's defaults but for those that state a sample on its own. -/
structure ReadAlike (moov : Bytes) (start : Nat) (traf : Traf) (base : Int) : Prop where
  track : movieTrack moov = some traf.trackId
  found : base = traf.base start
  flags : ∀ sample ∈ traf.resolve traf.header.defaults base, sample.sync = none →
    (movieDefaults moov traf.trackId).flags.map isSync = some true
  signed : ∀ sample ∈ traf.resolve traf.header.defaults base, sample.compositionOffset < 2 ^ 31

/-- Every track fragment that holds samples is read alike. -/
def AllReadAlike (moov : Bytes) (moofs : List Moof) : Prop :=
  ∀ moof ∈ moofs, ∀ at_ ∈ placed moov moof.start none moof.trafs,
    at_.1.holdsSamples → ReadAlike moov moof.start at_.1 at_.2

/-- What a file that is read through holds: the initialization segment that describes the
track, and its fragments. -/
def Says (file : Bytes) (moov : Bytes) (moofs : List Moof) : Prop :=
  ∃ found, parts file = .ok found ∧ lastMoov found = some moov ∧ readMoofs found = .ok moofs

def Resolved.shift (by_ : Int) (sample : Resolved) : Resolved :=
  { sample with offset := sample.offset + by_ }

def Resolved.fallBack (defaults : Defaults) (sample : Resolved) : Resolved :=
  { sample with
    size := sample.size.or defaults.size
    duration := sample.duration.or defaults.duration
    sync := sample.sync.or (defaults.flags.map isSync) }

/-- Every size and every duration is told without the movie. -/
def Told (samples : List Resolved) : Prop :=
  ∀ sample ∈ samples, sample.size.isSome ∧ sample.duration.isSome

theorem resolveSamples_shift (defaults : Defaults) (first : Option Nat) (index : Nat)
    (offset by_ : Int) (samples : List RunSample) :
    resolveSamples defaults first index (offset + by_) samples =
      (resolveSamples defaults first index offset samples).map (Resolved.shift by_) := by
  induction samples generalizing index offset with
  | nil => rfl
  | cons sample samples ih =>
    unfold resolveSamples
    rw [List.map_cons, ← ih, Int.add_right_comm]
    rfl

theorem samplesEnd_shift (defaults : Defaults) (offset by_ : Int) (samples : List RunSample) :
    samplesEnd defaults (offset + by_) samples = samplesEnd defaults offset samples + by_ := by
  unfold samplesEnd
  induction samples generalizing offset with
  | nil => rfl
  | cons sample samples ih =>
    rw [List.foldl_cons, List.foldl_cons, ← ih, Int.add_right_comm]

theorem Run.start_shift (run : Run) (base cursor by_ : Int) :
    run.start (base + by_) (cursor + by_) = run.start base cursor + by_ := by
  unfold Run.start
  cases run.dataOffset with
  | none => rfl
  | some offset => exact Int.add_right_comm base by_ offset

theorem resolveRuns_shift (defaults : Defaults) (base cursor by_ : Int) (runs : List Run) :
    resolveRuns defaults (base + by_) (cursor + by_) runs =
      (resolveRuns defaults base cursor runs).map (Resolved.shift by_) := by
  induction runs generalizing cursor with
  | nil => rfl
  | cons run runs ih =>
    unfold resolveRuns
    rw [Run.start_shift, resolveSamples_shift, samplesEnd_shift, ih, List.map_append]

theorem map_or (a b c d : Option Nat) :
    (a.or (b.or (c.or d))).map isSync = ((a.or (b.or c)).map isSync).or (d.map isSync) := by
  cases a <;> cases b <;> cases c <;> rfl

variable {defaults : Defaults}

theorem resolveSamples_fallBack {more : Defaults} {first : Option Nat} {index : Nat}
    {offset : Int} {samples : List RunSample}
    (told : Told (resolveSamples defaults first index offset samples)) :
    resolveSamples (defaults.or more) first index offset samples =
        (resolveSamples defaults first index offset samples).map (Resolved.fallBack more) ∧
      samplesEnd (defaults.or more) offset samples = samplesEnd defaults offset samples := by
  induction samples generalizing index offset with
  | nil => exact ⟨rfl, rfl⟩
  | cons sample samples ih =>
    unfold resolveSamples at told ⊢
    dsimp only at told ⊢
    obtain ⟨size, stated⟩ := Option.isSome_iff_exists.mp (told _ List.mem_cons_self).1
    dsimp only at stated
    have same : sample.size.or (defaults.or more).size = sample.size.or defaults.size := by
      rw [Defaults.or_size, ← Option.or_assoc, stated]
      rfl
    obtain ⟨rest, stop⟩ := ih fun sample member => told sample (List.mem_cons_of_mem _ member)
    constructor
    · rw [same, rest, List.map_cons]
      congr 1
      unfold Resolved.fallBack
      rw [stated]
      rw [Defaults.or_duration, Defaults.or_flags, map_or, ← Option.or_assoc]
      rfl
    · unfold samplesEnd at stop ⊢
      rw [List.foldl_cons, List.foldl_cons, same]
      exact stop

variable {base : Int}

theorem resolveRuns_fallBack {more : Defaults} {cursor : Int} {runs : List Run}
    (told : Told (resolveRuns defaults base cursor runs)) :
    resolveRuns (defaults.or more) base cursor runs =
      (resolveRuns defaults base cursor runs).map (Resolved.fallBack more) := by
  induction runs generalizing cursor with
  | nil => rfl
  | cons run runs ih =>
    unfold resolveRuns at told ⊢
    have opening : Told (resolveSamples defaults run.firstSampleFlags 0 (run.start base cursor)
        run.samples) := fun sample member => told sample (List.mem_append_left _ member)
    rw [(resolveSamples_fallBack opening).1, (resolveSamples_fallBack opening).2, ih fun sample member => told sample (List.mem_append_right _ member),
      List.map_append]

theorem told_shift {samples : List Resolved} {by_ : Int} (told : Told samples) :
    Told (samples.map (Resolved.shift by_)) := by
  intro sample member
  obtain ⟨first, inside, rfl⟩ := List.mem_map.mp member
  exact told first inside

variable {moov : Bytes} {moofs : List Moof} {traf : Traf}

/-- The samples of a track fragment of the track, from those the code finds. -/
theorem samplesOf_own {start : Nat} (own : movieTrack moov = some traf.trackId)
    (told : Told (traf.resolve traf.header.defaults (traf.base start))) :
    traf.samplesOf moov base = (traf.resolve traf.header.defaults (traf.base start)).map fun sample =>
      (sample.shift (base - traf.base start)).fallBack (movieDefaults moov traf.trackId) := by
  unfold Traf.samplesOf
  rw [if_pos own]
  have apart : base = traf.base start + (base - traf.base start) := by omega
  have shifted := resolveRuns_shift traf.header.defaults (traf.base start) (traf.base start)
    (base - traf.base start) traf.runs
  rw [← apart] at shifted
  have told' : Told (resolveRuns traf.header.defaults base base traf.runs) := by
    rw [shifted]
    exact told_shift told
  unfold Traf.resolve Traf.defaults
  rw [resolveRuns_fallBack told', shifted, List.map_map]
  rfl

theorem asI32_eq_self_iff {n : Int} : asI32 n = n ↔ n < 2 ^ 31 := by
  unfold asI32
  constructor
  · intro same
    split at same
    · assumption
    · omega
  · intro small
    exact if_pos small

/-- One sample is taken as the rules have it exactly when nothing of its movie is missed. -/
theorem taken_eq_iff {sample : Resolved} {by_ : Int}
    (told : sample.size.isSome ∧ sample.duration.isSome) :
    sample.taken = (sample.shift by_).fallBack defaults ↔
      by_ = 0 ∧ (sample.sync = none → defaults.flags.map isSync = some true) ∧
        sample.compositionOffset < 2 ^ 31 := by
  obtain ⟨offset, size, duration, compositionOffset, sync⟩ := sample
  obtain ⟨size, rfl⟩ := Option.isSome_iff_exists.mp told.1
  obtain ⟨duration, rfl⟩ := Option.isSome_iff_exists.mp told.2
  unfold Resolved.taken Resolved.fallBack Resolved.shift
  simp only [Resolved.mk.injEq, Option.some_or, true_and]
  rw [asI32_eq_self_iff]
  have still : offset = offset + by_ ↔ by_ = 0 := by omega
  rw [still]
  cases sync with
  | none =>
    simp only [Option.getD_none, Option.none_or, true_implies]
    rw [and_comm (a := compositionOffset < 2 ^ 31), eq_comm (a := some true)]
  | some sync => simp

theorem resolve_eq_nil_iff :
    traf.resolve defaults base = [] ↔ ¬ traf.holdsSamples := by
  unfold Traf.holdsSamples Traf.resolve
  have lengths := congrArg List.length (resolveRuns_durations defaults base base traf.runs)
  rw [List.length_map, List.length_map] at lengths
  rw [not_not, ← List.length_eq_zero_iff, lengths, List.length_eq_zero_iff]

theorem taken_length (traf : Traf) (start : Nat) (base : Int) :
    (traf.samplesOf moov base).length ≤ (traf.taken start).length := by
  unfold Traf.samplesOf Traf.taken Traf.resolve
  have ours := congrArg List.length
    (resolveRuns_durations traf.header.defaults (traf.base start) (traf.base start) traf.runs)
  have theirs := congrArg List.length
    (resolveRuns_durations (traf.defaults moov) base base traf.runs)
  simp only [List.length_map] at ours theirs ⊢
  split
  · omega
  · exact Nat.zero_le _

/-- A track fragment is taken as the rules have it exactly when it holds nothing or is
read alike. -/
theorem traf_taken_iff {start : Nat} (told : Told (traf.taken start)) :
    traf.taken start = traf.samplesOf moov base ↔
      (traf.holdsSamples → ReadAlike moov start traf base) := by
  have told' : Told (traf.resolve traf.header.defaults (traf.base start)) := by
    intro sample member
    exact told sample.taken (List.mem_map_of_mem member)
  by_cases own : movieTrack moov = some traf.trackId
  · rw [samplesOf_own own told']
    unfold Traf.taken
    rw [List.map_inj_left]
    constructor
    · intro each holds
      have some_ : traf.resolve traf.header.defaults (traf.base start) ≠ [] := by
        intro none
        exact resolve_eq_nil_iff.mp none holds
      obtain ⟨sample, inside⟩ := List.exists_mem_of_ne_nil _ some_
      obtain ⟨still, -, -⟩ := (taken_eq_iff (told' sample inside)).mp (each sample inside)
      have found : base = traf.base start := by omega
      refine ⟨own, found, ?_, ?_⟩
      · rw [found]
        intro sample inside
        exact ((taken_eq_iff (told' sample inside)).mp (each sample inside)).2.1
      · rw [found]
        intro sample inside
        exact ((taken_eq_iff (told' sample inside)).mp (each sample inside)).2.2
    · intro alike sample inside
      have holds : traf.holdsSamples := by
        by_contra none
        rw [resolve_eq_nil_iff.mpr none] at inside
        cases inside
      obtain ⟨-, found, flags, signed⟩ := alike holds
      rw [found] at flags signed
      refine (taken_eq_iff (told' sample inside)).mpr ⟨?_, flags sample inside, signed sample inside⟩
      omega
  · have nothing : traf.samplesOf moov base = [] := if_neg own
    rw [nothing]
    unfold Traf.taken
    rw [List.map_eq_nil_iff, resolve_eq_nil_iff]
    constructor
    · intro none holds
      exact absurd holds none
    · intro alike holds
      exact own (alike holds).track

/-! ## Whole files -/

theorem flatMap_inj_iff {α β : Type} {list : List α} {f g : α → List β}
    (shorter : ∀ a ∈ list, (g a).length ≤ (f a).length) :
    (list.flatMap g).length ≤ (list.flatMap f).length ∧
      (list.flatMap f = list.flatMap g ↔ ∀ a ∈ list, f a = g a) := by
  induction list with
  | nil => simp
  | cons a list ih =>
    obtain ⟨rest, same⟩ := ih fun b member => shorter b (List.mem_cons_of_mem _ member)
    have first := shorter a List.mem_cons_self
    constructor
    · rw [List.flatMap_cons, List.flatMap_cons, List.length_append, List.length_append]
      omega
    · rw [List.flatMap_cons, List.flatMap_cons, List.forall_mem_cons, ← same]
      constructor
      · intro whole
        have lengths := congrArg List.length whole
        rw [List.length_append, List.length_append] at lengths
        exact List.append_inj whole (by omega)
      · rintro ⟨front, back⟩
        rw [front, back]

theorem placed_fst (moov : Bytes) (start : Nat) (preceding : Option Int) (trafs : List Traf) :
    (placed moov start preceding trafs).map Prod.fst = trafs := by
  induction trafs generalizing preceding with
  | nil => rfl
  | cons traf trafs ih =>
    unfold placed
    rw [List.map_cons, ih]

theorem taken_placed (moov : Bytes) (moof : Moof) :
    moof.taken = (placed moov moof.start none moof.trafs).flatMap fun at_ => at_.1.taken moof.start := by
  unfold Moof.taken
  conv_lhs => rw [← placed_fst moov moof.start none moof.trafs]
  rw [List.flatMap_map]

theorem told_of_mem {samples : List Sample} {moof : Moof}
    (h : samples.map Sample.resolved = moofs.flatMap Moof.taken) (inside : moof ∈ moofs)
    (member : traf ∈ moof.trafs) : Told (traf.taken moof.start) := by
  intro resolved there
  have whole : resolved ∈ samples.map Sample.resolved := by
    rw [h]
    exact List.mem_flatMap.mpr ⟨moof, inside, List.mem_flatMap.mpr ⟨traf, member, there⟩⟩
  obtain ⟨sample, -, rfl⟩ := List.mem_map.mp whole
  exact ⟨rfl, rfl⟩

/-- Before any gap, the samples are those of the rules exactly when every track fragment is
read alike. -/
theorem kept_iff {kept : List Sample}
    (h : kept.map Sample.resolved = moofs.flatMap Moof.taken) :
    (readByTheRules moov moofs).length ≤ kept.length ∧
      (kept.map Sample.resolved = readByTheRules moov moofs ↔ AllReadAlike moov moofs) := by
  have each : ∀ moof ∈ moofs,
      ((placed moov moof.start none moof.trafs).flatMap fun at_ => at_.1.samplesOf moov at_.2).length ≤
        moof.taken.length ∧
      (moof.taken = ((placed moov moof.start none moof.trafs).flatMap fun at_ =>
          at_.1.samplesOf moov at_.2) ↔
        ∀ at_ ∈ placed moov moof.start none moof.trafs,
          at_.1.holdsSamples → ReadAlike moov moof.start at_.1 at_.2) := by
    intro moof inside
    rw [taken_placed moov moof]
    have fewer : ∀ at_ ∈ placed moov moof.start none moof.trafs,
        (at_.1.samplesOf moov at_.2).length ≤ (at_.1.taken moof.start).length :=
      fun at_ _ => taken_length at_.1 moof.start at_.2
    obtain ⟨shorter, same⟩ := flatMap_inj_iff fewer
    refine ⟨shorter, same.trans ?_⟩
    refine forall₂_congr fun at_ member => traf_taken_iff ?_
    have listed : at_.1 ∈ moof.trafs := by
      rw [← placed_fst moov moof.start none moof.trafs]
      exact List.mem_map_of_mem member
    exact told_of_mem h inside listed
  obtain ⟨shorter, same⟩ := flatMap_inj_iff fun moof inside => (each moof inside).1
  constructor
  · have lengths := congrArg List.length h
    rw [List.length_map] at lengths
    unfold readByTheRules
    omega
  · rw [h]
    exact same.trans (forall₂_congr fun moof inside => (each moof inside).2)

theorem stretched_resolved (gaps : List Nat) (kept : List Sample) :
    (List.zipWith Sample.stretched gaps kept).map Sample.resolved =
      List.zipWith Resolved.stretched gaps (kept.map Sample.resolved) := by
  rw [List.map_zipWith, List.zipWith_map_right]
  rfl

theorem stretched_inj {gap : Nat} {a b : Resolved} (h : a.stretched gap = b.stretched gap) : a = b := by
  obtain ⟨offset, size, duration, compositionOffset, sync⟩ := a
  obtain ⟨offset', size', duration', compositionOffset', sync'⟩ := b
  unfold Resolved.stretched at h
  simp only [Resolved.mk.injEq] at h ⊢
  obtain ⟨offsets, sizes, durations, compositions, syncs⟩ := h
  refine ⟨offsets, sizes, ?_, compositions, syncs⟩
  cases duration <;> cases duration' <;> simp_all

theorem zipWith_stretched_inj {gaps : List Nat} {a b : List Resolved} (count : gaps.length = a.length)
    (shorter : b.length ≤ a.length)
    (h : List.zipWith Resolved.stretched gaps a = List.zipWith Resolved.stretched gaps b) : a = b := by
  induction gaps generalizing a b with
  | nil =>
    have none : a = [] := List.length_eq_zero_iff.mp count.symm
    rw [none] at shorter ⊢
    exact (List.length_eq_zero_iff.mp (Nat.le_zero.mp shorter)).symm
  | cons gap gaps ih =>
    cases a with
    | nil => cases count
    | cons first a =>
      cases b with
      | nil => cases h
      | cons second b =>
        rw [List.zipWith_cons_cons, List.zipWith_cons_cons] at h
        obtain ⟨one, rest⟩ := List.cons.inj h
        rw [stretched_inj one, ih (Nat.succ.inj count) (Nat.le_of_succ_le_succ shorter) rest]

/-- A file that is accepted is read by the rules of its format exactly when each track
fragment with samples is the track's own, has its data where the code looks for it, and
leaves no flags to its movie that say otherwise. -/
theorem demux_by_the_rules_iff {file : Bytes} {track : DemuxedTrack} (accepted : demux file = .ok track) :
    ∃ moov moofs, Says file moov moofs ∧
      (AsTheRules moov moofs track.samples ↔ AllReadAlike moov moofs) := by
  obtain ⟨found, moov, fragments, walked, last, pushed, described⟩ := demux_ok accepted
  obtain ⟨moofs, kept, read, stands, taken⟩ := pushParts_ok pushed
  obtain ⟨shorter, same⟩ : (readByTheRules moov moofs).length ≤ kept.length ∧
      (kept.map Sample.resolved = readByTheRules moov moofs ↔ AllReadAlike moov moofs) :=
    kept_iff taken
  refine ⟨moov, moofs, ⟨found, walked, last, read⟩, ?_⟩
  rw [← same]
  unfold AsTheRules
  rw [(readInitialization_samples described).1, stands.samples, stretched_resolved]
  constructor
  · intro whole
    have count := stands.count
    refine zipWith_stretched_inj ?_ ?_ whole
    · rw [List.length_map]
      exact count
    · rw [List.length_map]
      exact shorter
  · intro each
    rw [each]

/-! ## Flags left to the movie -/

instance (moov : Bytes) (moofs : List Moof) (samples : List Sample) :
    Decidable (AsTheRules moov moofs samples) := inferInstanceAs (Decidable (_ = _))

/-- An initialization segment with one track, whose fragments default to these flags. -/
def movie (timescale flags : Nat) : Bytes :=
  boxed (kind "trak")
    (boxed (kind "tkhd") (be 4 0 ++ be 8 0 ++ be 4 1) ++
      boxed (kind "mdia")
        (boxed (kind "mdhd") (be 4 0 ++ be 8 0 ++ be 4 timescale ++ be 4 0) ++
          boxed (kind "hdlr") [] ++
          boxed (kind "minf")
            (boxed (kind "vmhd") [] ++ boxed (kind "dinf") [] ++
              boxed (kind "stbl") (boxed (kind "stsd") [])))) ++
  boxed (kind "mvex")
    (boxed (kind "trex") (be 4 0 ++ be 4 1 ++ be 4 1 ++ be 4 0 ++ be 4 0 ++ be 4 flags))

/-- A fragment with one sample of seven bytes that lasts 40, and states no flags. -/
def oneSample : Bytes :=
  boxed (kind "traf")
    (boxed (kind "tfhd") (be 4 0x020000 ++ be 4 1) ++
      boxed (kind "trun") (be 4 0x000301 ++ be 4 1 ++ be 4 8 ++ be 4 40 ++ be 4 7))

/-- A file whose samples all depend on others, as its initialization segment says. -/
def dependentFile : Bytes :=
  boxed (kind "moov") (movie 1000 0x00010000) ++ boxed (kind "moof") oneSample

def dependentTrack : DemuxedTrack where
  tkhd := be 4 0 ++ be 8 0 ++ be 4 1
  mdhd := be 4 0 ++ be 8 0 ++ be 4 1000 ++ be 4 0
  hdlr := []
  mediaHeader := (kind "vmhd", [])
  dinf := []
  stsd := []
  timescale := 1000
  samples := [⟨172, 7, 40, 0, true⟩]
  duration := 40

def dependentMoofs : List Moof :=
  [⟨164, [⟨⟨none, none, none, none, none⟩, 1, true, none, [⟨some 8, none, [⟨some 40, some 7, none, 0⟩]⟩]⟩]⟩]

theorem dependentFile_accepted : demux dependentFile = .ok dependentTrack := by decide +kernel

/-- The defaults of the movie are not asked for the flags of a sample. -/
theorem dependent_taken_for_sync :
    ¬ ∀ file track, demux file = .ok track →
      ∃ moov moofs, Says file moov moofs ∧ AsTheRules moov moofs track.samples := by
  intro all
  obtain ⟨moov, moofs, ⟨found, walked, last, read⟩, alike⟩ := all _ _ dependentFile_accepted
  have whole : parts dependentFile = .ok [.moov (movie 1000 0x00010000), .moof oneSample 164] := by
    decide +kernel
  cases whole.symm.trans walked
  cases last
  have moofs_eq : readMoofs [.moov (movie 1000 0x00010000), .moof oneSample 164] =
      .ok dependentMoofs := by decide +kernel
  cases moofs_eq.symm.trans read
  revert alike
  decide +kernel

theorem dependentFile_by_the_rules_iff :
    ∃ moov moofs, Says dependentFile moov moofs ∧
      (AsTheRules moov moofs dependentTrack.samples ↔ AllReadAlike moov moofs) :=
  demux_by_the_rules_iff dependentFile_accepted

end Gunda.Stream.Mux

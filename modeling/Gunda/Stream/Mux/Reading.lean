import Gunda.Stream.Mux.Fragments

/-!
# What a track file says

The boxes of a track file and the fields of its fragments, before any default is
resolved, and the samples that reading them pushes.
-/
namespace Gunda.Stream.Mux

open Gunda.Lib Gunda.Lib.Bytes
open Gunda.Lib.IsoMedia (kind)

/-! ## The boxes of a file -/

/-- A box of a track file, as far as it matters to the track. -/
inductive Part where
  | moov (body : Bytes)
  | moof (body : Bytes) (start : Nat)
  | other
  deriving DecidableEq

def partsRounds (file : Bytes) : (rounds position : Nat) → Except MuxError (List Part)
  | 0, _ => .ok []
  | rounds + 1, position =>
      if file.length < position + 8 then .ok []
      else do
        let header ← readHeader file position
        let part ← if header.kind = kind "moov" then (readBody file header).map .moov
          else if header.kind = kind "moof" then
            (readBody file header).map (.moof · header.start)
          else .ok .other
        let rest ← partsRounds file rounds header.stop
        return part :: rest

def parts (file : Bytes) : Except MuxError (List Part) := partsRounds file file.length 0

def Part.initialization (found : Option Bytes) : Part → Option Bytes
  | .moov body => some body
  | _ => found

/-- The initialization segment that holds after the boxes. -/
def lastMoov (parts : List Part) : Option Bytes := parts.foldl Part.initialization none

def Fragments.pushPart (fragments : Fragments) : Part → Except MuxError Fragments
  | .moof body start => fragments.push body start
  | _ => .ok fragments

def pushParts (parts : List Part) : Except MuxError Fragments :=
  parts.foldlM Fragments.pushPart .default

variable {file : Bytes}

theorem readHeader_stop {position : Nat} {header : Header}
    (h : readHeader file position = .ok header) : position + 8 ≤ header.stop := by
  unfold readHeader at h
  obtain ⟨-, h⟩ | ⟨-, h⟩ := ite_ok h
  · cases h
    exact Nat.le_add_right _ _
  · obtain ⟨-, h⟩ := throw_unless_ok h
    obtain ⟨-, h⟩ := throw_unless_ok h
    cases h
    exact Nat.le_add_right _ _

variable {fragments : Fragments}

/-- More rounds than bytes change nothing. -/
theorem demuxRounds_enough {rounds more position : Nat} {initialization : Option Bytes}
    (enough : file.length ≤ position + rounds) :
    demuxRounds file (rounds + more) position initialization fragments =
      demuxRounds file rounds position initialization fragments := by
  induction rounds generalizing position initialization fragments with
  | zero =>
    have past : file.length < position + 8 := by omega
    cases more with
    | zero => rfl
    | succ more =>
      rw [Nat.zero_add]
      unfold demuxRounds
      rw [if_pos past]
  | succ rounds ih =>
    rw [Nat.succ_add]
    unfold demuxRounds
    by_cases past : file.length < position + 8
    · rw [if_pos past, if_pos past]
    · rw [if_neg past, if_neg past]
      cases read : readHeader file position with
      | error e => rfl
      | ok header =>
        have further := readHeader_stop read
        have next : ∀ initialization fragments,
            demuxRounds file (rounds + more) header.stop initialization fragments =
              demuxRounds file rounds header.stop initialization fragments :=
          fun _ _ => ih (by omega)
        rw [ok_bind, ok_bind]
        simp only [next]

theorem demuxRounds_ok {rounds position : Nat} {initialization found : Option Bytes}
    {after : Fragments}
    (h : demuxRounds file rounds position initialization fragments = .ok (found, after)) :
    ∃ parts, partsRounds file rounds position = .ok parts ∧
      found = parts.foldl Part.initialization initialization ∧
      parts.foldlM Fragments.pushPart fragments = .ok after := by
  induction rounds generalizing position initialization fragments with
  | zero =>
    cases h
    exact ⟨[], rfl, rfl, rfl⟩
  | succ rounds ih =>
    unfold demuxRounds at h
    unfold partsRounds
    by_cases past : file.length < position + 8
    · rw [if_pos past] at h
      cases h
      exact ⟨[], if_pos past, rfl, rfl⟩
    · rw [if_neg past] at h ⊢
      obtain ⟨header, read, h⟩ := bind_ok h
      rw [read, ok_bind]
      by_cases movie : header.kind = kind "moov"
      · rw [if_pos movie] at h ⊢
        obtain ⟨body, whole, h⟩ := bind_ok h
        obtain ⟨parts, rest, last, pushed⟩ := ih h
        refine ⟨.moov body :: parts, ?_, last, pushed⟩
        rw [whole, rest]
        rfl
      · rw [if_neg movie] at h ⊢
        by_cases fragment : header.kind = kind "moof"
        · rw [if_pos fragment] at h ⊢
          obtain ⟨body, whole, h⟩ := bind_ok h
          obtain ⟨next, first, h⟩ := bind_ok h
          obtain ⟨parts, rest, last, pushed⟩ := ih h
          refine ⟨.moof body header.start :: parts, ?_, last, ?_⟩
          · rw [whole, rest]
            rfl
          · rw [List.foldlM_cons]
            change (fragments.push body header.start >>= fun next =>
              parts.foldlM Fragments.pushPart next) = .ok after
            rw [first]
            exact pushed
        · rw [if_neg fragment] at h ⊢
          obtain ⟨parts, rest, last, pushed⟩ := ih h
          refine ⟨.other :: parts, ?_, last, pushed⟩
          rw [rest]
          rfl

/-- A track is what its last initialization segment says over the samples of every
fragment. -/
theorem demux_ok {track : DemuxedTrack} (h : demux file = .ok track) :
    ∃ found moov fragments, parts file = .ok found ∧ lastMoov found = some moov ∧
      pushParts found = .ok fragments ∧ readInitialization moov fragments = .ok track := by
  obtain ⟨⟨initialization, fragments⟩, read, h⟩ := bind_ok h
  obtain ⟨moov, there, h⟩ := bind_ok h
  obtain ⟨found, walked, last, pushed⟩ := demuxRounds_ok read
  cases initialization with
  | none => cases there
  | some body =>
    cases there
    exact ⟨found, _, fragments, walked, last.symm, pushed, h⟩

theorem readInitialization_samples {moov : Bytes} {track : DemuxedTrack}
    (h : readInitialization moov fragments = .ok track) :
    track.samples = fragments.samples ∧ track.duration = fragments.decoded := by
  obtain ⟨trak, -, h⟩ := bind_ok h
  obtain ⟨tkhd, -, h⟩ := bind_ok h
  obtain ⟨mdhd, -, h⟩ := bind_ok h
  obtain ⟨timescale, -, h⟩ := bind_ok h
  obtain ⟨-, h⟩ := throw_unless_ok h
  obtain ⟨hdlr, -, h⟩ := bind_ok h
  obtain ⟨mediaHeader, -, h⟩ := bind_ok h
  obtain ⟨dinf, -, h⟩ := bind_ok h
  obtain ⟨stsd, -, h⟩ := bind_ok h
  obtain ⟨-, h⟩ := throw_unless_ok h
  cases h
  exact ⟨rfl, rfl⟩

/-! ## The fields of a fragment -/

structure RunSample where
  duration : Option Nat
  size : Option Nat
  flags : Option Nat
  compositionOffset : Int
  deriving DecidableEq

structure Run where
  dataOffset : Option Int
  firstSampleFlags : Option Nat
  samples : List RunSample
  deriving DecidableEq

/-- A track fragment, with the fields of its header that a track header here leaves out. -/
structure Traf where
  header : TrackHeader
  trackId : Nat
  defaultBaseIsMoof : Bool
  decodeTime : Option Nat
  runs : List Run
  deriving DecidableEq

def readSample (version flags : Nat) : Reader RunSample := do
  let duration ← field flags 0x000100 u32
  let size ← field flags 0x000200 u32
  let stated ← field flags 0x000400 u32
  let compositionOffset ← field flags 0x000800
    (if version = 0 then (fun n : Nat => (n : Int)) <$> u32 else i32)
  return { duration, size, flags := stated, compositionOffset := compositionOffset.getD 0 }

def readSamples (version flags : Nat) : Nat → Reader (List RunSample)
  | 0 => return []
  | remaining + 1 => do
      let first ← readSample version flags
      let rest ← readSamples version flags remaining
      return first :: rest

def Run.fields : Reader Run := do
  let (version, flags) ← full
  let count ← u32
  let dataOffset ← field flags 0x000001 i32
  let firstSampleFlags ← field flags 0x000004 u32
  let samples ← readSamples version flags count
  return { dataOffset, firstSampleFlags, samples }

def Run.read (run : Bytes) : Except MuxError Run := Run.fields.of run

/-- The track a fragment belongs to, and whether its data is found from the fragment. -/
def readIdentity : Reader (Nat × Bool) := do
  let (_, flags) ← full
  let trackId ← u32
  return (trackId, has flags 0x020000)

def readRuns (inside : List (Kind × Bytes)) : Except MuxError (List Run) :=
  (inside.filter (·.1 = kind "trun")).mapM fun box => Run.read box.2

def Traf.read (traf : Bytes) : Except MuxError Traf := do
  let tfhd ← required (.malformed "a fragment has no track header") (findBox [kind "tfhd"] traf)
  let header ← TrackHeader.read tfhd
  let (trackId, defaultBaseIsMoof) ← readIdentity.of tfhd
  let runs ← readRuns (boxes traf)
  let decodeTime := (findBox [kind "tfdt"] traf).bind readDecodeTime
  return { header, trackId, defaultBaseIsMoof, decodeTime, runs }

def readTrafs (moof : Bytes) : Except MuxError (List Traf) :=
  ((boxes moof).filter (·.1 = kind "traf")).mapM fun box => Traf.read box.2

/-! ## Resolved samples -/

/-- What stands in for the fields that a sample leaves out. -/
structure Defaults where
  duration : Option Nat
  size : Option Nat
  flags : Option Nat

def TrackHeader.defaults (header : TrackHeader) : Defaults :=
  ⟨header.defaultSampleDuration, header.defaultSampleSize, header.defaultSampleFlags⟩

/-- A sample as far as its fields and their defaults tell. -/
structure Resolved where
  offset : Int
  size : Option Nat
  duration : Option Nat
  compositionOffset : Int
  sync : Option Bool
  deriving DecidableEq

def resolveSamples (defaults : Defaults) (firstSampleFlags : Option Nat) :
    (index : Nat) → Int → List RunSample → List Resolved
  | _, _, [] => []
  | index, offset, sample :: rest =>
      let size := sample.size.or defaults.size
      let flags := sample.flags.or ((if index = 0 then firstSampleFlags else none).or defaults.flags)
      { offset, size, duration := sample.duration.or defaults.duration,
        compositionOffset := sample.compositionOffset, sync := flags.map isSync } ::
        resolveSamples defaults firstSampleFlags (index + 1) (offset + size.getD 0) rest

def samplesEnd (defaults : Defaults) (offset : Int) (samples : List RunSample) : Int :=
  samples.foldl (fun offset sample => offset + ((sample.size.or defaults.size).getD 0 : Nat)) offset

def Run.start (run : Run) (base cursor : Int) : Int := (run.dataOffset.map (base + ·)).getD cursor

def resolveRuns (defaults : Defaults) (base : Int) : (cursor : Int) → List Run → List Resolved
  | _, [] => []
  | cursor, run :: rest =>
      resolveSamples defaults run.firstSampleFlags 0 (run.start base cursor) run.samples ++
        resolveRuns defaults base (samplesEnd defaults (run.start base cursor) run.samples) rest

/-- Where the data of the runs ends. -/
def runsEnd (defaults : Defaults) (base cursor : Int) (runs : List Run) : Int :=
  runs.foldl (fun cursor run => samplesEnd defaults (run.start base cursor) run.samples) cursor

def Sample.resolved (sample : Sample) : Resolved :=
  { offset := sample.offset, size := some sample.size, duration := some sample.duration,
    compositionOffset := sample.compositionOffset, sync := some sample.sync }

/-- A sample as the code takes it: without flags it stands on its own, and 32 bits of a
composition offset are always signed. -/
def Resolved.taken (sample : Resolved) : Resolved :=
  { sample with
    compositionOffset := asI32 sample.compositionOffset
    sync := some (sample.sync.getD true) }

def durations (samples : List Sample) : Nat := (samples.map (·.duration)).sum

def Traf.holdsSamples (traf : Traf) : Prop := traf.runs.flatMap (·.samples) ≠ []

theorem fieldOr_ok {flags mask value : Nat} {default : Option Nat} {missing : String}
    {bytes rest : Bytes} (h : fieldOr flags mask default missing bytes = .ok (value, rest)) :
    ∃ stated, field flags mask u32 bytes = .ok (stated, rest) ∧ stated.or default = some value := by
  obtain ⟨stated, after, read, h⟩ := Reader.bind_ok h
  cases stated with
  | some found =>
    cases h
    exact ⟨some value, read, rfl⟩
  | none =>
    obtain ⟨some_, same⟩ := Reader.lift_ok h
    cases same
    cases default with
    | none => cases some_
    | some found =>
      cases some_
      exact ⟨none, read, rfl⟩

theorem compositionOffset_ok {version flags : Nat} {bytes rest : Bytes} {found : Option Int}
    (h : field flags 0x000800 (if version = 0 then (fun n : Nat => asI32 n) <$> u32 else i32) bytes =
      .ok (found, rest)) :
    ∃ stated, field flags 0x000800
        (if version = 0 then (fun n : Nat => (n : Int)) <$> u32 else i32) bytes = .ok (stated, rest) ∧
      found.getD 0 = asI32 (stated.getD 0) := by
  obtain ⟨there, value, read, rfl⟩ | ⟨absent, rfl, rfl⟩ := field_ok h
  · by_cases unsigned : version = 0
    · rw [if_pos unsigned] at read
      obtain ⟨n, number, same⟩ := Reader.map_ok read
      refine ⟨some n, field_there there ?_, same.symm⟩
      rw [if_pos unsigned]
      exact Reader.ok_map _ number
    · rw [if_neg unsigned] at read
      obtain ⟨n, number, same⟩ := Reader.map_ok read
      refine ⟨some value, field_there there ?_, ?_⟩
      · rw [if_neg unsigned]
        exact read
      · have small : asI32 n < 2 ^ 31 := asI32_lt (take_lt rfl number)
        change value = asI32 value
        have value_eq : asI32 n = value := same
        rw [← value_eq]
        exact (if_pos small).symm
  · refine ⟨none, ?_, rfl⟩
    unfold field
    rw [absent]
    rfl

/-- What a run pushes: its samples, resolved from its track header alone. -/
structure Pushed (defaults : Defaults) (resolved : List Resolved) (before after : Fragments)
    (added : List Sample) : Prop where
  after : after = { before with
    samples := before.samples ++ added, decoded := before.decoded + durations added }
  resolved : added.map Sample.resolved = resolved.map Resolved.taken

variable {before : Fragments} {header : TrackHeader}

theorem pushSamples_ok {version flags remaining index offset stop : Nat}
    {firstSampleFlags : Option Nat} {after : Fragments} {bytes rest : Bytes}
    (h : before.pushSamples version flags firstSampleFlags header remaining index offset bytes =
      .ok ((after, stop), rest)) :
    ∃ samples added, readSamples version flags remaining bytes = .ok (samples, rest) ∧
      Pushed header.defaults (resolveSamples header.defaults firstSampleFlags index offset samples)
        before after added ∧
      (stop : Int) = samplesEnd header.defaults offset samples := by
  induction remaining generalizing index offset before bytes with
  | zero =>
    cases h
    refine ⟨[], [], rfl, ⟨?_, rfl⟩, rfl⟩
    rw [List.append_nil]
    rfl
  | succ remaining ih =>
    unfold Fragments.pushSamples at h
    obtain ⟨duration, bytes₁, readDuration, h⟩ := Reader.bind_ok h
    obtain ⟨size, bytes₂, readSize, h⟩ := Reader.bind_ok h
    obtain ⟨stated, bytes₃, readFlags, h⟩ := Reader.bind_ok h
    obtain ⟨composition, bytes₄, readOffset, h⟩ := Reader.bind_ok h
    obtain ⟨statedDuration, readDuration, duration_eq⟩ := fieldOr_ok readDuration
    obtain ⟨statedSize, readSize, size_eq⟩ := fieldOr_ok readSize
    obtain ⟨statedOffset, readOffset, offset_eq⟩ := compositionOffset_ok readOffset
    dsimp only at h
    split at h
    · cases (Reader.lift_ok h).1
    · split at h
      · cases (Reader.lift_ok h).1
      · obtain ⟨samples, added, read, pushed, ended⟩ := ih h
        let first : RunSample := ⟨statedDuration, statedSize, stated, statedOffset.getD 0⟩
        let sample : Sample :=
          { offset, size, duration, compositionOffset := composition.getD 0,
            sync := (stated.or (if index = 0 then firstSampleFlags.or header.defaultSampleFlags
              else header.defaultSampleFlags)).all isSync }
        have one : readSample version flags bytes = .ok (first, bytes₄) := by
          unfold readSample
          rw [Reader.ok_bind readDuration, Reader.ok_bind readSize, Reader.ok_bind readFlags,
            Reader.ok_bind readOffset]
          rfl
        have sized : statedSize.or header.defaults.size = some size := size_eq
        have lasting : statedDuration.or header.defaults.duration = some duration := duration_eq
        have flagged : sample.sync = (((stated.or ((if index = 0 then firstSampleFlags else none).or
            header.defaults.flags)).map isSync).getD true) := by
          dsimp only [sample, TrackHeader.defaults]
          by_cases start : index = 0
          · rw [if_pos start, if_pos start]
            cases stated.or (firstSampleFlags.or header.defaultSampleFlags) <;> rfl
          · rw [if_neg start, if_neg start, Option.none_or]
            cases stated.or header.defaultSampleFlags <;> rfl
        refine ⟨first :: samples, sample :: added, ?_, ⟨?_, ?_⟩, ?_⟩
        · unfold readSamples
          rw [Reader.ok_bind one, Reader.ok_bind read]
          rfl
        · rw [pushed.after]
          simp only [durations, List.append_assoc, List.singleton_append, List.map_cons,
            List.sum_cons, Nat.add_assoc, sample]
        · have more := pushed.resolved
          simp only [resolveSamples, first, sized, lasting, Option.getD_some, List.map_cons]
          rw [more, Int.natCast_add]
          congr 1
          unfold Sample.resolved Resolved.taken
          rw [flagged, ← offset_eq]
        · rw [ended]
          simp only [samplesEnd, List.foldl_cons, first, sized, Option.getD_some]
          rw [Int.natCast_add]

variable {added : List Sample}

theorem Pushed.trans {defaults : Defaults} {first second : List Resolved}
    {middle after : Fragments} {more : List Sample}
    (one : Pushed defaults first before middle added)
    (two : Pushed defaults second middle after more) :
    Pushed defaults (first ++ second) before after (added ++ more) := by
  constructor
  · rw [two.after, one.after]
    simp only [durations, List.append_assoc, List.map_append, List.sum_append, Nat.add_assoc]
  · rw [List.map_append, List.map_append, one.resolved, two.resolved]

variable {cursor : Option Nat}

theorem runOffset_ok {base offset : Nat} {run : Run} {reached : Int}
    (h : runOffset base run.dataOffset cursor = .ok offset)
    (at_ : ∀ c ∈ cursor, (c : Int) = reached) :
    (offset : Int) = run.start base reached := by
  unfold runOffset at h
  unfold Run.start
  cases stated : run.dataOffset with
  | some dataOffset =>
    rw [stated] at h
    obtain ⟨inside, same⟩ := throw_unless_ok h
    cases same
    change ((base + dataOffset).toNat : Int) = base + dataOffset
    omega
  | none =>
    rw [stated] at h
    cases cursor with
    | none => cases h
    | some c =>
      cases h
      exact at_ _ rfl

variable {fragment : Nat}

theorem pushRun_ok {run : Bytes} {stop : Nat} {after : Fragments}
    (h : before.pushRun run header fragment cursor = .ok (after, stop)) {reached : Int}
    (at_ : ∀ c ∈ cursor, (c : Int) = reached) :
    ∃ read added, Run.read run = .ok read ∧
      Pushed header.defaults (resolveSamples header.defaults read.firstSampleFlags 0
        (read.start (header.baseDataOffset.getD fragment : Nat) reached) read.samples)
        before after added ∧
      (stop : Int) = samplesEnd header.defaults
        (read.start (header.baseDataOffset.getD fragment : Nat) reached) read.samples := by
  obtain ⟨rest, h⟩ := Reader.of_ok h
  obtain ⟨⟨version, flags⟩, bytes₁, readFull, h⟩ := Reader.bind_ok h
  obtain ⟨count, bytes₂, readCount, h⟩ := Reader.bind_ok h
  obtain ⟨dataOffset, bytes₃, readOffset, h⟩ := Reader.bind_ok h
  obtain ⟨firstSampleFlags, bytes₄, readFlags, h⟩ := Reader.bind_ok h
  obtain ⟨offset, bytes₅, lifted, h⟩ := Reader.bind_ok h
  obtain ⟨started, same⟩ := Reader.lift_ok lifted
  dsimp only at started same h
  rw [same] at h
  obtain ⟨samples, added, read, pushed, ended⟩ := pushSamples_ok h
  let whole : Run := ⟨dataOffset, firstSampleFlags, samples⟩
  have start : (offset : Int) = whole.start (header.baseDataOffset.getD fragment : Nat) reached :=
    runOffset_ok started at_
  rw [start] at pushed ended
  refine ⟨whole, added, ?_, pushed, ended⟩
  unfold Run.read Run.fields Reader.of
  rw [Reader.ok_bind readFull]
  dsimp only
  rw [Reader.ok_bind readCount, Reader.ok_bind readOffset, Reader.ok_bind readFlags,
    Reader.ok_bind read]
  rfl

theorem pushRuns_ok {inside : List (Kind × Bytes)} {after : Fragments}
    (h : before.pushRuns header fragment cursor inside = .ok after) {reached : Int}
    (at_ : ∀ c ∈ cursor, (c : Int) = reached) :
    ∃ runs added, readRuns inside = .ok runs ∧
      Pushed header.defaults (resolveRuns header.defaults (header.baseDataOffset.getD fragment : Nat)
        reached runs) before after added := by
  induction inside generalizing before cursor reached with
  | nil =>
    cases h
    refine ⟨[], [], rfl, ?_, rfl⟩
    rw [List.append_nil]
    rfl
  | cons box inside ih =>
    obtain ⟨name, run⟩ := box
    unfold Fragments.pushRuns at h
    by_cases track : name = kind "trun"
    · rw [if_pos track] at h
      obtain ⟨⟨middle, stop⟩, first, h⟩ := bind_ok h
      obtain ⟨read, added, found, pushed, ended⟩ := pushRun_ok first at_
      have onward : ∀ c ∈ some stop, (c : Int) = samplesEnd header.defaults
          (read.start (header.baseDataOffset.getD fragment : Nat) reached) read.samples := by
        intro c same
        cases same
        exact ended
      obtain ⟨runs, more, others, rest⟩ := ih h onward
      refine ⟨read :: runs, added ++ more, ?_, pushed.trans rest⟩
      unfold readRuns at others ⊢
      rw [List.filter_cons_of_pos (by simpa using track), List.mapM_cons, found, others]
      rfl
    · rw [if_neg track] at h
      obtain ⟨runs, added, others, rest⟩ := ih h at_
      refine ⟨runs, added, ?_, rest⟩
      unfold readRuns at others ⊢
      rw [List.filter_cons_of_neg (by simpa using track), others]

theorem readIdentity_ok {tfhd : Bytes} (h : TrackHeader.read tfhd = .ok header) :
    ∃ identity, readIdentity.of tfhd = .ok identity := by
  obtain ⟨rest, h⟩ := Reader.of_ok h
  obtain ⟨⟨version, flags⟩, bytes₁, readFull, h⟩ := Reader.bind_ok h
  obtain ⟨trackId, bytes₂, readId, -⟩ := Reader.bind_ok h
  refine ⟨(trackId, has flags 0x020000), ?_⟩
  unfold readIdentity Reader.of
  rw [Reader.ok_bind readFull]
  dsimp only
  rw [Reader.ok_bind readId]
  rfl

/-- Where the code looks for the data of a track fragment. -/
def Traf.base (traf : Traf) (fragment : Nat) : Nat := traf.header.baseDataOffset.getD fragment

/-- The samples of a track fragment, found from a base. -/
def Traf.resolve (traf : Traf) (defaults : Defaults) (base : Int) : List Resolved :=
  resolveRuns defaults base base traf.runs

/-- A track fragment that names no sample entry but the first. -/
def Traf.SelectsFirst (traf : Traf) : Prop :=
  ∀ index, traf.header.sampleDescriptionIndex = some index → index = 1

/-- What a track fragment does: it brings the timeline to its decode time, then pushes its
samples. -/
theorem pushTraf_ok {traf : Bytes} {after : Fragments}
    (h : before.pushTraf traf fragment = .ok after) :
    ∃ read aligned added, Traf.read traf = .ok read ∧ read.SelectsFirst ∧
      before.alignTo read.decodeTime = .ok aligned ∧
      Pushed read.header.defaults (read.resolve read.header.defaults (read.base fragment))
        aligned after added := by
  obtain ⟨tfhd, there, h⟩ := bind_ok h
  obtain ⟨header, readHeader, h⟩ := bind_ok h
  obtain ⟨selects, h⟩ := throw_unless_ok h
  obtain ⟨aligned, brought, h⟩ := bind_ok h
  obtain ⟨⟨trackId, defaultBaseIsMoof⟩, identity⟩ := readIdentity_ok readHeader
  have nowhere : ∀ c ∈ (none : Option Nat), (c : Int) = (header.baseDataOffset.getD fragment : Nat) := by
    intro c none
    cases none
  obtain ⟨runs, added, readRuns, pushed⟩ := pushRuns_ok h nowhere
  let read : Traf := ⟨header, trackId, defaultBaseIsMoof,
    (findBox [kind "tfdt"] traf).bind readDecodeTime, runs⟩
  have first : read.SelectsFirst := by
    intro index there
    change header.sampleDescriptionIndex = some index at there
    rw [there] at selects
    simpa using selects
  refine ⟨read, aligned, added, ?_, first, brought, pushed⟩
  unfold Traf.read
  rw [there, ok_bind, readHeader, ok_bind, identity, ok_bind, readRuns]
  rfl

/-! ## The timeline -/

/-- The gaps that decode times leave after the samples so far. -/
structure Timeline where
  gaps : List Nat
  decoded : Nat
  origin : Option Nat

def Timeline.start : Timeline := ⟨[], 0, none⟩

def addLast (gap : Nat) (gaps : List Nat) : List Nat :=
  gaps.dropLast ++ (gaps.getLast?.map (· + gap)).toList

def Timeline.align (line : Timeline) (base : Nat) : Timeline :=
  match line.origin with
  | none => { line with origin := some base }
  | some origin =>
      let gap := base - (origin + line.decoded)
      { line with gaps := addLast gap line.gaps, decoded := line.decoded + gap }

def Timeline.alignTo (line : Timeline) (base : Option Nat) : Timeline :=
  match base with
  | some base => line.align base
  | none => line

def Timeline.extend (line : Timeline) (durations : List Nat) : Timeline :=
  { line with
    gaps := line.gaps ++ durations.map fun _ => 0
    decoded := line.decoded + durations.sum }

/-- The durations of the samples of a track fragment. -/
def Traf.durations (traf : Traf) : List Nat :=
  (traf.runs.flatMap (·.samples)).map fun sample =>
    (sample.duration.or traf.header.defaultSampleDuration).getD 0

def Timeline.step (line : Timeline) (traf : Traf) : Timeline :=
  (line.alignTo traf.decodeTime).extend traf.durations

def Sample.stretched (gap : Nat) (sample : Sample) : Sample :=
  { sample with duration := sample.duration + gap }

/-- The samples pushed so far, apart from the gaps that they carry. -/
structure Stands (fragments : Fragments) (kept : List Sample) (line : Timeline) : Prop where
  samples : fragments.samples = List.zipWith Sample.stretched line.gaps kept
  count : line.gaps.length = kept.length
  decoded : fragments.decoded = line.decoded
  origin : fragments.origin = line.origin

variable {kept : List Sample}

theorem stretch_last {gaps : List Nat} {last : Sample} (gap : Nat)
    (count : gaps.length = kept.length)
    (ends : (List.zipWith Sample.stretched gaps kept).getLast? = some last) :
    (List.zipWith Sample.stretched gaps kept).dropLast ++ [last.stretched gap] =
      List.zipWith Sample.stretched (addLast gap gaps) kept ∧
    (addLast gap gaps).length = kept.length := by
  obtain none | ⟨gaps, g, rfl⟩ := List.eq_nil_or_concat' gaps
  · rw [none] at ends
    cases ends
  · obtain none | ⟨kept, sample, rfl⟩ := List.eq_nil_or_concat' kept
    · rw [none, List.length_append] at count
      cases count
    · have fronts : gaps.length = kept.length := by
        rw [List.length_append, List.length_append] at count
        exact Nat.add_right_cancel count
      have before : List.zipWith Sample.stretched (gaps ++ [g]) (kept ++ [sample]) =
          List.zipWith Sample.stretched gaps kept ++ [sample.stretched g] :=
        List.zipWith_append fronts
      have added : addLast gap (gaps ++ [g]) = gaps ++ [g + gap] := by
        unfold addLast
        rw [List.dropLast_concat, List.getLast?_concat]
        rfl
      have after : List.zipWith Sample.stretched (gaps ++ [g + gap]) (kept ++ [sample]) =
          List.zipWith Sample.stretched gaps kept ++ [sample.stretched (g + gap)] :=
        List.zipWith_append fronts
      rw [before, List.getLast?_concat] at ends
      cases ends
      rw [before, added, after, List.dropLast_concat]
      constructor
      · unfold Sample.stretched
        rw [← Nat.add_assoc]
      · rw [List.length_append, List.length_append, fronts]
        rfl

theorem stands_start : Stands .default [] .start := ⟨rfl, rfl, rfl, rfl⟩

variable {line : Timeline}

theorem Stands.align {after : Fragments} {base : Nat} (stands : Stands before kept line)
    (fits : base < 2 ^ 64) (h : before.align base = .ok after) :
    Stands after kept (line.align base) := by
  unfold Fragments.align at h
  unfold Timeline.align
  have origins := stands.origin
  cases begun : before.origin with
  | none =>
    rw [begun] at h origins
    rw [← origins]
    cases h
    exact ⟨stands.samples, stands.count, stands.decoded, rfl⟩
  | some origin =>
    rw [begun] at h origins
    rw [← origins]
    dsimp only at h ⊢
    rw [← stands.decoded]
    have most : saturatingAdd origin before.decoded = min (origin + before.decoded) maxU64 := rfl
    have largest : maxU64 = 2 ^ 64 - 1 := rfl
    by_cases reached : base = saturatingAdd origin before.decoded
    · rw [if_pos reached] at h
      cases h
      have closed : base - (origin + before.decoded) = 0 := by omega
      have unchanged : addLast 0 line.gaps = line.gaps := by
        unfold addLast
        cases last : line.gaps.getLast? with
        | none =>
          rw [List.getLast?_eq_none_iff.mp last]
          rfl
        | some gap => exact List.dropLast_append_getLast? gap last
      rw [closed, unchanged]
      exact ⟨stands.samples, stands.count, rfl, begun⟩
    · rw [if_neg reached] at h
      obtain ⟨later, h⟩ := throw_unless_ok h
      obtain ⟨-, h⟩ := throw_unless_ok h
      cases last : before.samples.getLast? with
      | none =>
        rw [last] at h
        cases h
      | some sample =>
        rw [last] at h
        obtain ⟨-, h⟩ := throw_unless_ok h
        cases h
        have open_ : base - saturatingAdd origin before.decoded = base - (origin + before.decoded) := by
          omega
        rw [stands.samples] at last
        obtain ⟨samples, count⟩ := stretch_last (base - (origin + before.decoded)) stands.count last
        rw [open_, stands.samples]
        exact ⟨samples, count, rfl, rfl⟩

theorem readDecodeTime_lt {body : Bytes} {base : Nat} (h : readDecodeTime body = some base) :
    base < 2 ^ 64 := by
  obtain ⟨rest, h⟩ := Reader.of_ok (toOption_eq_some h)
  obtain ⟨⟨version, flags⟩, bytes, -, h⟩ := Reader.bind_ok h
  dsimp only at h
  split at h
  · exact take_lt rfl h
  · exact Nat.lt_trans (take_lt rfl h) (by decide)

theorem Traf.read_decodeTime_lt {traf : Bytes} {read : Traf} (h : Traf.read traf = .ok read)
    {base : Nat} (there : read.decodeTime = some base) : base < 2 ^ 64 := by
  obtain ⟨tfhd, -, h⟩ := bind_ok h
  obtain ⟨header, -, h⟩ := bind_ok h
  obtain ⟨⟨trackId, defaultBaseIsMoof⟩, -, h⟩ := bind_ok h
  obtain ⟨runs, -, h⟩ := bind_ok h
  cases h
  obtain ⟨body, -, read⟩ := Option.bind_eq_some_iff.mp there
  exact readDecodeTime_lt read

theorem Stands.alignTo {after : Fragments} {base : Option Nat} (stands : Stands before kept line)
    (fits : ∀ time, base = some time → time < 2 ^ 64) (h : before.alignTo base = .ok after) :
    Stands after kept (line.alignTo base) := by
  cases base with
  | none =>
    cases h
    exact stands
  | some base => exact stands.align (fits base rfl) h

theorem resolveSamples_durations (defaults : Defaults) (first : Option Nat) (index : Nat)
    (offset : Int) (samples : List RunSample) :
    (resolveSamples defaults first index offset samples).map (·.duration) =
      samples.map fun sample => sample.duration.or defaults.duration := by
  induction samples generalizing index offset with
  | nil => rfl
  | cons sample samples ih =>
    unfold resolveSamples
    rw [List.map_cons, List.map_cons, ih]

theorem resolveRuns_durations (defaults : Defaults) (base cursor : Int) (runs : List Run) :
    (resolveRuns defaults base cursor runs).map (·.duration) =
      (runs.flatMap (·.samples)).map fun sample => sample.duration.or defaults.duration := by
  induction runs generalizing cursor with
  | nil => rfl
  | cons run runs ih =>
    unfold resolveRuns
    rw [List.map_append, ih, resolveSamples_durations, List.flatMap_cons, List.map_append]

theorem durations_of_resolved {traf : Traf} {base : Int} (h : added.map Sample.resolved =
      (traf.resolve traf.header.defaults base).map Resolved.taken) :
    added.map (·.duration) = traf.durations := by
  have stated := congrArg (List.map fun sample : Resolved => sample.duration.getD 0) h
  have each := congrArg (List.map fun duration : Option Nat => duration.getD 0)
    (resolveRuns_durations traf.header.defaults base base traf.runs)
  simp only [List.map_map] at stated each
  unfold Traf.durations
  exact stated.trans each

theorem zipWith_stretched_zeros (added : List Sample) :
    List.zipWith Sample.stretched ((added.map (·.duration)).map fun _ => 0) added = added := by
  induction added with
  | nil => rfl
  | cons sample added ih =>
    rw [List.map_cons, List.map_cons, List.zipWith_cons_cons, ih]
    rfl

theorem Stands.extend {after : Fragments} {defaults : Defaults} {resolved : List Resolved}
    (stands : Stands before kept line) (pushed : Pushed defaults resolved before after added) :
    Stands after (kept ++ added) (line.extend (added.map (·.duration))) := by
  rw [pushed.after]
  refine ⟨?_, ?_, ?_, stands.origin⟩
  · unfold Timeline.extend
    rw [List.zipWith_append stands.count, zipWith_stretched_zeros, stands.samples]
  · unfold Timeline.extend
    rw [List.length_append, List.length_append, stands.count, List.length_map, List.length_map]
  · unfold Timeline.extend durations
    rw [stands.decoded]

/-- The samples of a track fragment, as the code resolves them. -/
def Traf.taken (traf : Traf) (fragment : Nat) : List Resolved :=
  (traf.resolve traf.header.defaults (traf.base fragment)).map Resolved.taken

theorem Stands.pushTraf {traf : Bytes} {after : Fragments} (stands : Stands before kept line)
    (h : before.pushTraf traf fragment = .ok after) :
    ∃ read added, Traf.read traf = .ok read ∧ read.SelectsFirst ∧
      Stands after (kept ++ added) (line.step read) ∧
      added.map Sample.resolved = read.taken fragment := by
  obtain ⟨read, aligned, added, readTraf, selects, brought, pushed⟩ := pushTraf_ok h
  have fits : ∀ time, read.decodeTime = some time → time < 2 ^ 64 :=
    fun time there => Traf.read_decodeTime_lt readTraf there
  have stood := (stands.alignTo fits brought).extend pushed
  rw [durations_of_resolved pushed.resolved] at stood
  exact ⟨read, added, readTraf, selects, stood, pushed.resolved⟩

/-! ## Whole files -/

structure Moof where
  start : Nat
  trafs : List Traf
  deriving DecidableEq

/-- The track fragments of every fragment of a file. -/
def readMoofs : List Part → Except MuxError (List Moof)
  | [] => .ok []
  | .moof body start :: rest => do
      let trafs ← readTrafs body
      let more ← readMoofs rest
      return ⟨start, trafs⟩ :: more
  | _ :: rest => readMoofs rest

def Moof.taken (moof : Moof) : List Resolved := moof.trafs.flatMap (·.taken moof.start)

def Timeline.pass (line : Timeline) (moof : Moof) : Timeline := moof.trafs.foldl Timeline.step line

def timeline (moofs : List Moof) : Timeline := moofs.foldl Timeline.pass .start

theorem Stands.push {moof : Bytes} {start : Nat} {after : Fragments}
    (stands : Stands before kept line) (h : before.push moof start = .ok after) :
    ∃ trafs added, readTrafs moof = .ok trafs ∧ (∀ traf ∈ trafs, traf.SelectsFirst) ∧
      Stands after (kept ++ added) (line.pass ⟨start, trafs⟩) ∧
      added.map Sample.resolved = (⟨start, trafs⟩ : Moof).taken := by
  unfold Fragments.push at h
  unfold readTrafs
  generalize boxes moof = inside at h
  induction inside generalizing before kept line with
  | nil =>
    cases h
    refine ⟨[], [], rfl, (fun traf none => by cases none), ?_, rfl⟩
    rw [List.append_nil]
    exact stands
  | cons box inside ih =>
    obtain ⟨middle, first, h⟩ := bind_ok h
    dsimp only at first
    by_cases track : box.1 = kind "traf"
    · rw [if_pos track] at first
      obtain ⟨read, added, one, selects, stood, taken⟩ := stands.pushTraf first
      obtain ⟨trafs, more, others, select, stood, rest⟩ := ih stood h
      refine ⟨read :: trafs, added ++ more, ?_, List.forall_mem_cons.mpr ⟨selects, select⟩, ?_, ?_⟩
      · rw [List.filter_cons_of_pos (by simpa using track), List.mapM_cons, one, others]
        rfl
      · rw [← List.append_assoc]
        exact stood
      · rw [List.map_append, taken, rest]
        rfl
    · rw [if_neg track] at first
      cases first
      obtain ⟨trafs, added, others, select, stood, taken⟩ := ih stands h
      refine ⟨trafs, added, ?_, select, stood, taken⟩
      rw [List.filter_cons_of_neg (by simpa using track), others]

theorem Stands.pushParts {parts : List Part} {after : Fragments}
    (stands : Stands before kept line) (h : parts.foldlM Fragments.pushPart before = .ok after) :
    ∃ moofs added, readMoofs parts = .ok moofs ∧
      Stands after (kept ++ added) (moofs.foldl Timeline.pass line) ∧
      added.map Sample.resolved = moofs.flatMap Moof.taken := by
  induction parts generalizing before kept line with
  | nil =>
    cases h
    refine ⟨[], [], rfl, ?_, rfl⟩
    rw [List.append_nil]
    exact stands
  | cons part parts ih =>
    obtain ⟨middle, first, onward⟩ := bind_ok h
    cases part with
    | moov body =>
      cases first
      exact ih stands onward
    | other =>
      cases first
      exact ih stands onward
    | moof body start =>
      obtain ⟨trafs, added, read, -, stood, taken⟩ := stands.push first
      obtain ⟨moofs, more, others, stood, rest⟩ := ih stood onward
      refine ⟨⟨start, trafs⟩ :: moofs, added ++ more, ?_, ?_, ?_⟩
      · unfold readMoofs
        rw [read, others]
        rfl
      · rw [← List.append_assoc]
        exact stood
      · rw [List.map_append, taken, rest, List.flatMap_cons]

/-- The samples of a track are those of its fragments, in order, each with the gap that
the decode times leave after it. -/
theorem pushParts_ok {parts : List Part} (h : pushParts parts = .ok fragments) :
    ∃ moofs kept, readMoofs parts = .ok moofs ∧ Stands fragments kept (timeline moofs) ∧
      kept.map Sample.resolved = moofs.flatMap Moof.taken :=
  Stands.pushParts stands_start h

end Gunda.Stream.Mux

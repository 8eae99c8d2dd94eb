import Gunda.Stream.Checkpoints

/-!
# Interrupted transfers of a track

Runs of `write_track` from an empty staging area, each cut off anywhere and perhaps
followed by a crash: every checkpoint saved is backed by the file, and a run that
reports a track complete leaves exactly the bodies of its resources in it.
-/
namespace Gunda.Stream

open Gunda.Lib Gunda.Lib.DurableFile
open Gunda.Core (DownloadFailure)

/-- Every way an operation of a run can come out. -/
def stagingRuns (bodies : Bodies) : Spec TransferOp TransferOp.Answer Staging :=
  (staging bodies).spec fun _ _ => True

/-- A run of `write_track` with nothing reported yet, up to any of its operations. -/
def TrackRun (bodies : Bodies) (plan : TrackPlan) (track : Nat) (w : Staging)
    (after : Program TransferOp TransferOp.Answer (Except DownloadFailure TrackResult) × Staging) :
    Prop :=
  ∃ urls manifestUrl headers base, Program.Steps (stagingRuns bodies)
    ((writeTrack urls manifestUrl headers plan track (stagedPath track plan.trackCount) base
      w.row).run, { w with reports := [] }) after

/-- The staging areas that interrupted runs of `write_track` lead to. -/
inductive Reached (bodies : Bodies) (plan : TrackPlan) : Staging → Prop where
  /-- Without a store nothing is saved. -/
  | unsaved : Reached bodies plan .empty
  | saved {fingerprint : PlanFingerprint} {state : StreamResumeState}
      (initialized : initializeState none fingerprint plan.trackCount = .ok state) :
      Reached bodies plan { Staging.empty with row := some state }
  | run {w t : Staging} {track : Nat}
      {program : Program TransferOp TransferOp.Answer (Except DownloadFailure TrackResult)}
      (reached : Reached bodies plan w) (inside : track < plan.trackCount)
      (ran : TrackRun bodies plan track w (program, t)) : Reached bodies plan t
  | crash {w t : Staging} (reached : Reached bodies plan w) (crashed : w.Crash t) :
      Reached bodies plan t

variable {bodies : Bodies} {plan : TrackPlan} {w t : Staging} {track : Nat}

theorem Backed.quiet (backed : Backed bodies plan w) :
    Sound bodies plan 0 { w with reports := [] } :=
  ⟨⟨backed.tracks, backed.checkpoints⟩, fun _ member => absurd member List.not_mem_nil,
    List.Pairwise.nil⟩

/-- What a run of `write_track` ends with, and what holds wherever it is cut off. -/
theorem trackRun_backed (backed : Backed bodies plan w) (inside : track < plan.trackCount)
    {program : Program TransferOp TransferOp.Answer (Except DownloadFailure TrackResult)}
    (ran : TrackRun bodies plan track w (program, t)) :
    Backed bodies plan t ∧ ∀ result, program = .done (.ok result) → ∃ least start base reached,
      TrackWritten bodies plan least start track base reached result t := by
  obtain ⟨urls, manifestUrl, headers, base, steps⟩ := ran
  have yields : Yields bodies plan 0
      (writeTrack urls manifestUrl headers plan track (stagedPath track plan.trackCount) base w.row)
      _ { w with reports := [] } :=
    writeTrack_yields urls manifestUrl headers backed.quiet inside (fun _ => Nat.zero_le _)
      fun _ member => absurd member List.not_mem_nil
  have run : Program.Steps (stagingSpec bodies plan 0) _ _ := Program.steps_of_spec steps
  constructor
  · refine (Program.invariant_of_wp (fun _ _ sound => sound) ?_ run yields).backed
    intro result t reached
    cases result with
    | ok value =>
      obtain ⟨_, written⟩ := reached
      exact written.checkpoint.writing.sound
    | error failure => exact reached
  · intro result finished
    subst finished
    obtain ⟨reached, written⟩ := Program.post_of_wp run yields
    exact ⟨_, _, _, reached, written⟩

theorem backed_start {fingerprint : PlanFingerprint} {state : StreamResumeState}
    (initialized : initializeState none fingerprint plan.trackCount = .ok state) :
    Backed bodies plan { Staging.empty with row := some state } := by
  obtain ⟨-, tracks⟩ := initializeState_ok initialized
  constructor
  · intro stored same
    cases same
    rw [tracks, List.length_replicate]
  · intro stored same track checkpoint found
    cases same
    rw [tracks] at found
    have first := List.eq_of_mem_replicate (List.mem_of_getElem? found)
    subst first
    exact ⟨Nat.zero_le _, rfl, retains_nil _⟩

theorem backed_of_reached (reached : Reached bodies plan w) : Backed bodies plan w := by
  induction reached with
  | unsaved => exact ⟨by rintro _ ⟨⟩, by rintro _ ⟨⟩⟩
  | saved initialized => exact backed_start initialized
  | run reached inside ran ih => exact (trackRun_backed ih inside ran).1
  | crash reached crashed ih => exact ih.crash crashed

theorem content_take_of_retains {path : StagingPath} {bytes : Bytes} (kept : Retains (w.files path) bytes) :
    (w.content path).take bytes.length = bytes := by
  cases present : w.files path with
  | none =>
    rw [present] at kept
    cases kept with
    | inl nothing =>
      rw [nothing]
      rfl
    | inr found =>
      obtain ⟨file, ⟨⟩, -⟩ := found
  | some file =>
    rw [present] at kept
    obtain ⟨rest, held⟩ := kept.leads
    unfold Staging.content
    rw [present, Option.map_some, Option.getD_some, ← held, List.take_left]

/-- Wherever interrupted runs lead, the durable bytes of a track are exactly the bodies
of its first resources, and a run that completes a track leaves all of them. -/
theorem checkpoints_backed_by_files (reached : Reached bodies plan w) :
    (∀ state ∈ w.row, ∀ track checkpoint, state.tracks[track]? = some checkpoint →
      checkpoint.nextResource ≤ (plan.resourcesOf track).length ∧
      checkpoint.durableBytes =
        (((plan.resourcesOf track).take checkpoint.nextResource).flatMap (bodyOf bodies)).length ∧
      (w.content (stagedPath track plan.trackCount)).take checkpoint.durableBytes =
        ((plan.resourcesOf track).take checkpoint.nextResource).flatMap (bodyOf bodies)) ∧
    (∀ track result t, track < plan.trackCount →
      TrackRun bodies plan track w (.done (.ok result), t) → result.stopped = false →
      t.content (stagedPath track plan.trackCount) =
        (plan.resourcesOf track).flatMap (bodyOf bodies) ∧
      result.written = ((plan.resourcesOf track).flatMap (bodyOf bodies)).length) := by
  have backed := backed_of_reached reached
  constructor
  · intro state saved track checkpoint found
    have at_file := backed.checkpoints state saved track checkpoint found
    refine ⟨at_file.inPlan, at_file.counted, ?_⟩
    rw [at_file.counted]
    exact content_take_of_retains at_file.kept
  · intro track result t inside ran complete
    obtain ⟨-, done⟩ := trackRun_backed backed inside ran
    obtain ⟨least, start, base, last, written⟩ := done result rfl
    obtain ⟨rfl, -⟩ := written.completed complete
    obtain ⟨file, present, held⟩ := written.checkpoint.writing.holds
    have whole : front bodies plan track (plan.resourcesOf track).length =
        (plan.resourcesOf track).flatMap (bodyOf bodies) := by
      unfold front
      rw [List.take_length]
    refine ⟨?_, ?_⟩
    · unfold Staging.content
      rw [present, Option.map_some, Option.getD_some, held, whole, List.append_nil]
    · rw [written.written, whole]

/-! ## A run -/

def twoSegments : TrackPlan where
  kind := .hls
  resources := [⟨⟨"https://media/a".toList⟩, none, 0⟩,
    ⟨⟨"https://media/b".toList⟩, some ⟨2, some 4⟩, 0⟩]
  durationMillis := none
  label := none
  bandwidth := none
  declaredTotalBytes := none
  containerHint := none

def segmentBodies : Bodies := fun _ interval => if interval = none then [1, 2, 3] else [4, 5]

def stagingUrls : Http.UrlLibrary where
  join _ _ := none
  scheme _ := "https".toList
  path url := url.serialization
  host _ := none
  username _ := []
  password _ := none
  sameOrigin _ _ := true

def runFirstTrack (w : Staging) (choices : List StagingChoice) :
    Option (Except DownloadFailure TrackResult × Staging) :=
  (writeTrack stagingUrls ⟨[]⟩ [] twoSegments 0 .partialPath 0 w.row).run.finish
    (staging segmentBodies) choices { w with reports := [] }

/-- The first resource is saved; the second one breaks off. -/
def brokenOff : List StagingChoice :=
  [.proceeds, .proceeds, .answers false [], .sends ⟨[[1, 2], [3]], none⟩, .answers false [],
    .proceeds, .proceeds, .answers false [], .proceeds, .proceeds, .answers false [],
    .answers true [], .proceeds, .proceeds, .proceeds, .answers false [],
    .sends ⟨[[4]], some .transport⟩, .answers false [], .proceeds, .proceeds, .answers false [],
    .proceeds, .proceeds, .proceeds, .proceeds, .proceeds, .proceeds]

/-- The second resource is fetched again after the file was cut back. -/
def resumed : List StagingChoice :=
  [.proceeds, .proceeds, .proceeds, .proceeds, .proceeds, .answers false [],
    .sends ⟨[[4, 5]], none⟩, .answers false [], .proceeds, .proceeds, .answers false [],
    .proceeds, .proceeds, .proceeds, .proceeds, .proceeds, .proceeds]

def initialized : Staging := { Staging.empty with row := StreamResumeState.new ⟨0, 0⟩ [.start] }

def crashed (w : Staging) : Staging :=
  { w with files := fun path => (w.files path).map (·.damage [9]) }

theorem damaged_is_crash (w : Staging) : w.Crash (crashed w) := by
  refine ⟨fun path => ?_, rfl⟩
  change Crash (w.files path) ((w.files path).map (·.damage [9]))
  cases w.files path with
  | none => exact Crash.missing
  | some file => exact Crash.damaged file [9]

theorem runFirstTrack_ran {choices : List StagingChoice} {w t : Staging}
    {result : Except DownloadFailure TrackResult}
    (ran : runFirstTrack w choices = some (result, t)) :
    TrackRun segmentBodies twoSegments 0 w (.done result, t) :=
  ⟨stagingUrls, ⟨[]⟩, [], 0, Program.steps_of_finish ran⟩

theorem checkpoints_backed_by_files_example :
    ∃ w t result, Reached segmentBodies twoSegments w ∧ w.content .partialPath = [1, 2, 3, 9] ∧
      TrackRun segmentBodies twoSegments 0 w (.done (.ok result), t) ∧
      t.content .partialPath = [1, 2, 3, 4, 5] := by
  have first : (runFirstTrack initialized brokenOff).isSome = true := by decide +kernel
  obtain ⟨⟨ending, broken⟩, ran⟩ := Option.isSome_iff_exists.mp first
  have second : ((runFirstTrack initialized brokenOff).bind fun broken =>
      runFirstTrack (crashed broken.2) resumed).any (fun finished =>
        finished.1.toOption.any fun result => !result.stopped) = true := by decide +kernel
  have torn : (runFirstTrack initialized brokenOff).any (fun broken =>
      (crashed broken.2).content .partialPath = [1, 2, 3, 9]) = true := by decide +kernel
  rw [ran] at second torn
  obtain ⟨⟨finished, t⟩, continued, complete⟩ := (Option.any_eq_true _ _).mp second
  cases finished with
  | error failure => cases complete
  | ok result =>
    have created : initializeState none ⟨0, 0⟩ twoSegments.trackCount =
        .ok ⟨⟨0, 0⟩, [.start], by decide⟩ := rfl
    have began : Reached segmentBodies twoSegments initialized := Reached.saved created
    have reached := Reached.crash (Reached.run began (by decide) (runFirstTrack_ran ran))
      (damaged_is_crash broken)
    have whole := (checkpoints_backed_by_files reached).2 0 result t (by decide)
      (runFirstTrack_ran continued) (Bool.eq_false_of_not_eq_true' complete)
    exact ⟨crashed broken, t, result, reached, by simpa using torn, runFirstTrack_ran continued,
      whole.1⟩

end Gunda.Stream

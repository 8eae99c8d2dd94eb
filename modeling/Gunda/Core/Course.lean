import Gunda.Core.Rules
import Gunda.Lib.Result

/-!
# The course of an execution

`execute_inner` step by step: what it may ask after what it was answered, which rows it
may commit, what it tells its observer, and how it ends. An invariant of whole executions
is proved of these steps alone.
-/
namespace Gunda.Core

open Gunda.Lib
open Fallible (andThen_ok wp wp_bind wp_mono)

/-- What an execution has been answered and has committed. -/
structure Course where
  /-- What the manager's map shows. -/
  shown : Option DownloadJob
  /-- The job worked on, as it was read first or persisted last. -/
  job : Option DownloadJob
  /-- Whether the execution persisted that job. -/
  persisted : Bool
  /-- What the map showed, and the job worked on, before the last commit. -/
  before : Option DownloadJob
  replaced : Option DownloadJob
  request : Option DownloadControlRequest
  /-- Whether requests were asked for since the executor answered. -/
  checked : Bool
  preparation : Option (Option (Except DownloadFailure PreparedTransfer))
  run : Option TransferRun
  output : Option (StagedTransfer × Except DownloadFailure ExecutionOutput)
  /-- Whether the progress of the last commit was told. -/
  told : Bool
  /-- The candidate of a commit that failed. -/
  refused : Option DownloadJob

namespace Course

/-- The first look at the job. -/
def start (found : Option DownloadJob) : Course where
  shown := found
  job := found
  persisted := false
  before := none
  replaced := none
  request := none
  checked := false
  preparation := none
  run := none
  output := none
  told := false
  refused := none

def answered : (op : ManagerOp) → op.Answer → Course → Course
  | .job _, found, course => { course with shown := found }
  | .requestKind, request, course => { course with request := request, checked := true }
  | .prepare _, preparation, course =>
      { course with preparation := some preparation, checked := false }
  | .transferControlled _, run, course => { course with run := some run, checked := false }
  | .finalize staged, output, course => { course with output := some (staged, output) }
  | .onProgress (.progressChanged _ _) _, _, course => { course with told := true }
  | _, _, course => course

def saved (persisted : DownloadJob) (course : Course) : Course :=
  { course with
    shown := some persisted
    job := some persisted
    persisted := true
    before := course.shown
    replaced := course.job
    told := false }

def refusing (candidate : DownloadJob) (course : Course) : Course :=
  { course with refused := some candidate }

/-- Nothing was lost or refused that the execution stops over. -/
def Open (course : Course) : Prop :=
  course.refused = none ∧ course.shown ≠ none

/-- The job worked on was persisted, and no commit failed. -/
def Rests (course : Course) : Prop := course.persisted = true ∧ course.refused = none

/-- The execution works on this job. -/
def Works (course : Course) (state : DownloadState) (job : DownloadJob) : Prop :=
  course.job = some job ∧ job.state = state

/-- The job was inspected, and its transfer did not begin. -/
structure Inspected (course : Course) (job : DownloadJob) (prepared : PreparedTransfer)
    (progress : DownloadProgress) : Prop where
  works : course.Works .inspecting job
  given : course.preparation = some (some (.ok prepared))
  idle : course.run = none
  started : DownloadProgress.new prepared.startingBytes prepared.totalBytes = .ok progress

/-- The transfer of the job ran, and every checkpoint was told. -/
structure Transferred (course : Course) (job : DownloadJob) (prepared : PreparedTransfer)
    (run : TransferRun) : Prop where
  works : course.Works .downloading job
  given : course.preparation = some (some (.ok prepared))
  ran : course.run = some run
  unpublished : course.output = none
  unrefused : course.refused = none
  told : course.told = true ∨ ∃ last, course.replaced = some last ∧ last.state = .inspecting

end Course

/-- The job with what inspection found. -/
def DownloadJob.inspected (job : DownloadJob) (prepared : PreparedTransfer)
    (progress : DownloadProgress) (now : OffsetDateTime) : DownloadJob :=
  ((job.setResource prepared.resource now).updateProgress progress now).resolveDestination
    prepared.plannedDestination now

/-- The count of the job is the start or an earlier tick of the transfer. -/
def Counting (job : DownloadJob) (prepared : PreparedTransfer) (run : TransferRun) (bytes : Nat) :
    Prop :=
  ∃ earlier, (earlier ++ [bytes]) <+: (run.ticks ++ [run.reportedBytes]) ∧
    job.progress.downloadedBytes ∈ prepared.startingBytes :: earlier

def finishedProgress (job : DownloadJob) (prepared : PreparedTransfer) (writtenBytes : Nat) :
    Except RepositoryError DownloadProgress :=
  if prepared.totalBytesIsEstimated then
    (DownloadProgress.new writtenBytes (some writtenBytes)).mapError fun _ =>
      invalidRepositoryData "estimated progress is invalid"
  else validatedExecutionProgress job writtenBytes

theorem finishedProgress_counts {job : DownloadJob} {prepared : PreparedTransfer} {bytes : Nat}
    {progress : DownloadProgress} (h : finishedProgress job prepared bytes = .ok progress) :
    progress.downloadedBytes = bytes := by
  unfold finishedProgress validatedExecutionProgress at h
  split at h
  · exact (DownloadProgress.new_ok (mapError_ok h)).1
  · split at h
    · cases h
    · exact (DownloadProgress.new_ok (mapError_ok h)).1

/-! ## Steps -/

section

set_option autoImplicit true
set_option relaxedAutoImplicit true

/-- The progress that a stop after a transfer records. -/
inductive StoppedProgress (prepared : PreparedTransfer) (run : TransferRun) (job : DownloadJob) :
    Except RepositoryError DownloadProgress → Prop where
  | stopped (ended : run.result = .ok (.stopped bytes))
      (kept : bytes < run.reportedBytes → prepared.stoppedProgressMayRewind = true) :
      StoppedProgress prepared run job (stoppedExecutionProgress job bytes
        prepared.totalBytesIsEstimated prepared.stoppedProgressMayRewind)
  | finished (ended : run.result = .ok (.finished staged)) :
      StoppedProgress prepared run job
        (stoppedExecutionProgress job staged.writtenBytes prepared.totalBytesIsEstimated false)

/-- The rows a stop may be recorded over. -/
inductive Stops (course : Course) : DownloadJob → Prop where
  | queued (works : course.Works .queued job) (unprepared : course.preparation = none) :
      Stops course job
  | dropped (works : course.Works .inspecting job) (dropped : course.preparation = some none) :
      Stops course job
  | inspected (inspected : course.Inspected job prepared progress) :
      Stops course (job.inspected prepared progress now)
  | transferred (transferred : course.Transferred job prepared run)
      (counted : StoppedProgress prepared run job (.ok progress)) :
      Stops course (job.updateProgress progress now)

/-- Why an execution records a failure. -/
inductive Failing (course : Course) (failure : DownloadFailure) : Prop where
  | prepare (works : course.Works .inspecting job)
      (failed : course.preparation = some (some (.error failure)))
  | transfer (works : course.Works .downloading job) (ran : course.run = some run)
      (failed : run.result = .error failure)
  | publish (works : course.Works .finalizing job)
      (failed : course.output = some (staged, .error failure))

/-- The executor published what it staged. -/
structure Course.Published (course : Course) (staged : StagedTransfer) (output : ExecutionOutput) :
    Prop where
  unasked : course.request = none
  ran : ∃ run, course.run = some run ∧ run.result = .ok (.finished staged)
  output : course.output = some (staged, .ok output)

/-- The rows an execution may commit. -/
inductive Commits (course : Course) : DownloadJob → Prop where
  | inspecting (works : course.Works .queued job) (unasked : course.request = none)
      (unprepared : course.preparation = none) :
      Commits course { job with state := .inspecting, updatedAt := now }
  | downloading (inspected : course.Inspected job prepared progress)
      (unasked : course.request = none) :
      Commits course { job.inspected prepared progress at_ with
        state := .downloading, updatedAt := now }
  | checkpoint (transferred : course.Transferred job prepared run) (unasked : course.request = none)
      (counting : Counting job prepared run bytes)
      (counted : executionProgress job bytes prepared.totalBytesIsEstimated = .ok progress)
      (changed : progress ≠ job.progress) : Commits course (job.updateProgress progress now)
  | finalizing (transferred : course.Transferred job prepared run) (unasked : course.request = none)
      (ended : run.result = .ok (.finished staged))
      (covers : job.progress.downloadedBytes ≤ staged.writtenBytes)
      (counted : finishedProgress job prepared staged.writtenBytes = .ok progress) :
      Commits course { job.updateProgress progress at_ with
        state := .finalizing, updatedAt := now }
  | stop (stops : Stops course base) (shown : course.shown = some current)
      (asked : course.request = some request) :
      Commits course { base with state := stopState request, updatedAt := now }
  | failed {failure : DownloadFailure} (fails : Failing course failure)
      (unasked : course.request = none) (shown : course.shown = some job)
      (failing : job.state.canTransitionTo .failed = true) :
      Commits course { job with state := .failed, lastFailure := some failure, updatedAt := now }
  | completed (published : course.Published staged output) (works : course.Works .finalizing worked)
      (equal : output.writtenBytes = staged.writtenBytes) (shown : course.shown = some job)
      (finalizing : job.state = .finalizing)
      (counted : job.progress.downloadedBytes = output.writtenBytes) :
      Commits course { job.resolveDestination output.destination now with
        state := .completed, updatedAt := now }

/-- What an execution tells its observer of the row it persisted. -/
inductive Tells (id : DownloadId) (course : Course) : DownloadEvent → DownloadJob → Prop where
  | downloading (works : course.Works .downloading job) :
      Tells id course (.stateChanged id .inspecting .downloading) job
  | finalizing (works : course.Works .finalizing job) :
      Tells id course (.stateChanged id .downloading .finalizing) job
  | progress (works : course.Works state job)
      (named : state = .finalizing ∧ key = id ∨ state ≠ .finalizing ∧ key = job.id)
      (previous : (state = .downloading ∨ state = .finalizing) ∧ course.replaced = some last ∨
        (∃ request, course.request = some request ∧ state = stopState request) ∧
          course.before = some last)
      (changed : job.progress ≠ last.progress) (untold : course.told = false) :
      Tells id course (.progressChanged key job.progress) job

/-- What an execution may ask. -/
def Course.Asks (id : DownloadId) (course : Course) : ManagerOp → Prop
  | .job key => ∃ job, course.job = some job ∧ (key = id ∨ key = job.id)
  | .nowUtc | .setPauseSupported _ => True
  | .requestKind => course.request = none
  | .prepare input => course.preparation = none ∧ course.persisted = true ∧ ∃ job, course.Works .inspecting job ∧
      input = ⟨id, job.request, job.destination, job.progress, job.resource,
        job.resolvedDestination⟩
  | .transferControlled startingBytes => course.run = none ∧ course.request = none ∧
      ∃ job prepared, course.Works .downloading job ∧
        course.preparation = some (some (.ok prepared)) ∧ startingBytes = prepared.startingBytes
  | .finalize staged => course.output = none ∧ course.request = none ∧
      ∃ job run, course.Works .finalizing job ∧ course.run = some run ∧
        run.result = .ok (.finished staged)
  | .onProgress event job => Tells id course event job
  | .lockWrites | .unlockWrites | .save _ | .insert _ _ => False

/-- Surroundings in which every step of an execution keeps an invariant. -/
structure Walks {σ : Type} (S : Spec ManagerOp ManagerOp.Answer σ) (id : DownloadId)
    (I : Course → σ → Prop) : Prop where
  ask : ∀ {course op s}, I course s → course.Open → course.Asks id op →
    S.requires op s ∧ ∀ answer t, S.ensures op s answer t → I (course.answered op answer) t
  commit : ∀ {course candidate s}, I course s → course.Open → Commits course candidate →
    Fallible.wp S (commitJob candidate) (fun result t => match result with
      | .ok persisted => Stamped candidate persisted ∧ I (course.saved persisted) t
      | .error _ => I (course.refusing candidate) t) s

/-! ## Ends -/

/-- Why an execution returns an error. -/
inductive Faults (id : DownloadId) (course : Course) : DownloadManagerError → Prop where
  | missing (lost : course.shown = none) : Faults id course (.notFound key)
  | unqueued (worked : course.job = some job) (fresh : course.persisted = false)
      (busy : job.state ≠ .queued) (unasked : course.request = none) : Faults id course (.invalidExecutionState id job.state)
  | refused (refused : course.refused = some candidate) : Faults id course (.repository error)
  | dropped (dropped : course.preparation = some none) (unasked : course.request = none)
      (checked : course.checked = true) : Faults id course (.repository error)
  | beyond (given : course.preparation = some (some (.ok prepared)))
      (unasked : course.request = none)
      (failed : DownloadProgress.new prepared.startingBytes prepared.totalBytes = .error invalid) :
      Faults id course (.repository error)
  | miscounted (transferred : course.Transferred job prepared run) (unasked : course.request = none)
      (counting : Counting job prepared run bytes)
      (failed : executionProgress job bytes prepared.totalBytesIsEstimated = .error invalid) :
      Faults id course (.repository error)
  | unrequested (ran : course.run = some run) (ended : run.result = .ok (.stopped bytes))
      (unasked : course.request = none) (checked : course.checked = true) : Faults id course (.repository error)
  | rewound (transferred : course.Transferred job prepared run)
      (ended : run.result = .ok (.stopped bytes)) (below : bytes < run.reportedBytes)
      (fixed : prepared.stoppedProgressMayRewind = false) : Faults id course (.repository error)
  | misfinished (transferred : course.Transferred job prepared run)
      (unasked : course.request = none) (counting : Counting job prepared run run.reportedBytes)
      (ended : run.result = .ok (.finished staged))
      (failed : staged.writtenBytes < run.reportedBytes ∨
        finishedProgress job prepared staged.writtenBytes = .error invalid ∨
        (prepared.totalBytesIsEstimated = false ∧
          prepared.totalBytes.any (· ≠ staged.writtenBytes) = true)) :
      Faults id course (.repository error)
  | misstopped (transferred : course.Transferred job prepared run)
      (counting : Counting job prepared run run.reportedBytes)
      (failed : StoppedProgress prepared run job (.error invalid)) :
      Faults id course (.repository error)
  | unfailing {failure : DownloadFailure} (fails : Failing course failure)
      (unasked : course.request = none) (shown : course.shown = some job)
      (kept : job.state.canTransitionTo .failed = false) :
      Faults id course (.repository error)
  | inconsistent (published : course.Published staged output)
      (works : course.Works .finalizing worked) (other : output.writtenBytes ≠ staged.writtenBytes) :
      Faults id course (.completionNotPersisted id output.destination output.writtenBytes
        output.cleanupPending
        (invalidRepositoryData "executor returned inconsistent published output"))
  | unconfirmed (published : course.Published staged output)
      (works : course.Works .finalizing worked)
      (equal : output.writtenBytes = staged.writtenBytes)
      (failed : course.shown = none ∨ course.refused ≠ none ∨
        ∃ job, course.shown = some job ∧ (job.state ≠ .finalizing ∨
          job.progress.downloadedBytes ≠ output.writtenBytes)) :
      Faults id course (.completionNotPersisted id output.destination output.writtenBytes
        output.cleanupPending error)

/-- How an execution ends. -/
inductive Results (id : DownloadId) (course : Course) :
    Except DownloadManagerError ExecutionReport → Prop where
  | stopped (works : course.Works (stopState request) row) (rests : course.Rests)
      (asked : course.request = some request) : Results id course (.ok ⟨.stateChanged row.id previous (stopState request), false⟩)
  | failed {failure : DownloadFailure} (works : course.Works .failed row)
      (rests : course.Rests) (unasked : course.request = none) (because : row.lastFailure = some failure) :
      Results id course (.ok ⟨.failed id failure, false⟩)
  | completed (works : course.Works .completed row) (rests : course.Rests)
      (published : course.Published staged output)
      (placed : row.resolvedDestination = some output.destination) :
      Results id course (.ok ⟨.completed id output.destination, output.cleanupPending⟩)
  | fault (faults : Faults id course error) : Results id course (.error error)

end

variable {request : DownloadControlRequest}

theorem stopState_ne {state : DownloadState} (paused : state ≠ .paused)
    (cancelled : state ≠ .cancelled) : stopState request ≠ state := by
  cases request
  · exact paused.symm
  · exact cancelled.symm

/-! ## The program -/

section Parts

variable {σ ε α : Type} {S : Spec ManagerOp ManagerOp.Answer σ} {id : DownloadId}
variable {I : Course → σ → Prop} {course : Course} {s : σ} {job : DownloadJob}

/-- The invariant where nothing was lost or refused. -/
structure At (I : Course → σ → Prop) (course : Course) (s : σ) : Prop where
  held : I course s
  goes : course.Open

/-- An execution walked to a course that explains its result. -/
def Walked (I : Course → σ → Prop) (id : DownloadId)
    (result : Except DownloadManagerError ExecutionReport) (s : σ) : Prop :=
  ∃ course, I course s ∧ Results id course result

variable {run : TransferRun}

theorem Course.Transferred.seen {prepared : PreparedTransfer} {shown : Option DownloadJob}
    {request : Option DownloadControlRequest} {checked : Bool}
    (transferred : course.Transferred job prepared run) :
    { course with shown := shown, request := request, checked := checked }.Transferred job prepared
      run :=
  ⟨transferred.works, transferred.given, transferred.ran, transferred.unpublished,
    transferred.unrefused, transferred.told⟩

theorem Course.Open.answered {op : ManagerOp} (goes : course.Open) (answer : op.Answer)
    (other : ∀ key, op ≠ .job key) : (course.answered op answer).Open := by
  cases op with
  | job key => exact absurd rfl (other key)
  | onProgress event row => cases event <;> exact goes
  | _ => exact goes

variable (walks : Walks S id I)
include walks

theorem Walks.then_ask (op : ManagerOp) {f : op.Answer → Managed ε α}
    {Q : Except ε α → σ → Prop} (at_ : At I course s) (asks : course.Asks id op)
    (other : ∀ key, op ≠ .job key)
    (after : ∀ answer t, At I (course.answered op answer) t → wp S (f answer) Q t) :
    wp S (perform op >>= f) Q s := by
  rw [wp_bind]
  obtain ⟨required, kept⟩ := walks.ask at_.held at_.goes asks
  exact ⟨required, fun answer t ensured =>
    after answer t ⟨kept answer t ensured, at_.goes.answered answer other⟩⟩

section

variable (at_ : At I course s)
include at_

/-- The map is read again, and shows the job or not. -/
theorem Walks.then_job {key : DownloadId} {error : ε} {f : DownloadJob → Managed ε α}
    {Q : Except ε α → σ → Prop} (worked : course.job = some job)
    (named : key = id ∨ key = job.id)
    (lost : ∀ t, I { course with shown := none } t → Q (.error error) t)
    (found : ∀ current t, At I { course with shown := some current } t →
      wp S (f current) Q t) :
    wp S (do
      let current ← perform (.job key)
      let current ← okOr error current
      f current) Q s := by
  rw [wp_bind]
  obtain ⟨required, kept⟩ := walks.ask at_.held at_.goes
    (show course.Asks id (.job key) from ⟨job, worked, named⟩)
  refine ⟨required, fun answer t ensured => ?_⟩
  have held := kept answer t ensured
  change wp S (okOr error answer >>= f) Q t
  rw [wp_bind, wp_okOr]
  constructor
  · rintro rfl
    exact lost t held
  · rintro current rfl
    exact found current t ⟨held, at_.goes.1, nofun⟩

theorem Walks.commit_course {candidate : DownloadJob}
    {Q : Except RepositoryError DownloadJob → σ → Prop} (commits : Commits course candidate)
    (refused : ∀ error t, I (course.refusing candidate) t → Q (.error error) t)
    (saved : ∀ persisted t, Stamped candidate persisted → At I (course.saved persisted) t →
      Q (.ok persisted) t) : wp S (commitJob candidate) Q s := by
  refine wp_mono (walks.commit at_.held at_.goes commits) ?_
  rintro (error | persisted) t kept
  · exact refused error t kept
  · exact saved persisted t kept.1 ⟨kept.2, at_.goes.1, nofun⟩

variable {f : DownloadJob → Managed DownloadManagerError α}

theorem Walks.then_commit {candidate : DownloadJob} {Q : Except DownloadManagerError α → σ → Prop}
    (commits : Commits course candidate)
    (refused : ∀ error t, I (course.refusing candidate) t → Q (.error (.repository error)) t)
    (saved : ∀ persisted t, Stamped candidate persisted → At I (course.saved persisted) t →
      wp S (f persisted) Q t) :
    wp S (repositoryFailure (commitJob candidate) >>= f) Q s := by
  rw [wp_bind, wp_repositoryFailure]
  exact walks.commit_course at_ commits refused saved

theorem Walks.then_now {f : OffsetDateTime → Managed ε α} {Q : Except ε α → σ → Prop} (after : ∀ now t, At I course t → wp S (f now) Q t) :
    wp S (perform .nowUtc >>= f) Q s :=
  walks.then_ask .nowUtc at_ trivial nofun after

theorem Walks.then_transition {next : DownloadState}
    {Q : Except DownloadManagerError α → σ → Prop}
    (allowed : job.state.canTransitionTo next = true) (after : ∀ now t, At I course t →
      wp S (f { job with state := next, updatedAt := now }) Q t) :
    wp S (repositoryFailure (executionTransition job next) >>= f) Q s := by
  rw [wp_bind, wp_repositoryFailure, wp_executionTransition]
  obtain ⟨required, kept⟩ := walks.ask at_.held at_.goes
    (show course.Asks id .nowUtc from trivial)
  refine ⟨required, fun now t ensured => ?_⟩
  rw [allowed]
  exact ⟨nofun, fun _ => after now t ⟨kept now t ensured, at_.goes⟩⟩

end

omit walks in
theorem then_repository {computed : Except RepositoryError α} {β : Type}
    {f : α → Managed DownloadManagerError β} {Q : Except DownloadManagerError β → σ → Prop}
    (failed : ∀ error, computed = .error error → Q (.error (.repository error)) s)
    (after : ∀ value, computed = .ok value → wp S (f value) Q s) :
    wp S (repositoryFailure (ExceptT.mk (pure computed)) >>= f) Q s := by
  rw [wp_bind, wp_repositoryResult]
  exact ⟨failed, after⟩

/-! ### Stops and failures -/

omit walks in
theorem Stops.shown {base : DownloadJob} {found : Option DownloadJob} (stops : Stops course base) :
    Stops { course with shown := found } base := by
  cases stops with
  | queued works unprepared => exact .queued works unprepared
  | dropped works dropped => exact .dropped works dropped
  | inspected inspected =>
    exact .inspected ⟨inspected.works, inspected.given, inspected.idle, inspected.started⟩
  | transferred transferred counted =>
    exact .transferred transferred.seen counted

section

variable (at_ : At I course s)
include at_

/-- A stop row saved and reported: the last part of `record_execution_stop`. -/
theorem commitStop_course {base current : DownloadJob} {key : DownloadId}
    {previous : DownloadState} {now : OffsetDateTime} (stops : Stops course base)
    (named : base.id = key) (shown : course.shown = some current)
    (asked : course.request = some request) :
    wp S (do
        let persisted ← repositoryFailure
          (commitJob { base with state := stopState request, updatedAt := now })
        if persisted.progress ≠ current.progress then
          perform (.onProgress (.progressChanged key persisted.progress) persisted)
        pure ⟨.stateChanged key previous (stopState request), false⟩)
      (Walked I id) s := by
  apply walks.then_commit at_ (.stop stops shown asked)
  · intro error t held
    exact ⟨_, held, .fault (.refused rfl)⟩
  intro persisted t stamped at_
  have works : (course.saved persisted).Works (stopState request) persisted := by
    refine ⟨rfl, ?_⟩
    rw [stamped]
  have key_eq : persisted.id = key := by
    rw [stamped]
    exact named
  subst key_eq
  split
  · rename_i changed
    apply walks.then_ask (.onProgress _ _) at_
    · have moved : stopState request ≠ .finalizing := by cases request <;> nofun
      exact .progress works (.inr ⟨moved, rfl⟩) (.inr ⟨⟨request, asked, rfl⟩, shown⟩) changed rfl
    · nofun
    · intro answer u at_
      exact ⟨_, at_.held, .stopped works ⟨rfl, at_.goes.1⟩ asked⟩
  · exact ⟨_, at_.held, .stopped works ⟨rfl, at_.goes.1⟩ asked⟩

theorem recordExecutionStop_course {worked : DownloadJob} {written : Option Nat}
    {estimated rewind : Bool} (works : course.job = some worked) (named : worked.id = job.id)
    (asked : course.request = some request)
    (stoppable : job.state.canTransitionTo (stopState request) = true)
    (unwritten : written = none → Stops course job)
    (counted : ∀ bytes ∈ written, ∃ prepared run, course.Transferred job prepared run ∧
      Counting job prepared run run.reportedBytes ∧
      StoppedProgress prepared run job (stoppedExecutionProgress job bytes estimated rewind)) :
    wp S (recordExecutionStop job written request estimated rewind) (Walked I id)
      s := by
  unfold recordExecutionStop
  apply walks.then_job at_ works (.inr named.symm)
  · intro t held
    exact ⟨_, held, .fault (.missing rfl)⟩
  intro current t at_
  have recorded : ∀ base u, At I { course with shown := some current } u → base.id = job.id →
      base.state = job.state → Stops course base →
      wp S (do
        let stopped ← repositoryFailure (executionTransition base (stopState request))
        let persisted ← repositoryFailure (commitJob stopped)
        if persisted.progress ≠ current.progress then
          perform (.onProgress (.progressChanged job.id persisted.progress) persisted)
        pure ⟨.stateChanged job.id job.state (stopState request), false⟩)
      (Walked I id) u := by
    intro base u at_ key state stops
    apply walks.then_transition at_
    · rw [state]
      exact stoppable
    · intro now v at_
      exact commitStop_course walks at_ stops.shown key rfl asked
  cases written with
  | none => exact recorded job t at_ rfl rfl (unwritten rfl)
  | some bytes =>
    obtain ⟨prepared, run, transferred, counting, stopped⟩ := counted bytes rfl
    unfold withStoppedProgress
    simp only [bind_assoc]
    apply then_repository
    · intro error failed
      rw [failed] at stopped
      exact ⟨_, at_.held, .fault (.misstopped transferred.seen counting stopped)⟩
    · intro progress computed
      rw [computed] at stopped
      apply walks.then_now at_
      intro now u at_
      exact recorded _ u at_ rfl rfl (.transferred transferred stopped)

theorem recordExecutionFailure_course {failure : DownloadFailure} {worked : DownloadJob} (works : course.job = some worked) (unasked : course.request = none)
    (failing : Failing course failure) :
    wp S (recordExecutionFailure id failure) (Walked I id) s := by
  unfold recordExecutionFailure
  apply walks.then_job at_ works (.inl rfl)
  · intro t held
    exact ⟨_, held, .fault (.missing rfl)⟩
  intro job t at_
  have failing : Failing { course with shown := some job } failure := by
    cases failing with
    | prepare works failed => exact .prepare works failed
    | transfer works ran failed => exact .transfer works ran failed
    | publish works failed => exact .publish works failed
  apply walks.then_now at_
  intro now u at_
  rw [wp_bind, wp_repositoryFailure, wp_orElse]
  constructor
  · intro error refused
    refine ⟨_, at_.held, .fault (.unfailing failing unasked rfl ?_)⟩
    unfold DownloadJob.fail at refused
    split at refused
    · cases refused
    · exact Bool.not_eq_true _ ▸ ‹¬ _›
  · intro failed ok
    obtain ⟨allowed, rfl⟩ := DownloadJob.fail_ok ok
    change wp S (repositoryFailure (commitJob _) >>= _) _ u
    apply walks.then_commit at_ (.failed failing unasked rfl allowed)
    · intro error v held
      exact ⟨_, held, .fault (.refused rfl)⟩
    · intro persisted v stamped at_
      have state : persisted.state = .failed := by rw [stamped]
      have because : persisted.lastFailure = some failure := by rw [stamped]
      exact ⟨_, at_.held, .failed ⟨rfl, state⟩ ⟨rfl, at_.goes.1⟩ unasked because⟩

/-! ### Publication -/

theorem publishStaged_course {staged : StagedTransfer} (works : course.Works .finalizing job)
    (unasked : course.request = none) (unpublished : course.output = none)
    (ran : course.run = some run) (finished : run.result = .ok (.finished staged)) :
    wp S (publishStaged id staged) (Walked I id) s := by
  unfold publishStaged
  apply walks.then_ask (.finalize staged) at_
    ⟨unpublished, unasked, job, run, works, ran, finished⟩ nofun
  intro answer t at_
  cases answer with
  | error failure =>
    exact recordExecutionFailure_course walks at_ works.1 unasked (.publish works rfl)
  | ok output =>
    have published : (course.answered (.finalize staged) (.ok output)).Published staged output :=
      ⟨unasked, ⟨run, ran, finished⟩, rfl⟩
    dsimp only
    split
    · exact ⟨_, at_.held, .fault (.inconsistent published works ‹_›)⟩
    have equal : output.writtenBytes = staged.writtenBytes := not_not.mp ‹_›
    rw [wp_bind, Fallible.wp_adapt]
    unfold confirmPublishedOutput
    apply walks.then_job at_ works.1 (.inl rfl)
    · intro u held
      exact ⟨_, held, .fault (.unconfirmed ⟨unasked, ⟨run, ran, finished⟩, rfl⟩ works equal
        (.inl rfl))⟩
    intro current u at_
    have published : { course.answered (.finalize staged) (.ok output) with
        shown := some current }.Published staged output := ⟨unasked, ⟨run, ran, finished⟩, rfl⟩
    split
    · exact ⟨_, at_.held, .fault (.unconfirmed published works equal
        (.inr (.inr ⟨current, rfl, ‹_›⟩)))⟩
    obtain ⟨finalizing, counted⟩ := not_or.mp ‹_›
    apply walks.then_now at_
    intro now v at_
    rw [wp_bind, wp_orElse]
    have completes : (current.resolveDestination output.destination now).state.canTransitionTo
        .completed = true := by
      rw [DownloadJob.resolveDestination_state, not_not.mp finalizing]
      rfl
    unfold DownloadJob.transitionTo
    rw [if_pos completes]
    refine ⟨nofun, ?_⟩
    rintro _ ⟨⟩
    change wp S (commitJob _ >>= _) _ v
    rw [wp_bind]
    apply walks.commit_course at_
      (.completed published works equal rfl (not_not.mp finalizing) (not_not.mp counted))
    · intro error w held
      exact ⟨_, held, .fault (.unconfirmed ⟨unasked, ⟨run, ran, finished⟩, rfl⟩ works equal
        (.inr (.inl nofun)))⟩
    · intro persisted w stamped at_
      have state : persisted.state = .completed := by rw [stamped]
      have placed : persisted.resolvedDestination = some output.destination := by
        rw [stamped]
        rfl
      exact ⟨_, at_.held, .completed ⟨rfl, state⟩ ⟨rfl, at_.goes.1⟩
        ⟨unasked, ⟨run, ran, finished⟩, rfl⟩ placed⟩

theorem finishTransfer_course {prepared : PreparedTransfer} {staged : StagedTransfer}
    (transferred : course.Transferred job prepared run) (unasked : course.request = none)
    (counting : Counting job prepared run run.reportedBytes)
    (reached : job.progress.downloadedBytes ≤ run.reportedBytes)
    (ended : run.result = .ok (.finished staged)) :
    wp S (finishTransfer id job prepared staged run.reportedBytes) (Walked I id) s := by
  have works := transferred.works
  have misfinished : ∀ invalid {error : RepositoryError},
      staged.writtenBytes < run.reportedBytes ∨
        finishedProgress job prepared staged.writtenBytes = .error invalid ∨
        (prepared.totalBytesIsEstimated = false ∧
          prepared.totalBytes.any (· ≠ staged.writtenBytes) = true) →
      Walked I id (.error (.repository error)) s := fun _ _ failed =>
    ⟨course, at_.held, .fault (.misfinished transferred unasked counting ended failed)⟩
  unfold finishTransfer
  dsimp only
  split
  · exact misfinished (invalidRepositoryData "") (.inl ‹_›)
  have covers := Nat.le_trans reached (Nat.le_of_not_lt ‹_›)
  apply then_repository
  · intro error failed
    exact misfinished _ (.inr (.inl failed))
  intro progress computed
  split
  · rename_i incomplete
    refine misfinished (invalidRepositoryData "") (.inr (.inr ⟨?_, incomplete.2⟩))
    simpa using incomplete.1
  apply walks.then_ask .requestKind at_ unasked nofun
  intro request t at_
  cases request with
  | some request =>
    apply recordExecutionStop_course walks at_ works.1 rfl rfl
    · rw [works.2]
      cases request <;> rfl
    · nofun
    · rintro bytes ⟨⟩
      exact ⟨prepared, run, transferred.seen, counting, .finished ended⟩
  | none =>
    apply walks.then_now at_
    intro now u at_
    apply walks.then_transition at_
    · rw [DownloadJob.updateProgress_state, works.2]
      rfl
    intro later v at_
    have transferred : (course.answered .requestKind none).Transferred job prepared run :=
      transferred.seen
    apply walks.then_commit at_ (.finalizing transferred rfl ended covers computed)
    · intro error w held
      exact ⟨_, held, .fault (.refused rfl)⟩
    intro persisted w stamped at_
    have works : ∀ told, ({ (course.answered .requestKind none).saved persisted with
        told := told }).Works .finalizing persisted := by
      intro told
      refine ⟨rfl, ?_⟩
      rw [stamped]
    apply walks.then_ask (.onProgress _ _) at_ (.finalizing (works false)) nofun
    intro _ x at_
    have published : ∀ {told y}, At I { (course.answered .requestKind none).saved persisted with
        told := told } y → wp S (publishStaged id staged) (Walked I id) y :=
      fun at_ => publishStaged_course walks at_ (works _) rfl transferred.unpublished
        transferred.ran ended
    split
    · rename_i changed
      apply walks.then_ask (.onProgress _ _) at_
      · refine .progress (works false) (.inl ⟨rfl, rfl⟩) (.inl ⟨.inr rfl, transferred.works.1⟩) ?_
          rfl
        rw [stamped]
        exact of_decide_eq_true changed
      · nofun
      · exact fun _ y at_ => published at_
    · exact published at_

end

/-! ### Checkpoints -/

omit walks in
theorem executionProgress_counts {bytes : Nat} {estimated : Bool} {progress : DownloadProgress}
    (h : executionProgress job bytes estimated = .ok progress) :
    progress.downloadedBytes = bytes := by
  unfold executionProgress at h
  split at h
  · cases h
  · exact (DownloadProgress.new_ok (mapError_ok h)).1

omit walks in
theorem executionProgress_le {bytes : Nat} {estimated : Bool} {progress : DownloadProgress}
    (h : executionProgress job bytes estimated = .ok progress) :
    job.progress.downloadedBytes ≤ bytes := by
  unfold executionProgress at h
  split at h
  · cases h
  · exact Nat.le_of_not_lt ‹_›

/-- Where a checkpoint leaves a transfer that goes on, or the fault that ends it. -/
def Checkpointed (I : Course → σ → Prop) (id : DownloadId) (prepared : PreparedTransfer)
    (run : TransferRun) (earlier : List Nat) (result : Except RepositoryError DownloadJob) (s : σ) :
    Prop :=
  match result with
  | .ok job => ∃ course, At I course s ∧ course.Transferred job prepared run ∧
      course.request = none ∧ job.progress.downloadedBytes ∈ prepared.startingBytes :: earlier
  | .error error => ∃ course, I course s ∧ Faults id course (.repository error)

section

variable (at_ : At I course s)
include at_

section

variable {prepared : PreparedTransfer} {run : TransferRun} {earlier : List Nat}
  (transferred : course.Transferred job prepared run) (unasked : course.request = none)
  (counted : job.progress.downloadedBytes ∈ prepared.startingBytes :: earlier)
include transferred unasked counted

theorem checkpointProgress_course {bytes : Nat}
    (ahead : (earlier ++ [bytes]) <+: (run.ticks ++ [run.reportedBytes])) :
    wp S (checkpointProgress job bytes prepared.totalBytesIsEstimated)
      (Checkpointed I id prepared run (earlier ++ [bytes])) s := by
  have counting : Counting job prepared run bytes := ⟨earlier, ahead, counted⟩
  unfold checkpointProgress
  rw [wp_bind, Fallible.wp_result]
  cases computed : executionProgress job bytes prepared.totalBytesIsEstimated with
  | error error => exact ⟨course, at_.held, .miscounted transferred unasked counting computed⟩
  | ok progress =>
    rw [andThen_ok]
    split
    · refine ⟨course, at_, transferred, unasked, ?_⟩
      rw [← List.cons_append]
      exact List.mem_append_left _ counted
    rename_i changed
    apply walks.then_now at_
    intro now t at_
    rw [wp_bind]
    apply walks.commit_course at_ (.checkpoint transferred unasked counting computed changed)
    · intro error u held
      exact ⟨_, held, .refused rfl⟩
    intro persisted u stamped at_
    rw [andThen_ok]
    have works : (course.saved persisted).Works .downloading persisted := by
      refine ⟨rfl, ?_⟩
      rw [stamped]
      exact transferred.works.2
    have moved : persisted.progress = progress := by
      rw [stamped]
      rfl
    apply walks.then_ask (.onProgress _ _) at_
    · refine .progress works (.inr ⟨nofun, rfl⟩) (.inl ⟨.inl rfl, transferred.works.1⟩) ?_ rfl
      rw [moved]
      exact changed
    · nofun
    intro _ v at_
    refine ⟨_, at_, ⟨works, transferred.given, transferred.ran, transferred.unpublished,
      at_.goes.1, .inl rfl⟩,
      unasked, ?_⟩
    rw [moved, executionProgress_counts computed]
    simp

/-- Induction over the ticks that are left. -/
theorem checkpointTicks_course {ticks : List Nat} (ahead : earlier ++ ticks = run.ticks) :
    wp S (checkpointTicks prepared.totalBytesIsEstimated job ticks)
      (Checkpointed I id prepared run run.ticks) s := by
  induction ticks generalizing job course s earlier with
  | nil =>
    rw [List.append_nil] at ahead
    rw [← ahead]
    exact ⟨course, at_, transferred, unasked, counted⟩
  | cons tick ticks ih =>
    unfold checkpointTicks
    rw [wp_bind]
    have next : (earlier ++ [tick]) <+: (run.ticks ++ [run.reportedBytes]) := by
      rw [← ahead]
      exact ⟨ticks ++ [run.reportedBytes], by simp⟩
    refine wp_mono
      (checkpointProgress_course walks at_ transferred unasked counted next) ?_
    rintro (error | updated) t checkpointed
    · exact checkpointed
    · obtain ⟨course, at_, transferred, unasked, counted⟩ := checkpointed
      apply ih at_ transferred unasked counted
      rw [List.append_assoc]
      exact ahead

end

/-! ### The executor -/

theorem transferPrepared_course {prepared : PreparedTransfer}
    (works : course.Works .downloading job)
    (given : course.preparation = some (some (.ok prepared))) (idle : course.run = none)
    (unasked : course.request = none) (unpublished : course.output = none)
    (told : ∃ last, course.replaced = some last ∧ last.state = .inspecting)
    (started : job.progress.downloadedBytes = prepared.startingBytes) :
    wp S (transferPrepared id job prepared) (Walked I id) s := by
  unfold transferPrepared
  apply walks.then_ask (.transferControlled _) at_
    ⟨idle, unasked, job, prepared, works, given, rfl⟩ nofun
  intro run t at_
  rw [wp_bind, wp_repositoryFailure]
  have counted : job.progress.downloadedBytes ∈ prepared.startingBytes :: [] := by simp [started]
  refine wp_mono (checkpointTicks_course walks at_
    ⟨works, given, rfl, unpublished, at_.goes.1, .inr told⟩ unasked counted (List.nil_append _)) ?_
  rintro (error | job) u checkpointed
  · obtain ⟨course, held, faults⟩ := checkpointed
    exact ⟨course, held, .fault faults⟩
  obtain ⟨course, at_, transferred, unasked, counted⟩ := checkpointed
  have counting : Counting job prepared run run.reportedBytes :=
    ⟨run.ticks, List.prefix_refl _, counted⟩
  change wp S _ _ u
  apply then_repository
  · intro error failed
    exact ⟨course, at_.held, .fault (.miscounted transferred unasked counting failed)⟩
  intro _ computed
  have reached := executionProgress_le computed
  cases ended : run.result with
  | error failure =>
    rw [wp_bind, wp_repositoryFailure]
    refine wp_mono (checkpointProgress_course walks at_ transferred unasked counted
      (List.prefix_refl _)) ?_
    rintro (error | updated) v checkpointed
    · obtain ⟨course, held, faults⟩ := checkpointed
      exact ⟨course, held, .fault faults⟩
    · obtain ⟨course, at_, transferred, unasked, _⟩ := checkpointed
      exact recordExecutionFailure_course walks at_ transferred.works.1 unasked
        (.transfer transferred.works transferred.ran ended)
  | ok outcome =>
    cases outcome with
    | finished staged =>
      exact finishTransfer_course walks at_ transferred unasked counting reached ended
    | stopped bytes =>
      apply walks.then_ask .requestKind at_ unasked nofun
      intro request v at_
      have transferred : (course.answered .requestKind request).Transferred job prepared run :=
        transferred.seen
      rw [wp_bind, wp_okOr]
      constructor
      · rintro rfl
        exact ⟨_, at_.held, .fault (.unrequested transferred.ran ended rfl rfl)⟩
      rintro request rfl
      rw [andThen_ok]
      split
      · rename_i below
        have fixed : prepared.stoppedProgressMayRewind = false := by simpa using below.2
        exact ⟨_, at_.held, .fault (.rewound transferred ended below.1 fixed)⟩
      rename_i kept
      apply recordExecutionStop_course walks at_ transferred.works.1 rfl rfl
      · rw [transferred.works.2]
        cases request <;> rfl
      · nofun
      · rintro _ ⟨⟩
        refine ⟨prepared, run, transferred, counting, .stopped ended ?_⟩
        intro below
        simpa [below] using kept

theorem recordInspection_course {prepared : PreparedTransfer} (works : course.Works .inspecting job)
    (given : course.preparation = some (some (.ok prepared))) (idle : course.run = none)
    (unasked : course.request = none) (unpublished : course.output = none) :
    wp S (recordInspection id job prepared) (Walked I id) s := by
  unfold recordInspection
  apply walks.then_ask (.setPauseSupported _) at_ trivial nofun
  intro _ t at_
  rw [wp_bind, wp_orElse]
  refine ⟨fun _ failed => ⟨_, at_.held, .fault (.beyond given unasked failed)⟩, ?_⟩
  intro progress started
  rw [andThen_ok]
  apply walks.then_now at_
  intro now u at_
  apply walks.then_ask .requestKind at_ unasked nofun
  intro request v at_
  have inspected : (course.answered .requestKind request).Inspected job prepared progress :=
    ⟨works, given, idle, started⟩
  cases request with
  | some request =>
    have stoppable : (job.inspected prepared progress now).state.canTransitionTo
        (stopState request) = true := by
      change job.state.canTransitionTo _ = true
      rw [works.2]
      cases request <;> rfl
    exact recordExecutionStop_course walks at_ works.1 rfl rfl stoppable
      (fun _ => .inspected inspected) nofun
  | none =>
    apply walks.then_transition at_
    · change job.state.canTransitionTo _ = true
      rw [works.2]
      rfl
    intro later w at_
    apply walks.then_commit at_ (.downloading inspected rfl)
    · intro error x held
      exact ⟨_, held, .fault (.refused rfl)⟩
    intro persisted x stamped at_
    have works : ((course.answered .requestKind none).saved persisted).Works .downloading
        persisted := by
      refine ⟨rfl, ?_⟩
      rw [stamped]
    apply walks.then_ask (.onProgress _ _) at_ (.downloading works) nofun
    intro _ y at_
    apply transferPrepared_course walks at_ works given idle rfl unpublished
      ⟨job, inspected.works.1, inspected.works.2⟩
    rw [stamped]
    exact (DownloadProgress.new_ok started).1

theorem inspect_course (works : course.Works .inspecting job)
    (unprepared : course.preparation = none) (saved : course.persisted = true)
    (idle : course.run = none) (unasked : course.request = none)
    (unpublished : course.output = none) :
    wp S (inspect id job) (Walked I id) s := by
  unfold inspect
  apply walks.then_ask (.prepare _) at_ ⟨unprepared, saved, job, works, rfl⟩ nofun
  intro preparation t at_
  cases preparation with
  | none =>
    apply walks.then_ask .requestKind at_ unasked nofun
    intro request u at_
    rw [wp_bind, wp_okOr]
    constructor
    · rintro rfl
      exact ⟨_, at_.held, .fault (.dropped rfl rfl rfl)⟩
    rintro request rfl
    apply recordExecutionStop_course walks at_ works.1 rfl rfl
    · rw [works.2]
      cases request <;> rfl
    · exact fun _ => .dropped works rfl
    · nofun
  | some result =>
    cases result with
    | error failure =>
      exact recordExecutionFailure_course walks at_ works.1 unasked (.prepare works rfl)
    | ok prepared => exact recordInspection_course walks at_ works rfl idle unasked unpublished

end

/-- An execution keeps the invariant from its first look at the job, and ends as one ends. -/
theorem executeInner_walk (required : S.requires (.job id) s)
    (begins : ∀ found t, S.ensures (.job id) s found t → I (.start found) t) :
    wp S (executeInner id) (Walked I id) s := by
  unfold executeInner
  rw [wp_bind]
  refine ⟨required, fun found t ensured => ?_⟩
  have held := begins found t ensured
  change wp S (okOr _ found >>= _) _ t
  rw [wp_bind, wp_okOr]
  constructor
  · rintro rfl
    exact ⟨_, held, .fault (.missing rfl)⟩
  rintro job rfl
  rw [andThen_ok]
  have at_ : At I (.start (some job)) t := ⟨held, rfl, nofun⟩
  split
  · exact ⟨_, at_.held, .fault (.unqueued rfl rfl ‹_› rfl)⟩
  have works : (Course.start (some job)).Works .queued job :=
    ⟨rfl, not_not.mp ‹_›⟩
  apply walks.then_ask .requestKind at_ rfl nofun
  intro request u at_
  cases request with
  | some request =>
    apply recordExecutionStop_course walks at_ works.1 rfl rfl
    · rw [works.2]
      cases request <;> rfl
    · exact fun _ => .queued works rfl
    · nofun
  | none =>
    apply walks.then_transition at_
    · rw [works.2]
      rfl
    intro now v at_
    apply walks.then_commit at_ (.inspecting works rfl rfl)
    · intro error w held
      exact ⟨_, held, .fault (.refused rfl)⟩
    intro persisted w stamped at_
    apply inspect_course walks at_ ⟨rfl, ?_⟩ rfl rfl rfl rfl rfl
    rw [stamped]

end Parts

/-! ## Executions -/

/-- What every course of an execution is: each answer is asked for after the one it needs. -/
structure Course.Sensible (course : Course) : Prop where
  prepared : course.preparation ≠ none → course.persisted = true
  ran : course.run ≠ none → ∃ prepared, course.preparation = some (some (.ok prepared))
  published : course.output ≠ none → course.run ≠ none
  begun : course.persisted = true → ∀ job, course.job = some job → job.state ≠ .queued
  staged : ∀ job run staged, course.Works .finalizing job → course.run = some run →
    run.result = .ok (.finished staged) → job.progress.downloadedBytes = staged.writtenBytes

variable {course : Course}

theorem Course.Works.state_eq {job other : DownloadJob} {state later : DownloadState}
    (works : course.Works state job) (again : course.Works later other) : state = later := by
  cases Option.some.inj (works.1.symm.trans again.1)
  exact works.2.symm.trans again.2

theorem Course.Sensible.saved (sensible : course.Sensible) (ran : course.run ≠ none) :
    course.persisted = true := by
  obtain ⟨prepared, given⟩ := sensible.ran ran
  exact sensible.prepared (by simp [given])

theorem Course.Sensible.answered {id : DownloadId} {op : ManagerOp} (sensible : course.Sensible)
    (asks : course.Asks id op) (answer : op.Answer) :
    (course.answered op answer).Sensible := by
  cases op with
  | prepare input =>
    obtain ⟨unprepared, persisted, _⟩ := asks
    refine ⟨fun _ => persisted, fun ran => ?_, sensible.published, sensible.begun, sensible.staged⟩
    obtain ⟨_, given⟩ := sensible.ran ran
    exact nomatch unprepared.symm.trans given
  | transferControlled startingBytes =>
    obtain ⟨_, _, _, _, works, given, _⟩ := asks
    exact ⟨sensible.prepared, fun _ => ⟨_, given⟩, fun _ => nofun, sensible.begun,
      fun _ _ _ again => nomatch works.state_eq again⟩
  | finalize staged =>
    obtain ⟨_, _, _, _, _, ran, _⟩ := asks
    exact ⟨sensible.prepared, sensible.ran, fun _ => by simp [Course.answered, ran],
      sensible.begun, sensible.staged⟩
  | onProgress event row => cases event <;> exact { sensible with }
  | lockWrites | unlockWrites | save | insert => exact asks.elim
  | job | nowUtc | requestKind | setPauseSupported => exact { sensible with }

variable {candidate : DownloadJob}

/-- No committed row is queued. -/
theorem Commits.unqueued (commits : Commits course candidate) :
    candidate.state ≠ .queued := by
  cases commits with
  | stop => exact stopState_ne nofun nofun
  | checkpoint transferred =>
    rw [DownloadJob.updateProgress_state, transferred.works.2]
    nofun
  | _ => nofun

theorem Course.Sensible.persisted {persisted : DownloadJob} (sensible : course.Sensible)
    (commits : Commits course candidate) (stamped : Stamped candidate persisted) :
    (course.saved persisted).Sensible where
  prepared _ := rfl
  ran := sensible.ran
  published := sensible.published
  begun _ job worked := by
    cases worked
    rw [stamped]
    exact commits.unqueued
  staged job run staged works ran ended := by
    obtain ⟨⟨⟩, finalizing⟩ := works
    rw [stamped] at finalizing ⊢
    cases commits with
    | finalizing transferred _ finished _ counted =>
      cases Option.some.inj (transferred.ran.symm.trans ran)
      cases finished.symm.trans ended
      exact finishedProgress_counts counted
    | stop => exact absurd finalizing (stopState_ne nofun nofun)
    | checkpoint transferred => exact nomatch transferred.works.2.symm.trans finalizing
    | _ => cases finalizing

/-- A committed row is a version of the job worked on, or of the one the map shows. -/
theorem Commits.named (commits : Commits course candidate) :
    ∃ job, (course.job = some job ∨ course.shown = some job) ∧ candidate.id = job.id := by
  cases commits with
  | inspecting works => exact ⟨_, .inl works.1, rfl⟩
  | downloading inspected => exact ⟨_, .inl inspected.works.1, rfl⟩
  | checkpoint transferred => exact ⟨_, .inl transferred.works.1, rfl⟩
  | finalizing transferred => exact ⟨_, .inl transferred.works.1, rfl⟩
  | failed _ _ found => exact ⟨_, .inr found, rfl⟩
  | completed _ _ _ found => exact ⟨_, .inr found, rfl⟩
  | stop stops =>
    cases stops with
    | queued works => exact ⟨_, .inl works.1, rfl⟩
    | dropped works => exact ⟨_, .inl works.1, rfl⟩
    | inspected inspected => exact ⟨_, .inl inspected.works.1, rfl⟩
    | transferred transferred => exact ⟨_, .inl transferred.works.1, rfl⟩

theorem Commits.job (commits : Commits course candidate) (shown : course.shown = course.job) :
    ∃ job, course.job = some job ∧ candidate.id = job.id := by
  obtain ⟨job, worked | found, same⟩ := commits.named
  · exact ⟨job, worked, same⟩
  · exact ⟨job, shown.symm.trans found, same⟩

/-- Surroundings in which every step of an execution keeps an invariant. -/
structure Handles {σ : Type} (S : Spec ManagerOp ManagerOp.Answer σ) (id : DownloadId)
    (I : Course → σ → Prop) : Prop where
  ask : ∀ {course op s}, I course s → course.Sensible → course.Open → course.Asks id op →
    S.requires op s ∧ ∀ answer t, S.ensures op s answer t → I (course.answered op answer) t
  commit : ∀ {course candidate s}, I course s → course.Sensible → course.Open →
    Commits course candidate → Fallible.wp S (commitJob candidate) (fun result t => match result with
      | .ok persisted => Stamped candidate persisted ∧ I (course.saved persisted) t
      | .error _ => I (course.refusing candidate) t) s

/-- An execution ended in a course that explains its result. -/
def Concluded {σ : Type} (I : Course → σ → Prop) (id : DownloadId)
    (result : Except DownloadManagerError ExecutionReport) (s : σ) : Prop :=
  ∃ course, I course s ∧ course.Sensible ∧ Results id course result

/-- Every execution runs a course from its first look at the job, and ends as one ends. -/
theorem executeInner_course {σ : Type} {S : Spec ManagerOp ManagerOp.Answer σ} {id : DownloadId}
    {I : Course → σ → Prop} {s : σ} (handles : Handles S id I) (required : S.requires (.job id) s)
    (begins : ∀ found t, S.ensures (.job id) s found t → I (.start found) t) :
    wp S (executeInner id) (Concluded I id) s := by
  have walks : Walks S id fun course s => I course s ∧ course.Sensible := by
    refine ⟨?_, ?_⟩
    · rintro course op s ⟨held, sensible⟩ goes asks
      obtain ⟨required, kept⟩ := handles.ask held sensible goes asks
      exact ⟨required, fun answer t ensured =>
        ⟨kept answer t ensured, sensible.answered asks answer⟩⟩
    · rintro course candidate s ⟨held, sensible⟩ goes commits
      refine wp_mono (handles.commit held sensible goes commits) ?_
      rintro (error | persisted) t kept
      · exact ⟨kept, { sensible with }⟩
      · exact ⟨kept.1, kept.2, sensible.persisted commits kept.1⟩
  refine wp_mono (executeInner_walk walks required fun found t ensured =>
    ⟨begins found t ensured, absurd rfl, absurd rfl, absurd rfl, nofun, by rintro _ _ _ _ ⟨⟩⟩) ?_
  rintro result t ⟨course, ⟨held, sensible⟩, results⟩
  exact ⟨course, held, sensible, results⟩

end Gunda.Core

import Gunda.Core.Download
import Gunda.Lib.Interleave

/-!
# The download manager

`gunda-core/src/application/manager.rs`: job control and execution as programs
over the operations they perform between await points. `respond` answers them:
the repository keeps the contract of its trait (an atomic save that changes only
the timestamp, and only of an existing row), the write lock excludes, and the
executor, the clock and the cancellation token answer anything. A transfer is
answered by the byte counts its checkpoint ticks will see and its outcome, so
every finite execution of the source's loop is one of these.
-/
namespace Gunda.Core

open Gunda.Lib

inductive DownloadCommandKind where
  | create | pause | resume | cancel | retry | restart | remove
  deriving DecidableEq, Repr

inductive DownloadControlRequest where
  | pause | cancel
  deriving DecidableEq, Repr

inductive RepositoryErrorKind where
  | unavailable | invalidData | constraintViolation | sensitiveDataUnsupported | internal
  | notFound
  deriving DecidableEq, Repr

structure RepositoryError where
  kind : RepositoryErrorKind
  message : String
  deriving DecidableEq, Repr

def invalidRepositoryData (message : String) : RepositoryError := ⟨.invalidData, message⟩

inductive DownloadManagerError where
  | notFound (id : DownloadId)
  | invalidOperation (id : DownloadId) (command : DownloadCommandKind) (state : DownloadState)
  | repository (error : RepositoryError)
  | invalidExecutionState (id : DownloadId) (state : DownloadState)
  | completionNotPersisted (id : DownloadId) (destination : ResolvedDestination)
      (writtenBytes : Nat) (cleanupPending : Bool) (error : RepositoryError)
  deriving DecidableEq

inductive DownloadEvent where
  | created (id : DownloadId)
  | stateChanged (id : DownloadId) (previous current : DownloadState)
  | progressChanged (id : DownloadId) (progress : DownloadProgress)
  | completed (id : DownloadId) (destination : ResolvedDestination)
  | failed (id : DownloadId) (failure : DownloadFailure)
  | removed (id : DownloadId)
  deriving DecidableEq

structure ExecutionReport where
  event : DownloadEvent
  cleanupPending : Bool
  deriving DecidableEq

structure ExecutionInput where
  id : DownloadId
  request : RequestContext
  destination : DownloadDestination
  progress : DownloadProgress
  resource : Option ResourceDescriptor
  resolvedDestination : Option ResolvedDestination
  deriving DecidableEq

/-- What an executor's prepared transfer answers. -/
structure PreparedTransfer where
  resource : ResourceDescriptor
  totalBytes : Option Nat
  totalBytesIsEstimated : Bool
  startingBytes : Nat
  supportsPause : Bool
  stoppedProgressMayRewind : Bool
  plannedDestination : ResolvedDestination
  deriving DecidableEq, Repr

structure StagedTransfer where
  writtenBytes : Nat
  deriving DecidableEq, Repr

inductive TransferOutcome where
  | finished (staged : StagedTransfer)
  | stopped (writtenBytes : Nat)
  deriving DecidableEq, Repr

/-- One controlled transfer: the count each checkpoint tick borrows, the last
reported count, and the outcome. -/
structure TransferRun where
  ticks : List Nat
  reportedBytes : Nat
  result : Except DownloadFailure TransferOutcome

structure ExecutionOutput where
  destination : ResolvedDestination
  writtenBytes : Nat
  cleanupPending : Bool
  deriving DecidableEq, Repr

/-- The operations between await points. -/
inductive ManagerOp where
  | job (id : DownloadId)
  | lockWrites
  | unlockWrites
  | save (candidate : DownloadJob)
  | insert (id : DownloadId) (job : DownloadJob)
  | nowUtc
  | requestKind
  | prepare (input : ExecutionInput)
  | setPauseSupported (supported : Bool)
  | transferControlled (startingBytes : Nat)
  | finalize (staged : StagedTransfer)
  | onProgress (event : DownloadEvent) (job : DownloadJob)

abbrev ManagerOp.Answer : ManagerOp → Type
  | .job _ => Option DownloadJob
  | .lockWrites | .unlockWrites | .insert _ _ | .setPauseSupported _ | .onProgress _ _ => Unit
  | .save _ => Except RepositoryError DownloadJob
  | .nowUtc => OffsetDateTime
  | .requestKind => Option DownloadControlRequest
  | .prepare _ => Option (Except DownloadFailure PreparedTransfer)
  | .transferControlled _ => TransferRun
  | .finalize _ => Except DownloadFailure ExecutionOutput

/-- Programs of the manager that fail with `ε`. -/
abbrev Managed (ε α : Type) : Type := Fallible ManagerOp ManagerOp.Answer ε α

def perform {ε : Type} (op : ManagerOp) : Managed ε op.Answer := Fallible.perform op

/-- The source's `?` from a repository error into a manager error. -/
def repositoryFailure {α : Type} (p : Managed RepositoryError α) : Managed DownloadManagerError α :=
  ExceptT.adapt .repository p

/-- `Option::ok_or`. -/
def okOr {ε α : Type} (error : ε) : Option α → Managed ε α
  | some value => pure value
  | none => throw error

/-- `Result::map_err` followed by `?`. -/
def orElse {ε ε' α : Type} (error : ε') : Except ε α → Managed ε' α
  | .ok value => pure value
  | .error _ => throw error

/-! ## Persistence -/

/-- Runs under the write lock; the guard is dropped on every way out. -/
def withWriteLock {ε α : Type} (p : Managed ε α) : Managed ε α :=
  ExceptT.mk do
    Program.perform ManagerOp.lockWrites
    let result ← p.run
    Program.perform ManagerOp.unlockWrites
    pure result

def saveJobLocked (candidate : DownloadJob) : Managed RepositoryError DownloadJob := do
  let persisted ← ExceptT.mk (Program.perform (ManagerOp.save candidate))
  let expected := { candidate.snapshot with updatedAt := persisted.snapshot.updatedAt }
  if persisted.snapshot ≠ expected then
    throw (invalidRepositoryData "repository returned an inconsistent updated download")
  perform (.insert candidate.id persisted)
  pure persisted

def commitJob (candidate : DownloadJob) : Managed RepositoryError DownloadJob :=
  withWriteLock (saveJobLocked candidate)

/-! ## Job control -/

/-- The state a job control command asks for, where it is accepted. -/
def idleTarget (command : DownloadCommandKind) (current : DownloadJob) : Option DownloadState :=
  match command, current.state with
  | .pause, .queued => some .paused
  | .resume, .paused | .resume, .interrupted => some .queued
  | .retry, .failed => if current.lastFailure.any (·.retryable) then some .queued else none
  | .restart, state => if state.canRestart then some .queued else none
  | .cancel, .queued | .cancel, .paused => some .cancelled
  | _, _ => none

def changeIdleState (id : DownloadId) (command : DownloadCommandKind) :
    Managed DownloadManagerError DownloadEvent :=
  withWriteLock do
    let current ← perform (.job id)
    let current ← okOr (.notFound id) current
    let previous := current.state
    let next ← okOr (.invalidOperation id command previous) (idleTarget command current)
    let updatedAt ← perform .nowUtc
    let candidate ← orElse (.invalidOperation id command previous)
      (if command = .restart then current.restart updatedAt
       else current.transitionTo next updatedAt)
    let _ ← repositoryFailure (saveJobLocked candidate)
    pure (.stateChanged id previous next)

def pause (id : DownloadId) : Managed DownloadManagerError DownloadEvent :=
  changeIdleState id .pause

def resume (id : DownloadId) : Managed DownloadManagerError DownloadEvent :=
  changeIdleState id .resume

def retry (id : DownloadId) : Managed DownloadManagerError DownloadEvent :=
  changeIdleState id .retry

def restart (id : DownloadId) : Managed DownloadManagerError DownloadEvent :=
  changeIdleState id .restart

def cancel (id : DownloadId) : Managed DownloadManagerError DownloadEvent :=
  changeIdleState id .cancel

/-! ## Progress of an execution -/

def executionTransition (job : DownloadJob) (next : DownloadState) :
    Managed RepositoryError DownloadJob := do
  let now ← perform .nowUtc
  orElse (invalidRepositoryData "execution requested an invalid lifecycle transition")
    (job.transitionTo next now)

def validatedExecutionProgress (job : DownloadJob) (writtenBytes : Nat) :
    Except RepositoryError DownloadProgress :=
  if writtenBytes < job.progress.downloadedBytes then
    .error (invalidRepositoryData "executor progress moved backwards")
  else
    (DownloadProgress.new writtenBytes job.progress.totalBytes).mapError fun _ =>
      invalidRepositoryData "executor returned invalid progress"

def executionProgress (job : DownloadJob) (writtenBytes : Nat) (totalIsEstimated : Bool) :
    Except RepositoryError DownloadProgress :=
  if writtenBytes < job.progress.downloadedBytes then
    .error (invalidRepositoryData "executor progress moved backwards")
  else
    let total :=
      if totalIsEstimated then some (max (job.progress.totalBytes.getD 0) writtenBytes)
      else job.progress.totalBytes
    (DownloadProgress.new writtenBytes total).mapError fun _ =>
      invalidRepositoryData "executor returned invalid progress"

def stoppedExecutionProgress (job : DownloadJob) (writtenBytes : Nat) (totalIsEstimated : Bool)
    (mayRewind : Bool) : Except RepositoryError DownloadProgress :=
  if !mayRewind then executionProgress job writtenBytes totalIsEstimated
  else
    let total :=
      if totalIsEstimated then job.progress.totalBytes.map (max · writtenBytes)
      else job.progress.totalBytes
    (DownloadProgress.new writtenBytes total).mapError fun _ =>
      invalidRepositoryData "executor returned invalid stopped progress"

/-- Persists changed progress; the answer replaces the caller's job. -/
def checkpointProgress (job : DownloadJob) (writtenBytes : Nat) (totalIsEstimated : Bool) :
    Managed RepositoryError DownloadJob := do
  let progress ← ExceptT.mk (pure (executionProgress job writtenBytes totalIsEstimated))
  if progress = job.progress then
    pure job
  else
    let now ← perform .nowUtc
    let persisted ← commitJob (job.updateProgress progress now)
    perform (.onProgress (.progressChanged persisted.id persisted.progress) persisted)
    pure persisted

/-- The checkpoints of one transfer, in the order of its ticks. -/
def checkpointTicks (totalIsEstimated : Bool) :
    DownloadJob → List Nat → Managed RepositoryError DownloadJob
  | job, [] => pure job
  | job, writtenBytes :: ticks => do
      let job ← checkpointProgress job writtenBytes totalIsEstimated
      checkpointTicks totalIsEstimated job ticks

/-! ## Execution -/

def stopState : DownloadControlRequest → DownloadState
  | .pause => .paused
  | .cancel => .cancelled

/-- The stopped job with the progress its transfer kept, where one ran. -/
def withStoppedProgress (job : DownloadJob) (writtenBytes : Option Nat)
    (totalIsEstimated writtenMayRewind : Bool) : Managed DownloadManagerError DownloadJob :=
  match writtenBytes with
  | some writtenBytes => do
      let progress ← repositoryFailure (ExceptT.mk (pure
        (stoppedExecutionProgress job writtenBytes totalIsEstimated writtenMayRewind)))
      let now ← perform .nowUtc
      pure (job.updateProgress progress now)
  | none => pure job

def recordExecutionStop (job : DownloadJob) (writtenBytes : Option Nat)
    (request : DownloadControlRequest) (totalIsEstimated writtenMayRewind : Bool) :
    Managed DownloadManagerError ExecutionReport := do
  let id := job.id
  let previous := job.state
  let current ← perform (.job id)
  let current ← okOr (.notFound id) current
  let persistedProgress := current.progress
  let job ← withStoppedProgress job writtenBytes totalIsEstimated writtenMayRewind
  let state := stopState request
  let job ← repositoryFailure (executionTransition job state)
  let persisted ← repositoryFailure (commitJob job)
  if persisted.progress ≠ persistedProgress then
    perform (.onProgress (.progressChanged id persisted.progress) persisted)
  pure ⟨.stateChanged id previous state, false⟩

def recordExecutionFailure (id : DownloadId) (failure : DownloadFailure) :
    Managed DownloadManagerError ExecutionReport := do
  let job ← perform (.job id)
  let job ← okOr (.notFound id) job
  let now ← perform .nowUtc
  let job ← repositoryFailure (orElse
    (invalidRepositoryData "execution failure cannot be applied to the current state")
    (job.fail failure now))
  let _ ← repositoryFailure (commitJob job)
  pure ⟨.failed id failure, false⟩

def confirmPublishedOutput (id : DownloadId) (output : ExecutionOutput) :
    Managed RepositoryError DownloadEvent := do
  let job ← perform (.job id)
  let job ← okOr ⟨.notFound, "published download does not exist"⟩ job
  if job.state ≠ .finalizing ∨ job.progress.downloadedBytes ≠ output.writtenBytes then
    throw (invalidRepositoryData "published output does not match the finalizing job")
  let updatedAt ← perform .nowUtc
  let job := job.resolveDestination output.destination updatedAt
  let job ← orElse (invalidRepositoryData "published job cannot be completed")
    (job.transitionTo .completed updatedAt)
  let _ ← commitJob job
  pure (.completed id output.destination)

/-- The last part of `execute_inner`: publication of a finalizing job. -/
def publishStaged (id : DownloadId) (staged : StagedTransfer) :
    Managed DownloadManagerError ExecutionReport := do
  let output ← perform (.finalize staged)
  match output with
  | .error failure => recordExecutionFailure id failure
  | .ok output => do
      let completionError := fun error => DownloadManagerError.completionNotPersisted id
        output.destination output.writtenBytes output.cleanupPending error
      if output.writtenBytes ≠ staged.writtenBytes then
        throw (completionError
          (invalidRepositoryData "executor returned inconsistent published output"))
      let event ← ExceptT.adapt completionError (confirmPublishedOutput id output)
      pure ⟨event, output.cleanupPending⟩

/-- The part of `execute_inner` after a transfer that finished its staging output. -/
def finishTransfer (id : DownloadId) (job : DownloadJob) (prepared : PreparedTransfer)
    (staged : StagedTransfer) (reportedBytes : Nat) :
    Managed DownloadManagerError ExecutionReport := do
  let totalIsEstimated := prepared.totalBytesIsEstimated
  let writtenBytes := staged.writtenBytes
  if writtenBytes < reportedBytes then
    throw (.repository
      (invalidRepositoryData "executor returned fewer bytes than previously reported"))
  let progress ← repositoryFailure (ExceptT.mk (pure
    (if totalIsEstimated then
      (DownloadProgress.new writtenBytes (some writtenBytes)).mapError fun _ =>
        invalidRepositoryData "estimated progress is invalid"
    else validatedExecutionProgress job writtenBytes)))
  if !totalIsEstimated ∧ prepared.totalBytes.any (· ≠ writtenBytes) then
    throw (.repository (invalidRepositoryData "executor returned an incomplete staged transfer"))
  let request ← perform .requestKind
  match request with
  | some request => recordExecutionStop job (some writtenBytes) request totalIsEstimated false
  | none => do
      let progressChanged : Bool := progress ≠ job.progress
      let now ← perform .nowUtc
      let job ← repositoryFailure
        (executionTransition (job.updateProgress progress now) .finalizing)
      let job ← repositoryFailure (commitJob job)
      perform (.onProgress (.stateChanged id .downloading .finalizing) job)
      if progressChanged then
        perform (.onProgress (.progressChanged id job.progress) job)
      publishStaged id staged

/-- The part of `execute_inner` from the start of the transfer. -/
def transferPrepared (id : DownloadId) (job : DownloadJob) (prepared : PreparedTransfer) :
    Managed DownloadManagerError ExecutionReport := do
  let totalIsEstimated := prepared.totalBytesIsEstimated
  let run ← perform (.transferControlled prepared.startingBytes)
  let job ← repositoryFailure (checkpointTicks totalIsEstimated job run.ticks)
  let _ ← repositoryFailure (ExceptT.mk (pure
    (executionProgress job run.reportedBytes totalIsEstimated)))
  match run.result with
  | .ok (.finished staged) => finishTransfer id job prepared staged run.reportedBytes
  | .ok (.stopped writtenBytes) => do
      let request ← perform .requestKind
      let request ← okOr (.repository
        (invalidRepositoryData "executor stopped without a control request")) request
      if writtenBytes < run.reportedBytes ∧ !prepared.stoppedProgressMayRewind then
        throw (.repository
          (invalidRepositoryData "executor returned inconsistent stopped progress"))
      recordExecutionStop job (some writtenBytes) request totalIsEstimated
        prepared.stoppedProgressMayRewind
  | .error failure => do
      let _ ← repositoryFailure (checkpointProgress job run.reportedBytes totalIsEstimated)
      recordExecutionFailure id failure

/-- The part of `execute_inner` between inspection and transfer. -/
def recordInspection (id : DownloadId) (job : DownloadJob) (prepared : PreparedTransfer) :
    Managed DownloadManagerError ExecutionReport := do
  perform (.setPauseSupported prepared.supportsPause)
  let initialProgress ← orElse (.repository
    (invalidRepositoryData "execution progress is invalid"))
    (DownloadProgress.new prepared.startingBytes prepared.totalBytes)
  let inspectedAt ← perform .nowUtc
  let job := ((job.setResource prepared.resource inspectedAt).updateProgress initialProgress
    inspectedAt).resolveDestination prepared.plannedDestination inspectedAt
  let request ← perform .requestKind
  match request with
  | some request =>
      recordExecutionStop job none request prepared.totalBytesIsEstimated false
  | none => do
      let job ← repositoryFailure (executionTransition job .downloading)
      let job ← repositoryFailure (commitJob job)
      perform (.onProgress (.stateChanged id .inspecting .downloading) job)
      transferPrepared id job prepared

/-- The part of `execute_inner` that runs the executor on an inspecting job. -/
def inspect (id : DownloadId) (job : DownloadJob) : Managed DownloadManagerError ExecutionReport := do
  let preparation ← perform (.prepare
    { id := id
      request := job.request
      destination := job.destination
      progress := job.progress
      resource := job.resource
      resolvedDestination := job.resolvedDestination })
  match preparation with
  | none => do
      let request ← perform .requestKind
      let request ← okOr (.repository
        (invalidRepositoryData "execution stopped without a request")) request
      recordExecutionStop job none request false false
  | some (.ok prepared) => recordInspection id job prepared
  | some (.error failure) => recordExecutionFailure id failure

def executeInner (id : DownloadId) : Managed DownloadManagerError ExecutionReport := do
  let job ← perform (.job id)
  let job ← okOr (.notFound id) job
  if job.state ≠ .queued then
    throw (.invalidExecutionState id job.state)
  let request ← perform .requestKind
  match request with
  | some request => recordExecutionStop job none request false false
  | none => do
      let job ← repositoryFailure (executionTransition job .inspecting)
      let job ← repositoryFailure (commitJob job)
      inspect id job

/-! ## The surroundings -/

/-- A call on the manager. -/
inductive Call where
  | execute (id : DownloadId)
  | pause (id : DownloadId)
  | resume (id : DownloadId)
  | retry (id : DownloadId)
  | restart (id : DownloadId)
  | cancel (id : DownloadId)
  deriving DecidableEq

def Call.program :
    Call → Program ManagerOp ManagerOp.Answer (Except DownloadManagerError DownloadEvent)
  | .execute id => do
      let report ← (executeInner id).run
      pure (report.map (·.event))
  | .pause id => (Core.pause id).run
  | .resume id => (Core.resume id).run
  | .retry id => (Core.retry id).run
  | .restart id => (Core.restart id).run
  | .cancel id => (Core.cancel id).run

/-- A saved row, the row it replaced, and the call that saved it. -/
structure SavedRow where
  task : Nat
  previous : DownloadJob
  saved : DownloadJob
  deriving DecidableEq

/-- What the calls share: the repository's rows, the manager's map of jobs, the
holder of the write lock, and every save so far, newest first. -/
structure World where
  rows : DownloadId → Option DownloadJob
  jobs : DownloadId → Option DownloadJob
  holder : Option Nat
  saves : List SavedRow

/-- What the surroundings decide about one operation. -/
inductive Choice where
  | settled
  | clock (now : OffsetDateTime)
  | stored (result : Except RepositoryError OffsetDateTime)
  | requested (request : Option DownloadControlRequest)
  | prepared (preparation : Option (Except DownloadFailure PreparedTransfer))
  | transferred (run : TransferRun)
  | finalized (output : Except DownloadFailure ExecutionOutput)

/-- Replaces one entry of a map. -/
def upsert (entries : DownloadId → Option DownloadJob) (id : DownloadId) (job : DownloadJob) :
    DownloadId → Option DownloadJob :=
  fun other => if other = id then some job else entries other

def World.save (world : World) (task : Nat) (candidate : DownloadJob)
    (updatedAt : OffsetDateTime) : Option (DownloadJob × World) :=
  match world.rows candidate.id with
  | none => none
  | some previous =>
      let persisted := { candidate with updatedAt := updatedAt }
      some (persisted, { world with
        rows := upsert world.rows candidate.id persisted
        saves := ⟨task, previous, persisted⟩ :: world.saves })

def respond : Environment ManagerOp ManagerOp.Answer Choice World
  | _, .job id, .settled, world => some (world.jobs id, world)
  | task, .lockWrites, .settled, world =>
      if world.holder = none then some ((), { world with holder := some task }) else none
  | task, .unlockWrites, .settled, world =>
      if world.holder = some task then some ((), { world with holder := none }) else none
  | task, .save candidate, .stored (.ok updatedAt), world =>
      (world.save task candidate updatedAt).map fun saved => (.ok saved.1, saved.2)
  | _, .save _, .stored (.error error), world => some (.error error, world)
  | _, .insert id job, .settled, world =>
      some ((), { world with jobs := upsert world.jobs id job })
  | _, .nowUtc, .clock now, world => some (now, world)
  | _, .requestKind, .requested request, world => some (request, world)
  | _, .prepare _, .prepared preparation, world => some (preparation, world)
  | _, .setPauseSupported _, .settled, world => some ((), world)
  | _, .transferControlled _, .transferred run, world => some (run, world)
  | _, .finalize _, .finalized output, world => some (output, world)
  | _, .onProgress _ _, .settled, world => some ((), world)
  | _, _, _, _ => none

/-- A started manager: its map holds exactly the persisted jobs. -/
def World.start (persisted : List DownloadJob) : World where
  rows id := persisted.find? (·.id = id)
  jobs id := persisted.find? (·.id = id)
  holder := none
  saves := []

/-- Every call waits for its first move. -/
def startCalls (calls : List Call) (persisted : List DownloadJob) :
    Pool ManagerOp ManagerOp.Answer (Except DownloadManagerError DownloadEvent) World :=
  ⟨calls.map Call.program, World.start persisted⟩

end Gunda.Core

import Gunda.Core.History
import Mathlib.Data.List.Dedup
import Mathlib.Data.List.Sort

/-!
# A manager from its start

Starting a manager, creating jobs, and any operation of the manager run to its end,
one after another. The repository is a table of rows with its ascending keys; each
of its calls may fail, and then leaves the rows alone.
-/
namespace Gunda.Core

open Gunda.Lib

/-- What `start` and `create` perform besides the operations of a running manager. -/
inductive ServiceOp where
  | list
  | expose (jobs : List DownloadJob)
  | createRow (download : NewDownload) (createdAt : OffsetDateTime)
  | managed (op : ManagerOp)

abbrev ServiceOp.Answer : ServiceOp → Type
  | .list => Except RepositoryError (List DownloadJob)
  | .expose _ => Unit
  | .createRow _ _ => Except RepositoryError DownloadJob
  | .managed op => op.Answer

abbrev Served (ε α : Type) : Type := Fallible ServiceOp ServiceOp.Answer ε α

/-- A program of the running manager. -/
def managed {α : Type} :
    Program ManagerOp ManagerOp.Answer α → Program ServiceOp ServiceOp.Answer α
  | .done value => .done value
  | .step op next => .step (.managed op) fun answer => managed (next answer)

def manage {ε α : Type} (p : Managed ε α) : Served ε α := ExceptT.mk (managed p.run)

/-! ## Start and creation -/

/-- The values of the loaded map that a restart has to reconcile, by ascending key. -/
def interruptedJobs (jobs : List DownloadJob) : List DownloadJob :=
  (jobs.filter fun job => job.state.requiresRecoveryAfterRestart).insertionSort
    fun a b => a.id.value ≤ b.id.value

def recoverJob (recoveredAt : OffsetDateTime) (job : DownloadJob) : Managed RepositoryError Unit := do
  let updatedAt := max recoveredAt job.updatedAt
  let job ← orElse (invalidRepositoryData "persisted execution state cannot become interrupted")
    (job.transitionTo .interrupted updatedAt)
  let _ ← commitJob job
  pure ()

def recoverJobs (recoveredAt : OffsetDateTime) : List DownloadJob → Managed RepositoryError Unit
  | [] => pure ()
  | job :: rest => do
      recoverJob recoveredAt job
      recoverJobs recoveredAt rest

def start : Served RepositoryError Unit := do
  let persistedJobs ← ExceptT.mk (Program.perform ServiceOp.list)
  if ¬ (persistedJobs.map (·.id)).Nodup then
    throw (invalidRepositoryData "repository returned duplicate download IDs")
  Fallible.perform (ServiceOp.expose persistedJobs)
  manage do
    let recoveredAt ← perform .nowUtc
    recoverJobs recoveredAt (interruptedJobs persistedJobs)

/-- `withWriteLock` around a program that also calls `create` of the repository. -/
def withServiceLock {ε α : Type} (p : Served ε α) : Served ε α :=
  ExceptT.mk do
    Program.perform (ServiceOp.managed .lockWrites)
    let result ← p.run
    Program.perform (ServiceOp.managed .unlockWrites)
    pure result

/-- The repository assigns the identifier. -/
def create (download : NewDownload) : Served RepositoryError DownloadEvent :=
  withServiceLock do
    let createdAt ← manage (perform .nowUtc)
    let job ← ExceptT.mk (Program.perform (ServiceOp.createRow download createdAt))
    let known ← manage (perform (.job job.id))
    if known.isSome then
      throw (invalidRepositoryData "repository returned an existing download ID")
    manage (perform (.insert job.id job))
    pure (.created job.id)

/-! ## Operations one after another -/

inductive Operation where
  | start
  | create (download : NewDownload)
  | pause (id : DownloadId)
  | resume (id : DownloadId)
  | cancel (id : DownloadId)
  | retry (id : DownloadId)
  | restart (id : DownloadId)
  | execute (id : DownloadId)
  | confirmPublishedOutput (id : DownloadId) (output : ExecutionOutput)

inductive OperationError where
  | repository (error : RepositoryError)
  | manager (error : DownloadManagerError)

/-- The operation with the event it returns; a start returns a manager instead. -/
def Operation.program : Operation → Served OperationError (Option DownloadEvent)
  | .start => ExceptT.adapt .repository do
      Core.start
      pure none
  | .create download => ExceptT.adapt .repository (some <$> Core.create download)
  | .pause id => ExceptT.adapt .manager (some <$> manage (Core.pause id))
  | .resume id => ExceptT.adapt .manager (some <$> manage (Core.resume id))
  | .cancel id => ExceptT.adapt .manager (some <$> manage (Core.cancel id))
  | .retry id => ExceptT.adapt .manager (some <$> manage (Core.retry id))
  | .restart id => ExceptT.adapt .manager (some <$> manage (Core.restart id))
  | .execute id => ExceptT.adapt .manager do
      let report ← manage (executeInner id)
      pure (some report.event)
  | .confirmPublishedOutput id output =>
      ExceptT.adapt .repository (some <$> manage (Core.confirmPublishedOutput id output))

/-- The world of a manager over a repository with these keys. -/
structure ServedWorld where
  world : World
  ids : List DownloadId

inductive ServiceChoice where
  | settled
  | listed (failure : Option RepositoryError)
  | created (result : Except RepositoryError (DownloadId × OffsetDateTime))
  | managed (choice : Choice)

def serve : Surroundings ServiceOp ServiceOp.Answer ServiceChoice ServedWorld
  | .list, .listed none, served => some (.ok (served.ids.filterMap served.world.rows), served)
  | .list, .listed (some error), served => some (.error error, served)
  | .expose jobs, .settled, served =>
      some ((), { served with world.jobs := fun id => jobs.find? (·.id = id) })
  | .createRow download _, .created (.ok (id, createdAt)), served =>
      if served.world.rows id = none then
        let job := DownloadJob.new id download createdAt
        some (.ok job,
          { world := { served.world with rows := upsert served.world.rows id job }
            ids := served.ids.orderedInsert (fun a b => a.value ≤ b.value) id })
      else none
  | .createRow _ _, .created (.error error), served => some (.error error, served)
  | .managed op, .managed choice, served =>
      (respond 0 op choice served.world).map fun answered =>
        (answered.1, { served with world := answered.2 })
  | _, _, _ => none

/-- The repository's table and the manager's map between two operations; the map
means nothing until a start succeeded. -/
structure Service where
  rows : DownloadId → Option DownloadJob
  ids : List DownloadId
  jobs : DownloadId → Option DownloadJob
  running : Bool

/-- A repository that no manager has opened. -/
def Service.stored (jobs : List DownloadJob) : Service where
  rows id := jobs.find? (·.id = id)
  ids := (jobs.map (·.id)).dedup.insertionSort fun a b => a.value ≤ b.value
  jobs _ := none
  running := false

/-- The world an operation begins in: nobody holds the lock, nothing is saved yet. -/
def Service.begin (service : Service) : ServedWorld :=
  ⟨⟨service.rows, service.jobs, none, []⟩, service.ids⟩

/-- How an operation ended, with the rows it saved, newest first. -/
structure Outcome where
  result : Except OperationError (Option DownloadEvent)
  saves : List SavedRow

/-- Whether a service can begin the operation. -/
def Operation.ready : Operation → Service → Bool
  | .start, _ => true
  | _, service => service.running

def Operation.starts : Operation → Bool
  | .start => true
  | _ => false

/-- The service an operation leaves: a start leaves a manager only where it succeeds. -/
def Operation.leaves (operation : Operation)
    (result : Except OperationError (Option DownloadEvent)) (served : ServedWorld) : Service where
  rows := served.world.rows
  ids := served.ids
  jobs := served.world.jobs
  running := if operation.starts then result.isOk else true

def Operation.run (operation : Operation) (choices : List ServiceChoice) (service : Service) :
    Option (Outcome × Service) :=
  if operation.ready service then
    (Program.finish serve operation.program.run choices service.begin).map fun ended =>
      (⟨ended.1, ended.2.world.saves⟩, operation.leaves ended.1 ended.2)
  else none

theorem Operation.run_some {operation : Operation} {choices : List ServiceChoice}
    {service after : Service} {outcome : Outcome}
    (ran : operation.run choices service = some (outcome, after)) :
    ∃ result served, operation.ready service = true ∧
      Program.finish serve operation.program.run choices service.begin = some (result, served) ∧
      outcome = ⟨result, served.world.saves⟩ ∧ after = operation.leaves result served := by
  unfold Operation.run at ran
  split at ran
  · obtain ⟨⟨result, served⟩, finished, same⟩ := Option.map_eq_some_iff.mp ran
    cases same
    exact ⟨result, served, ‹_›, finished, rfl, rfl⟩
  · cases ran

/-- A history of operations, each with the choices its surroundings made. -/
def Service.run : List (Operation × List ServiceChoice) → Service → Option Service
  | [], service => some service
  | (operation, choices) :: rest, service =>
      (operation.run choices service).bind fun ended => Service.run rest ended.2

end Gunda.Core

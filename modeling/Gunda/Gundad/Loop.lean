import Gunda.Gundad.Commands

/-!
# The daemon's loop

`run` of `gundad/src/lib.rs`: the main task takes one command, worker event or capture
event at a time and then schedules; the workers it spawned move in between, one
operation at a time. What the client, the repository, the executors and the clock answer
is chosen by the run. A daemon may be started again over the rows it left.
-/
namespace Gunda.Gundad

open Gunda.Lib Gunda.Lib.Text
open Gunda.Core

variable {urls : UrlCrate}

abbrev MainTask (urls : UrlCrate) : Type :=
  Task (CommandOp urls) CommandOp.Answer (Except String Unit)

structure Worker where
  /-- Tells the holders of the write lock apart. -/
  number : Nat
  id : DownloadId
  engine : JobEngine
  task : Task WorkerOp WorkerOp.Answer CallResult

inductive Main (urls : UrlCrate) where
  | starting (program : Program ServiceOp ServiceOp.Answer (Except RepositoryError Unit))
  | waiting
  | handling (task : MainTask urls)
  | ended

/-- What a run is asked about, newest first. -/
inductive Record where
  | started
  | commanded (id : DownloadId)
  | created (id : DownloadId) (engine : JobEngine)
  /-- A worker was spawned for the job as the manager showed it. -/
  | launched (job : DownloadJob) (engine : JobEngine)
  | called (operation : Operation)

structure Loop (urls : UrlCrate) where
  served : ServedWorld
  activeJobs : List DownloadId
  pendingEngines : DownloadId → Option JobEngine
  pendingOutputs : DownloadId → Option ExecutionOutput
  workers : List Worker
  spawned : Nat
  events : List WorkerEvent
  lastDownloadDirectory : Option String
  notice : Option String
  main : Main urls
  history : List Record

inductive CommandChoice (urls : UrlCrate) where
  | settled
  | accepted (accepted : Bool)
  | checked (available : Except DownloadFailure Bool)
  | reset (result : Except DownloadFailure Unit)
  | viewed (catalog : Option (Catalog urls))
  | changed (result : Except String Unit)

inductive LoopEvent (urls : UrlCrate) where
  | commanded (command : Command)
  | requested (request : DownloadRequest urls)
  /-- Any other capture event. -/
  | captured
  /-- The main task receives the next event of its workers. -/
  | delivered
  /-- An inspection of a capture ends. -/
  | inspected
  | main (move : Move (CommandChoice urls))
  | worker (index : Nat) (move : Move Unit)
  /-- The process ended, at whatever point, and another one starts. -/
  | restarted

namespace Loop

/-- `manager.jobs()`. -/
def jobs (loop : Loop urls) : List DownloadJob :=
  loop.served.ids.filterMap loop.served.world.jobs

def derivedEngine (urls : UrlCrate) (job : DownloadJob) : JobEngine :=
  engineFor urls job.request.url (job.resource.map (·.kind))

def engineOf (loop : Loop urls) (id : DownloadId) : JobEngine :=
  ((loop.served.world.jobs id).map (derivedEngine urls)).getD .http

/-! ## Scheduling -/

def nextQueued (loop : Loop urls) : Option DownloadJob :=
  loop.jobs.find? fun job => job.state = .queued && job.id ∉ loop.activeJobs

/-- One round of the loop of `schedule_jobs`. -/
def launch (loop : Loop urls) (job : DownloadJob) : Loop urls :=
  let engine := (loop.pendingEngines job.id).getD (derivedEngine urls job)
  { loop with
    activeJobs := job.id :: loop.activeJobs
    pendingEngines := fun other => if other = job.id then none else loop.pendingEngines other
    workers := loop.workers ++ [⟨loop.spawned + 1, job.id, engine, .running (executeJob job.id)⟩]
    spawned := loop.spawned + 1
    history := .launched job engine :: loop.history }

/-- The loop of `schedule_jobs`, in at most so many rounds. -/
def launches : Nat → Loop urls → Loop urls
  | 0, loop => loop
  | rounds + 1, loop => match loop.nextQueued with
      | none => loop
      | some job => launches rounds (loop.launch job)

/-- Every round fills one of the places that are left. -/
def scheduleJobs (loop : Loop urls) : Loop urls :=
  launches (maxConcurrentDownloads - loop.activeJobs.length) loop

/-! ## Tasks -/

def note (record : Record) (loop : Loop urls) : Loop urls :=
  { loop with history := record :: loop.history }

def perform (wording : Wording urls) :
    Surroundings (CommandOp urls) CommandOp.Answer (CommandChoice urls) (Loop urls)
  | .isActive id, .settled, loop => some (decide (id ∈ loop.activeJobs), loop)
  | .requestPause _, .accepted accepted, loop => some (accepted, loop)
  | .request _, .settled, loop => some ((), loop)
  | .engineOf id, .settled, loop => some (loop.engineOf id, loop)
  | .job id, .settled, loop => some (loop.served.world.jobs id, loop)
  | .jobs, .settled, loop => some (loop.jobs, loop)
  | .pendingOutput id, .settled, loop => some (loop.pendingOutputs id, loop)
  | .canResume _ _, .checked available, loop => some (available, loop)
  | .resetForRestart _ _ _, .reset result, loop => some (result, loop)
  | .catalog, .viewed catalog, loop => some (catalog, loop)
  | .changeCaptures, .changed result, loop => some (result, loop)
  | .directory asked, .settled, loop =>
      some (((asked.filter fun directory => trim directory.toList ≠ []).or
        loop.lastDownloadDirectory).or wording.defaultDownloadDirectory, loop)
  | .queueCreated id engine, .settled, loop => some ((), { loop with
      pendingEngines := fun other => if other = id then some engine else loop.pendingEngines other
      history := .created id engine :: loop.history })
  | .queueAgain id engine, .settled, loop => some ((), { loop with
      pendingEngines := fun other => if other = id then some engine else loop.pendingEngines other })
  | .removeOutput id, .settled, loop => some ((), { loop with
      pendingOutputs := fun other => if other = id then none else loop.pendingOutputs other })
  | .rememberDirectory directory, .settled, loop =>
      some ((), { loop with lastDownloadDirectory := some directory })
  | .notice message, .settled, loop => some ((), { loop with notice := some message })
  | _, _, _ => none

/-- The main task: its calls answer the clients, not the observers of a worker. -/
def mainHost (wording : Wording urls) :
    Host (CommandOp urls) CommandOp.Answer (CommandChoice urls) (Loop urls) where
  serve op choice loop := (serveAs 0 op choice loop.served).map fun answered =>
    (answered.1, { loop with served := answered.2 })
  perform := perform wording
  noted operation := note (.called operation)

/-- An execution's observer announces every change. -/
def announced : ServiceOp → List WorkerEvent
  | .managed (.onProgress _ _) => [.changed]
  | _ => []

def workerHost (urls : UrlCrate) (number : Nat) :
    Host WorkerOp WorkerOp.Answer Unit (Loop urls) where
  serve op choice loop := (serveAs number op choice loop.served).map fun answered =>
    (answered.1, { loop with served := answered.2, events := loop.events ++ announced op })
  perform op _ loop := match op with
    | .send event => some ((), { loop with events := loop.events ++ [event] })
    | .wait _ => some ((), loop)
  noted operation := note (.called operation)

/-! ## Events -/

/-- `Finished` of `handle_worker_event`, up to the scheduling. -/
def finish (loop : Loop urls) (id : DownloadId) (result : CallResult) : Loop urls :=
  let loop := { loop with activeJobs := loop.activeJobs.filter (· ≠ id) }
  match result with
  | .error (.manager (.completionNotPersisted _ destination writtenBytes cleanupPending _)) =>
      { loop with
        pendingOutputs := fun other =>
          if other = id then some ⟨destination, writtenBytes, cleanupPending⟩
          else loop.pendingOutputs other
        notice := some ("The file was saved. Use Save status to update its download record " ++
          "without downloading again.") }
  | .error _ => { loop with
      notice := some "The download could not be completed. Check its details." }
  | .ok _ => loop

/-- `handle_worker_event`: the loop before it schedules, and whether it does. -/
def handleWorkerEvent (loop : Loop urls) : WorkerEvent → Loop urls × Bool
  | .notice message => ({ loop with notice := some message }, false)
  | .clearNotice => ({ loop with notice := none }, false)
  | .changed | .inspected => (loop, false)
  | .finished id result => (loop.finish id result, true)

/-- The main task of a process that starts over the rows of the repository. -/
def restart (loop : Loop urls) : Loop urls where
  served := ⟨⟨loop.served.world.rows, fun _ => none, none, []⟩, loop.served.ids⟩
  activeJobs := []
  pendingEngines _ := none
  pendingOutputs _ := none
  workers := []
  spawned := loop.spawned
  events := []
  lastDownloadDirectory := none
  notice := none
  main := .starting Core.start.run
  history := .started :: loop.history

def begin (loop : Loop urls) (handler : Handler urls Unit) : Loop urls :=
  { loop with main := .handling (.running handler.run) }

/-- One move of the main task. -/
def moveMain (wording : Wording urls) (loop : Loop urls) (move : Move (CommandChoice urls)) :
    Option (Loop urls × Bool) :=
  match loop.main, move with
  | .starting (.step op next), .served choice =>
      (serveAs 0 op choice loop.served).map fun answered =>
        ({ loop with served := answered.2, main := .starting (next answered.1) }, false)
  | .starting (.done (.ok ())), .proceeds => some ({ loop with main := .waiting }, false)
  | .starting (.done (.error _)), .proceeds => some ({ loop with main := .ended }, false)
  | .handling (.running (.done _)), .proceeds => some ({ loop with main := .waiting }, true)
  | .handling task, move => (task.step (mainHost wording) move loop).map fun moved =>
      ({ moved.2 with main := .handling moved.1 }, false)
  | _, _ => none

/-- One move of a worker; the last one sends its result. -/
def moveWorker (loop : Loop urls) (index : Nat) (move : Move Unit) : Option (Loop urls) :=
  match loop.workers[index]? with
  | none => none
  | some worker => match worker.task, move with
      | .running (.done result), .proceeds => some { loop with
          workers := loop.workers.eraseIdx index
          events := loop.events ++ [.finished worker.id result] }
      | task, move => (task.step (workerHost urls worker.number) move loop).map fun moved =>
          { moved.2 with workers := loop.workers.set index { worker with task := moved.1 } }

/-- What an event does before jobs are scheduled, and whether they are. -/
def react (wording : Wording urls) (loop : Loop urls) (event : LoopEvent urls) :
    Option (Loop urls × Bool) :=
  match event, loop.main with
  | .commanded command, .waiting =>
      let noted := { loop with
        history := command.target.toList.map Record.commanded ++ loop.history }
      some (noted.begin (command.handle wording), false)
  | .requested request, .waiting =>
      some (loop.begin (.noticing (.downloadRequested wording request)), false)
  | .captured, .waiting => some (loop, true)
  | .delivered, .waiting => match loop.events with
      | [] => none
      | event :: events => some ({ loop with events := events }.handleWorkerEvent event)
  | .inspected, _ => some ({ loop with events := loop.events ++ [.inspected] }, false)
  | .main move, _ => loop.moveMain wording move
  | .worker index move, _ => (loop.moveWorker index move).map fun moved => (moved, false)
  | .restarted, _ => some (loop.restart, false)
  | _, _ => none

def step (wording : Wording urls) (loop : Loop urls) (event : LoopEvent urls) :
    Option (Loop urls) :=
  (loop.react wording event).map fun reacted =>
    if reacted.2 then reacted.1.scheduleJobs else reacted.1

/-- The first process over a repository that holds these rows. -/
def start (urls : UrlCrate) (persisted : List DownloadJob) : Loop urls :=
  let service := Service.stored persisted
  restart
    { served := service.begin
      activeJobs := []
      pendingEngines := fun _ => none
      pendingOutputs := fun _ => none
      workers := []
      spawned := 0
      events := []
      lastDownloadDirectory := none
      notice := none
      main := .ended
      history := [] }

end Loop

end Gunda.Gundad

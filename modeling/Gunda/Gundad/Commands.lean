import Gunda.Core.Calls
import Gunda.Gundad.Requests

/-!
# Commands and workers

`gundad/src/lib.rs`: what the daemon's main task does for a command or a request of the
extension, and what a worker does for a job, as programs between their calls on the
manager. The client's messages carry identifiers as integers.
-/
namespace Gunda.Gundad

open Gunda.Lib Gunda.Lib.Text
open Gunda.Core

variable {urls : UrlCrate}

def maxAutomaticAttempts : Nat := 3

def maxConcurrentDownloads : Nat := 3

/-! ## The main task -/

/-- What the main task performs between its calls on the manager. -/
inductive CommandOp (urls : UrlCrate) where
  | isActive (id : DownloadId)
  | requestPause (id : DownloadId)
  | request (id : DownloadId)
  | engineOf (id : DownloadId)
  | job (id : DownloadId)
  | jobs
  | pendingOutput (id : DownloadId)
  | canResume (engine : JobEngine) (job : DownloadJob)
  | resetForRestart (engine : JobEngine) (id : DownloadId) (directory : String)
  | catalog
  | changeCaptures
  | directory (asked : Option String)
  /-- `pending_engines.insert` for a new job, and for one that returns to the queue. -/
  | queueCreated (id : DownloadId) (engine : JobEngine)
  | queueAgain (id : DownloadId) (engine : JobEngine)
  | removeOutput (id : DownloadId)
  | rememberDirectory (directory : String)
  | notice (message : String)

abbrev CommandOp.Answer : CommandOp urls → Type
  | .isActive _ | .requestPause _ => Bool
  | .request _ | .queueCreated _ _ | .queueAgain _ _ | .removeOutput _ | .rememberDirectory _
  | .notice _ => Unit
  | .engineOf _ => JobEngine
  | .job _ => Option DownloadJob
  | .jobs => List DownloadJob
  | .pendingOutput _ => Option ExecutionOutput
  | .canResume _ _ => Except DownloadFailure Bool
  | .resetForRestart _ _ _ => Except DownloadFailure Unit
  | .catalog => Option (Catalog urls)
  | .changeCaptures => Except String Unit
  | .directory _ => Option String

/-- The daemon's handlers fail with the text the client is shown. -/
abbrev Handler (urls : UrlCrate) (α : Type) : Type :=
  Fallible (Calling (CommandOp urls)) (Calling.Answer CommandOp.Answer) String α

namespace Handler

def own (op : CommandOp urls) : Handler urls op.Answer :=
  ExceptT.lift (Calls.own op)

/-- A call on the manager whose failure is shown as this text. -/
def manager (operation : Operation) (message : String) : Handler urls (Option DownloadEvent) :=
  ExceptT.mk do
    let result ← Calls.call operation
    pure (result.mapError fun _ => message)

def ofExcept {α : Type} (result : Except String α) : Handler urls α := ExceptT.mk (pure result)

/-- `DownloadEvent::download_id`. -/
def downloadId : DownloadEvent → DownloadId
  | .created id | .stateChanged id _ _ | .progressChanged id _ | .completed id _ | .failed id _
  | .removed id => id

/-- `manager.create` followed by the insertion of the engine. -/
def queueNew (download : NewDownload) (engine : JobEngine) : Handler urls Unit := do
  let event ← manager (.create download) "Could not save the new download."
  match event with
  | some event => own (.queueCreated (downloadId event) engine)
  | none => throw "Could not save the new download."

def pause (id : DownloadId) : Handler urls Unit := do
  let active ← own (.isActive id)
  if active then
    let accepted ← own (.requestPause id)
    if accepted then pure () else throw "This download cannot be paused safely."
  else
    let _ ← manager (.pause id) "This download cannot be paused."
    pure ()

def resume (id : DownloadId) : Handler urls Unit := do
  let active ← own (.isActive id)
  if active then throw "This download is already running."
  let engine ← own (.engineOf id)
  let job ← own (.job id)
  match job with
  | none => throw "This download does not exist."
  | some job => do
      let checked ← own (.canResume engine job)
      match checked with
      | .error _ => throw "Could not check saved progress."
      | .ok false =>
          throw "Saved progress is unavailable. Use Restart to download again from zero."
      | .ok true => do
          let _ ← manager (.resume id) "This download cannot be resumed."
          own (.queueAgain id engine)

def retry (id : DownloadId) : Handler urls Unit := do
  let active ← own (.isActive id)
  if active then throw "This download is already running."
  let engine ← own (.engineOf id)
  let _ ← manager (.retry id) "This download cannot be retried."
  own (.queueAgain id engine)

def restart (id : DownloadId) : Handler urls Unit := do
  let active ← own (.isActive id)
  if active then throw "This download is still running."
  let engine ← own (.engineOf id)
  let job ← own (.job id)
  match job.filter fun job => job.state.canRestart with
  | none => throw "This download cannot be restarted."
  | some job => do
      let reset ← own (.resetForRestart engine id job.destination.directory)
      match reset with
      | .error _ => throw "The previous download data could not be cleared safely."
      | .ok () => do
          let _ ← manager (.restart id) "This download could not be restarted."
          own (.queueAgain id engine)

def cancel (id : DownloadId) : Handler urls Unit := do
  let active ← own (.isActive id)
  if active then own (.request id)
  else
    let _ ← manager (.cancel id) "This download cannot be cancelled."
    pure ()

def saveStatus (id : DownloadId) : Handler urls Unit := do
  let output ← own (.pendingOutput id)
  match output with
  | none => throw "There is no saved file status to update."
  | some output => do
      let _ ← manager (.confirmPublishedOutput id output)
        "The file is saved, but its status could not be updated."
      own (.removeOutput id)

/-- A capture of the list, with the engine it is downloaded by. -/
def captured (id : CandidateId) : Handler urls (Candidate urls × JobEngine) := do
  let catalog ← own .catalog
  match catalog with
  | none => throw "Browser capture is not available."
  | some catalog =>
      match catalog.get id with
      | none => throw "That capture is no longer in the list."
      | some candidate => do
          let engine ← ofExcept (captureEngine candidate)
          pure (candidate, engine)

def downloadCapture (wording : Wording urls) (id : CandidateId) (directory : String)
    (track : Option CaptureTrackChoice) : Handler urls Unit := do
  let (candidate, engine) ← captured id
  let (url, filename, selection) ← ofExcept (Daemon.chosenTrack candidate track)
  queueNew
    { request := ⟨url, [], selection⟩
      destination := ⟨directory, filename.or (wording.captureFilename candidate), .rename⟩
      origin := candidate.origin } engine
  own (.rememberDirectory directory)

/-- `DownloadRequested` of `handle_capture_event`, up to the reply. -/
def downloadRequested (wording : Wording urls) (request : DownloadRequest urls) :
    Handler urls Unit := do
  let directory ← own (.directory request.directory)
  match directory with
  | none => throw "Choose a download folder before downloading a captured file."
  | some directory => do
      let choice ← ofExcept (captureChoice request.candidate request.format request.filename)
      let jobs ← own .jobs
      if jobs.any (alreadyActive (request.selectedUrl choice)) then pure ()
      else downloadCapture wording request.candidate.id directory choice

/-- A refused request leaves its reason as the notice. -/
def noticing (handler : Handler urls Unit) : Handler urls Unit :=
  ExceptT.mk do
    let result ← handler.run
    match result with
    | .ok () => pure (.ok ())
    | .error message => (own (.notice message)).run

end Handler

/-- The fields of `Command::Create`; the directory is none where it names no path. -/
structure CreateInput where
  url : Text
  directory : Option String
  preferredFilename : Option String
  selection : Option Text
  pageUrl : Option Text
  pageTitle : Option String
  engine : Option Text
  deriving DecidableEq, Repr

namespace CreateInput

def origin (urls : UrlCrate) (input : CreateInput) : Except String DownloadOrigin :=
  match input.pageUrl with
  | some pageUrl => do
      let pageUrl ← validateUrl urls pageUrl
      pure (.browser pageUrl.1 input.pageTitle)
  | none => pure .desktop

def jobEngine (urls : UrlCrate) (input : CreateInput) (url : Url) : Except String JobEngine :=
  if input.engine = some "stream".toList then .ok .stream
  else if input.engine = some "http".toList then .ok .http
  else if input.engine = none then .ok (engineFor urls url none)
  else .error "Unknown download engine."

/-- What `create` reads before it calls the manager. -/
def read (urls : UrlCrate) (input : CreateInput) : Except String (NewDownload × JobEngine) := do
  let url ← validateUrl urls input.url
  match input.directory with
  | none => .error "Invalid destination folder."
  | some directory => do
      let selection ← Daemon.validSelection input.selection
      let origin ← input.origin urls
      let engine ← input.jobEngine urls url.1
      pure
        ({ request := ⟨url.1, [], selection⟩
           destination := ⟨directory, input.preferredFilename, .rename⟩
           origin := origin }, engine)

end CreateInput

inductive Command where
  | create (input : CreateInput)
  | pause (id : Int)
  | resume (id : Int)
  | retry (id : Int)
  | restart (id : Int)
  | cancel (id : Int)
  | saveStatus (id : Int)
  | downloadCapture (id : CandidateId) (directory : String) (track : Option CaptureTrackChoice)
  /-- `InspectCapture`, `DismissCapture` and `ClearCaptures`. -/
  | captures
  deriving DecidableEq, Repr

namespace Command

def downloadId (id : Int) : Except String DownloadId :=
  if positive : 0 < id then .ok ⟨id, positive⟩ else .error "Invalid download identifier."

/-- The job a client names in a command. -/
def target : Command → Option DownloadId
  | .pause id | .resume id | .retry id | .restart id | .cancel id | .saveStatus id =>
      (downloadId id).toOption
  | .create _ | .downloadCapture _ _ _ | .captures => none

def withId (id : Int) (handler : DownloadId → Handler urls Unit) : Handler urls Unit := do
  let id ← Handler.ofExcept (downloadId id)
  handler id

/-- `handle_command`. -/
def handle (wording : Wording urls) : Command → Handler urls Unit
  | .create input => do
      let (download, engine) ← Handler.ofExcept (input.read urls)
      Handler.queueNew download engine
  | .pause id => withId id Handler.pause
  | .resume id => withId id Handler.resume
  | .retry id => withId id Handler.retry
  | .restart id => withId id Handler.restart
  | .cancel id => withId id Handler.cancel
  | .saveStatus id => withId id Handler.saveStatus
  | .downloadCapture id directory track => Handler.downloadCapture wording id directory track
  | .captures => do
      let changed ← Handler.own .changeCaptures
      Handler.ofExcept changed

end Command

/-! ## Workers -/

/-- What tasks send to the main task. -/
inductive WorkerEvent where
  | changed
  | notice (message : String)
  | clearNotice
  /-- What an inspection found changes only the listed tracks. -/
  | inspected
  | finished (id : DownloadId) (result : CallResult)

inductive WorkerOp where
  | send (event : WorkerEvent)
  /-- Until a stop is requested or so many seconds passed. -/
  | wait (seconds : Nat)

abbrev WorkerOp.Answer : WorkerOp → Type
  | .send _ | .wait _ => Unit

/-- An execution reported a failure that may be tried again. -/
def retryable : CallResult → Bool
  | .ok (some (.failed _ failure)) => failure.retryable
  | _ => false

def tryingAgain (delaySeconds : Nat) : String :=
  "Connection problem. Trying again in " ++ toString delaySeconds ++ " seconds…"

/-- The loop of `execute_job`, with so many attempts left after this one. -/
def attempts (id : DownloadId) : Nat → Calls WorkerOp WorkerOp.Answer CallResult
  | 0 => Calls.call (.execute id)
  | left + 1 => do
      let result ← Calls.call (.execute id)
      if retryable result then
        let retried ← Calls.call (.retry id)
        match retried with
        | .error error => pure (.error error)
        | .ok _ => do
            let delaySeconds := 2 ^ (maxAutomaticAttempts - 1 - (left + 1))
            Calls.own (WorkerOp.send (.notice (tryingAgain delaySeconds)))
            Calls.own (WorkerOp.wait delaySeconds)
            Calls.own (WorkerOp.send .clearNotice)
            attempts id left
      else pure result

def executeJob (id : DownloadId) : Calls WorkerOp WorkerOp.Answer CallResult :=
  attempts id (maxAutomaticAttempts - 1)

/-! ## What handlers are proved from -/

section

variable {τ : Type} {terms : Terms (CommandOp urls) CommandOp.Answer τ} {s : τ}

theorem wp_manager {operation : Operation} {message : String} {R : CallResult → τ → Prop}
    {Q : Except String (Option DownloadEvent) → τ → Prop} (begins : terms.begins operation s)
    (called : Program.wp terms.service operation.program.run R (terms.begun operation s))
    (h : ∀ result t, R result t → Q (result.mapError fun _ => message) t) :
    Fallible.wp terms.spec (Handler.manager operation message) Q s := by
  change Program.wp _ (Calls.call operation >>= _) _ _
  rw [Program.wp_bind]
  apply wp_call begins
  exact Program.wp_mono called fun result t ended => h result t ended

/-- The service lock is taken and dropped around a program, where neither is seen. -/
theorem wp_withServiceLock {S : Spec ServiceOp ServiceOp.Answer τ} {ε α : Type} {p : Served ε α}
    {Q : Except ε α → τ → Prop}
    (lock : ∀ s, S.requires (.managed .lockWrites) s ∧
      ∀ answer t, S.ensures (.managed .lockWrites) s answer t → t = s)
    (unlock : ∀ s, S.requires (.managed .unlockWrites) s ∧
      ∀ answer t, S.ensures (.managed .unlockWrites) s answer t → t = s)
    (h : Fallible.wp S p Q s) : Fallible.wp S (withServiceLock p) Q s := by
  refine ⟨(lock s).1, fun answer t locked => ?_⟩
  rw [(lock s).2 answer t locked]
  change Program.wp S (p.run >>= _) _ _
  rw [Program.wp_bind]
  refine Program.wp_mono h fun result later holds => ⟨(unlock later).1, fun answer u dropped => ?_⟩
  rw [(unlock later).2 answer u dropped]
  exact holds

end

end Gunda.Gundad

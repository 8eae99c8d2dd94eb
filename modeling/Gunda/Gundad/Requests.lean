import Gunda.Gundad.Captures
import Gunda.Lib.Machine

/-!
# Download requests of the extension

`gundad/src/lib.rs`: `download_capture` and `handle_capture_event`, on the jobs and the
captures at the moment the daemon handles the request. `manager.create` is answered by
the identifier the repository assigned, or not at all.
-/
namespace Gunda.Gundad

open Gunda.Lib Gunda.Lib.Text
open Gunda.Core
open Gunda.Capture (Refusal)

variable {urls : UrlCrate}

/-- What the daemon's handlers read and write. -/
structure Daemon (urls : UrlCrate) where
  /-- `manager.jobs()`, by ascending identifier. -/
  jobs : List DownloadJob
  /-- The engine each running worker was started with. -/
  activeJobs : DownloadId → Option JobEngine
  pendingEngines : DownloadId → Option JobEngine
  capture : Option (Catalog urls)
  captureTracks : Option CaptureTracks
  lastDownloadDirectory : Option String
  inspectionSequence : Nat
  notice : Option String

namespace Daemon

def job (daemon : Daemon urls) (id : DownloadId) : Option DownloadJob :=
  daemon.jobs.find? (·.id = id)

/-- `manager.create`, with the identifier and time the repository answers. -/
def create (daemon : Daemon urls) (download : NewDownload)
    (answer : Option (DownloadId × OffsetDateTime)) : Option (DownloadId × Daemon urls) :=
  match answer with
  | none => none
  | some (id, createdAt) =>
      if (daemon.job id).isSome then none
      else some (id, { daemon with
        jobs := daemon.jobs.orderedInsert (fun a b => a.id.value ≤ b.id.value)
          (DownloadJob.new id download createdAt) })

def captureHandle (daemon : Daemon urls) : Except String (Catalog urls) :=
  match daemon.capture with
  | some catalog => .ok catalog
  | none => .error "Browser capture is not available."

/-- A capture of the list, with the engine it is downloaded by. -/
def captured (daemon : Daemon urls) (id : CandidateId) :
    Except String (Candidate urls × JobEngine) := do
  let catalog ← daemon.captureHandle
  match catalog.get id with
  | none => .error "That capture is no longer in the list."
  | some candidate => do
      let engine ← captureEngine candidate
      pure (candidate, engine)

def validSelection : Option Text → Except String (Option ExecutionSelection)
  | none => .ok none
  | some text => match ExecutionSelection.new text with
      | some selection => .ok (some selection)
      | none => .error "Invalid stream selection."

/-- The URL, filename and selection a download is created with. -/
def chosenTrack (candidate : Candidate urls) (track : Option CaptureTrackChoice) :
    Except String (Url × Option String × Option ExecutionSelection) :=
  match track with
  | some track => do
      let url ← validateUrl urls track.url
      let selection ← validSelection track.selection
      pure (url.1, track.filename, selection)
  | none => pure (candidate.url.1, none, none)

/-- What stays of the daemon once a captured download was created. -/
def queued (daemon : Daemon urls) (id : DownloadId) (engine : JobEngine) (directory : String) :
    Daemon urls :=
  { daemon with
    pendingEngines := fun other => if other = id then some engine else daemon.pendingEngines other
    lastDownloadDirectory := some directory
    captureTracks := none
    inspectionSequence := Stream.saturatingAdd daemon.inspectionSequence 1 }

def downloadCapture (wording : Wording urls) (daemon : Daemon urls) (id : CandidateId)
    (directory : String) (track : Option CaptureTrackChoice)
    (answer : Option (DownloadId × OffsetDateTime)) : Except String (DownloadId × Daemon urls) := do
  let (candidate, engine) ← daemon.captured id
  let (url, filename, selection) ← chosenTrack candidate track
  match daemon.create
      { request := ⟨url, [], selection⟩
        destination := ⟨directory, filename.or (wording.captureFilename candidate), .rename⟩
        origin := candidate.origin } answer with
  | none => .error "Could not save the new download."
  | some (id, created) => pure (id, created.queued id engine directory)

end Daemon

/-- `CaptureEvent::DownloadRequested`, with the capture as the listener found it. -/
structure DownloadRequest (urls : UrlCrate) where
  candidate : Candidate urls
  format : Option Text
  directory : Option String
  filename : Option String

namespace DownloadRequest

/-- The URL a choice is compared and downloaded by. -/
def selectedUrl (request : DownloadRequest urls) (choice : Option CaptureTrackChoice) : Url :=
  ((choice.bind fun choice => parseUrl urls choice.url).getD request.candidate.url).1

def chosenSelection (choice : Option CaptureTrackChoice) : Option Text :=
  choice.bind (·.selection)

def chosenDirectory (wording : Wording urls) (request : DownloadRequest urls)
    (daemon : Daemon urls) : Option String :=
  ((request.directory.filter fun directory => trim directory.toList ≠ []).or
    daemon.lastDownloadDirectory).or wording.defaultDownloadDirectory

end DownloadRequest

/-- The jobs a request for this URL is answered with instead of a new one. -/
def alreadyActive (url : Url) (job : DownloadJob) : Bool :=
  job.request.url = url && (job.state = .queued || job.state = .downloading)

/-- `DownloadRequested` of `handle_capture_event`: the reply and the daemon after it. -/
def handleDownloadRequested (wording : Wording urls) (daemon : Daemon urls)
    (request : DownloadRequest urls) (answer : Option (DownloadId × OffsetDateTime)) :
    Except Refusal DownloadId × Daemon urls :=
  match request.chosenDirectory wording daemon with
  | none =>
      (.error .captureUnavailable, { daemon with
        notice := some "Choose a download folder before downloading a captured file." })
  | some directory =>
      match captureChoice request.candidate request.format request.filename with
      | .error message => (.error .captureUnavailable, { daemon with notice := some message })
      | .ok choice =>
          match daemon.jobs.find? (alreadyActive (request.selectedUrl choice)) with
          | some job => (.ok job.id, daemon)
          | none =>
              match daemon.downloadCapture wording request.candidate.id directory choice answer with
              | .ok (id, created) => (.ok id, created)
              | .error message =>
                  (.error .captureUnavailable, { daemon with notice := some message })

end Gunda.Gundad

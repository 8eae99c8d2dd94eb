import Gunda.Capture.Protocol
import Mathlib.Logic.Function.Basic

/-!
# Requests of the background worker

`apps/extension/src/background.ts`: the three queues of promises that wait for an answer,
and what `handle` does with a message of the server. A request carries, for the statements
about it only, a number, its socket and whether the server can read it.
-/
namespace Gunda.Extension

open Gunda.Lib
open Gunda.Capture (ServerMessage MediaFormat CaptureDownloadStatus)

inductive RequestKind where
  | download | formats | status
  deriving DecidableEq, Repr

/-- An entry of a queue: the promise and its timer. -/
structure Request where
  kind : RequestKind
  id : Nat
  socket : Nat
  readable : Bool
  deriving DecidableEq, Repr

/-- `DownloadResponse`, `FormatResponse` and `DownloadStatusResponse`. -/
inductive Response where
  | queued (id : Nat)
  | formats (captureId : Nat) (formats : List MediaFormat) (directory filename : Option Text)
  | status (status : CaptureDownloadStatus)
  | unavailable (reason : Text)
  deriving DecidableEq, Repr

/-- What resolved a promise: the reply to a request, its timer or the end of a connection. -/
inductive Cause where
  | reply (answers : Option Request)
  | timer
  | close (socket : Nat)
  deriving DecidableEq, Repr

structure Resolved where
  request : Request
  cause : Cause
  response : Response
  deriving DecidableEq, Repr

structure Background where
  greeted : Bool
  serverFeatures : List Text
  queues : RequestKind → List Request
  resolved : List Resolved

namespace Background

def start : Background := ⟨false, [], fun _ => [], []⟩

def downloadRequests (background : Background) : List Request := background.queues .download

def formatRequests (background : Background) : List Request := background.queues .formats

def statusRequests (background : Background) : List Request := background.queues .status

def push (background : Background) (request : Request) : Background :=
  { background with
    queues := Function.update background.queues request.kind
      (background.queues request.kind ++ [request]) }

/-- The first request of a queue is resolved with the response. -/
def finishRequest (kind : RequestKind) (answers : Option Request) (response : Response)
    (background : Background) : Background :=
  match background.queues kind with
  | [] => background
  | request :: rest =>
      { background with
        queues := Function.update background.queues kind rest
        resolved := background.resolved ++ [⟨request, .reply answers, response⟩] }

def finishDownloadRequest : Option Request → Response → Background → Background :=
  finishRequest .download

def finishFormatRequest : Option Request → Response → Background → Background :=
  finishRequest .formats

def finishStatusRequest : Option Request → Response → Background → Background :=
  finishRequest .status

/-- The timer of a request: it leaves its queue and is given up. -/
def timeOut (request : Request) (background : Background) : Background :=
  { background with
    queues := Function.update background.queues request.kind
      ((background.queues request.kind).erase request)
    resolved := background.resolved ++ [⟨request, .timer, .unavailable "timeout".toList⟩] }

/-- Every waiting request is given up: the requests of the three queues in turn. -/
def failRequests (socket : Nat) (background : Background) : Background :=
  { background with
    queues := fun _ => []
    resolved := background.resolved ++
      (background.downloadRequests ++ background.formatRequests ++ background.statusRequests).map
        fun request => ⟨request, .close socket, .unavailable "connection_closed".toList⟩ }

/-- `handle`, without the counts and the status it stores. -/
def handle (message : ServerMessage) (answers : Option Request) (background : Background) :
    Background :=
  match message with
  | .ready _ features => { background with greeted := true, serverFeatures := features }
  | .downloadQueued id => finishDownloadRequest answers (.queued id) background
  | .downloadUnavailable reason =>
      finishDownloadRequest answers (.unavailable reason.text) background
  | .pageFormats captureId formats directory filename =>
      finishFormatRequest answers (.formats captureId formats directory filename) background
  | .formatsUnavailable reason => finishFormatRequest answers (.unavailable reason.text) background
  | .downloadStatus status => finishStatusRequest answers (.status status) background
  | .downloadStatusUnavailable reason =>
      finishStatusRequest answers (.unavailable reason.text) background
  | .accepted _ | .duplicate _ | .recorded _ _ | .refused _ | .malformed _ => background

end Background

/-- The messages the server answers a request of a kind with, where it can read it. -/
def RequestKind.answeredBy : RequestKind → ServerMessage → Bool
  | .download, .downloadQueued _ | .download, .downloadUnavailable _ => true
  | .formats, .pageFormats _ _ _ _ | .formats, .formatsUnavailable _ => true
  | .status, .downloadStatus _ | .status, .downloadStatusUnavailable _ => true
  | _, _ => false

variable {kind : RequestKind}

/-- An answer of a kind finishes the first request of that kind. -/
theorem handle_answer {message : ServerMessage} (answer : kind.answeredBy message = true) :
    ∃ response, ∀ answers background, Background.handle message answers background =
      Background.finishRequest kind answers response background := by
  cases kind <;> cases message <;> simp only [RequestKind.answeredBy] at answer
  all_goals first
    | exact ⟨_, fun _ _ => rfl⟩
    | cases answer

theorem RequestKind.eq_of_answeredBy {first second : RequestKind} {message : ServerMessage}
    (one : first.answeredBy message = true) (other : second.answeredBy message = true) :
    first = second := by
  cases first <;> cases second <;> first
    | rfl
    | cases message <;> simp [RequestKind.answeredBy] at one other

theorem finishRequest_nil {background : Background} (empty : background.queues kind = [])
    (answers : Option Request) (response : Response) :
    Background.finishRequest kind answers response background = background := by
  unfold Background.finishRequest
  rw [empty]

theorem finishRequest_cons {background : Background} {request : Request} {rest : List Request}
    (waiting : background.queues kind = request :: rest) (answers : Option Request)
    (response : Response) :
    Background.finishRequest kind answers response background =
      { background with
        queues := Function.update background.queues kind rest
        resolved := background.resolved ++ [⟨request, .reply answers, response⟩] } := by
  unfold Background.finishRequest
  rw [waiting]

end Gunda.Extension

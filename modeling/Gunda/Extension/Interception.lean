import Gunda.Lib.Machine
import Mathlib.Data.List.Count

/-!
# Taking over a browser download

`background.ts`, the start window of `download.ts` and the daemon's answers
(`gunda-capture/src/server.rs`), from the moment the browser's copy is cancelled. Every
handler runs to its next `await`; requests wait in one queue, and an answer on the
connection resolves the first of them, whichever it is the answer to.
-/
namespace Gunda.Extension

inductive UnavailableReason where
  | connectionUnavailable | timeout | connectionClosed | refused
  deriving DecidableEq, Repr

inductive DownloadResponse where
  | queued
  | unavailable (reason : UnavailableReason)
  deriving DecidableEq, Repr

/-- Where `promptBrowserDownload` waits. -/
inductive PromptStage where
  | preparing | opening | restoring | done
  deriving DecidableEq, Repr

/-- Where a `startBrowserDownload` waits. -/
inductive StartStage where
  | connecting
  | requesting
  | waiting
  | restoring (reason : UnavailableReason)
  | replying (response : DownloadResponse)
  | done (response : DownloadResponse)
  deriving DecidableEq, Repr

/-- Where a `keepBrowserDownload` waits. -/
inductive KeepStage where
  | restoring | replying | done
  deriving DecidableEq, Repr

/-- The start window while it is open. -/
structure PromptWindow where
  startEnabled : Bool
  cancelEnabled : Bool
  progress : Bool
  deriving DecidableEq, Repr

/-- Who waits for an answer of the daemon: a Start of this window, or something else. -/
inductive Waiter where
  | start (index : Nat)
  | other
  deriving DecidableEq, Repr

def Waiter.isStart : Waiter → Bool
  | .start _ => true
  | .other => false

/-- `sent` is on the connection; the daemon may still have what is `stranded`, but its
answers are lost. -/
structure Flow where
  prompt : PromptStage
  window : Option PromptWindow
  starts : List StartStage
  keeps : List KeepStage
  connected : Bool
  downloadRequests : List Waiter
  sent : List Waiter
  stranded : List Waiter
  answers : List Bool
  /-- Downloads of this file that Gunda queued. -/
  queued : Nat
  /-- How often the browser restarted it. -/
  restarted : Nat
  deriving DecidableEq, Repr

inductive Action where
  | prepared (succeeds : Bool)
  | opened (succeeds : Bool)
  | restorePrompt
  | pressStart
  | pressCancel
  | closeWindow
  | openConnection
  | closeConnection
  | otherRequest
  | connect (index : Nat) (succeeds : Bool)
  | request (index : Nat) (succeeds : Bool)
  | decide (accepts : Bool)
  | decideStranded (place : Nat) (accepts : Bool)
  | answer
  | timeout (place : Nat)
  | restore (index : Nat)
  | reply (index : Nat)
  | keep (index : Nat)
  | replyKept (index : Nat)
  deriving DecidableEq, Repr

/-- A promise that is settled stays as it is. -/
def StartStage.resolve (response : DownloadResponse) : StartStage → StartStage
  | .waiting => match response with
      | .queued => .replying .queued
      | .unavailable reason => .restoring reason
  | stage => stage

namespace Flow

def resolve (flow : Flow) (waiter : Waiter) (response : DownloadResponse) : Flow :=
  match waiter with
  | .start index => { flow with starts := flow.starts.modify index (StartStage.resolve response) }
  | .other => flow

def setStart (flow : Flow) (index : Nat) (stage : StartStage) : Flow :=
  { flow with starts := flow.starts.set index stage }

def setKeep (flow : Flow) (index : Nat) (stage : KeepStage) : Flow :=
  { flow with keeps := flow.keeps.set index stage }

/-- `restoreBrowserDownload`; the browser accepts. -/
def restart (flow : Flow) : Flow := { flow with restarted := flow.restarted + 1 }

/-- A daemon that accepts queues one download. -/
def decided (flow : Flow) (waiter : Waiter) (accepts : Bool) : Flow :=
  if accepts && waiter.isStart then { flow with queued := flow.queued + 1 } else flow

/-- The handler of the connection's `close` event. -/
def close (flow : Flow) : Flow :=
  flow.downloadRequests.foldl
    (fun flow waiter => flow.resolve waiter (.unavailable .connectionClosed))
    { flow with
      connected := false
      downloadRequests := []
      sent := []
      stranded := flow.stranded ++ flow.sent
      answers := [] }

/-- What a Start's reply does to the window. -/
def replied (window : PromptWindow) : DownloadResponse → PromptWindow
  | .queued => { window with progress := true }
  | .unavailable _ => { window with startEnabled := true }

def step (flow : Flow) : Action → Option Flow
  | .prepared succeeds =>
      if flow.prompt = .preparing then
        some { flow with prompt := if succeeds then .opening else .restoring }
      else none
  | .opened succeeds =>
      if flow.prompt = .opening then
        if succeeds then
          some { flow with prompt := .done, window := some ⟨true, true, false⟩ }
        else some { flow with prompt := .restoring }
      else none
  | .restorePrompt =>
      if flow.prompt = .restoring then some { flow.restart with prompt := .done } else none
  | .pressStart => match flow.window with
      | some window =>
          if window.startEnabled && !window.progress then
            some { flow with
              window := some { window with startEnabled := false }
              starts := flow.starts ++ [.connecting] }
          else none
      | none => none
  | .pressCancel => match flow.window with
      | some window =>
          if window.cancelEnabled && !window.progress then
            some { flow with
              window := some { window with cancelEnabled := false, startEnabled := false }
              keeps := flow.keeps ++ [.restoring] }
          else none
      | none => none
  | .closeWindow => if flow.window.isSome then some { flow with window := none } else none
  | .openConnection => if flow.connected then none else some { flow with connected := true }
  | .closeConnection => if flow.connected then some flow.close else none
  | .otherRequest =>
      if flow.connected then
        some { flow with
          downloadRequests := flow.downloadRequests ++ [.other]
          sent := flow.sent ++ [.other] }
      else none
  | .connect index succeeds =>
      if flow.starts[index]? = some .connecting ∧ (succeeds → flow.connected) then
        some (flow.setStart index
          (if succeeds then .requesting else .restoring .connectionUnavailable))
      else none
  | .request index succeeds =>
      if flow.starts[index]? = some .requesting ∧ (succeeds → flow.connected) then
        if succeeds then
          some { flow.setStart index .waiting with
            downloadRequests := flow.downloadRequests ++ [.start index]
            sent := flow.sent ++ [.start index] }
        else some (flow.setStart index (.restoring .connectionUnavailable))
      else none
  | .decide accepts => match flow.sent with
      | waiter :: rest =>
          some ({ flow with sent := rest, answers := flow.answers ++ [accepts] }.decided waiter
            accepts)
      | [] => none
  | .decideStranded place accepts => match flow.stranded[place]? with
      | some waiter =>
          some ({ flow with stranded := flow.stranded.eraseIdx place }.decided waiter accepts)
      | none => none
  | .answer => match flow.answers, flow.downloadRequests with
      | accepted :: answers, waiter :: requests =>
          some ({ flow with answers := answers, downloadRequests := requests }.resolve waiter
            (if accepted then .queued else .unavailable .refused))
      | _ :: answers, [] => some { flow with answers := answers }
      | [], _ => none
  | .timeout place => match flow.downloadRequests[place]? with
      | some waiter =>
          some ({ flow with downloadRequests := flow.downloadRequests.eraseIdx place }.resolve
            waiter (.unavailable .timeout))
      | none => none
  | .restore index => match flow.starts[index]? with
      | some (.restoring reason) =>
          some (flow.restart.setStart index (.replying (.unavailable reason)))
      | _ => none
  | .reply index => match flow.starts[index]? with
      | some (.replying response) =>
          some { flow.setStart index (.done response) with
            window := flow.window.map fun window => replied window response }
      | _ => none
  | .keep index =>
      if flow.keeps[index]? = some .restoring then some (flow.restart.setKeep index .replying)
      else none
  | .replyKept index =>
      if flow.keeps[index]? = some .replying then
        some { flow.setKeep index .done with window := none }
      else none

end Flow

/-- The browser's copy is cancelled; others may have used the connection. -/
structure Begins (flow : Flow) : Prop where
  prompt : flow.prompt = .preparing
  window : flow.window = none
  starts : flow.starts = []
  keeps : flow.keeps = []
  others : ∀ waiter ∈ flow.downloadRequests ++ (flow.sent ++ flow.stranded), waiter = .other
  queued : flow.queued = 0
  restarted : flow.restarted = 0

/-- Nothing is left to do: no handler runs, the window asks for nothing any more, and no
request for this file is on its way. -/
structure Settled (flow : Flow) : Prop where
  prompt : flow.prompt = .done
  window : ∀ window, flow.window = some window → window.progress = true
  starts : ∀ stage ∈ flow.starts, ∃ response, stage = .done response
  keeps : ∀ stage ∈ flow.keeps, stage = .done
  asked : (flow.sent ++ flow.stranded).any Waiter.isStart = false

/-- Gunda has one download of the file, or the browser has. -/
def OneOwner (flow : Flow) : Prop :=
  flow.queued = 1 ∧ flow.restarted = 0 ∨ flow.queued = 0 ∧ flow.restarted = 1

end Gunda.Extension

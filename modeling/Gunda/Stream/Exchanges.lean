import Gunda.Http.Credentials
import Gunda.Stream.Container
import Gunda.Stream.Prepare

/-!
# The requests of a segmented download

Planning, preparation and transfer of `gunda-stream/src/executor.rs` with every use
of the client carried out by the exchanges it makes.
-/
namespace Gunda.Stream

open Gunda.Lib
open Gunda.Core (RequestContext DownloadFailure ExecutionInput)
open Gunda.Http (HttpError Exchange Response)

inductive SegmentedOp where
  | exchange (request : Exchange)
  | prepare (op : PrepareOp)
  | transfer (op : TransferOp)

abbrev SegmentedOp.Answer : SegmentedOp → Type
  | .exchange _ => Except HttpError Response
  | .prepare op => op.Answer
  | .transfer op => op.Answer

abbrev Segmented (α : Type) : Type := Program SegmentedOp SegmentedOp.Answer α

namespace Segmented

def send (request : Exchange) : Segmented (Except HttpError Response) :=
  Program.perform (SegmentedOp.exchange request)

def carryOutPlanning : (op : PlanningOp) → Segmented op.Answer
  | .exchange request => send request
  | .planned _ => pure ()

end Segmented

/-! ## The first bytes -/

/-- The source's loop over the blocks of the first resource. -/
def collectHead (ending : Except HttpError Unit) : Bytes → List Bytes → Option Bytes
  | head, [] => ending.toOption.map fun _ => head
  | head, block :: blocks =>
      if sniffBytes ≤ (head ++ block).length then some (head ++ block)
      else collectHead ending (head ++ block) blocks

section

variable (urls : Http.UrlLibrary)

/-- A resource that begins inside a larger one is read where it is. -/
def readResourceHead (segment : RequestContext) (interval : Option (Nat × Nat)) :
    Http.Client SegmentedOp SegmentedOp.Answer (Option Bytes) :=
  if (interval.map (·.1)).getD 0 = 0 then do
    let (response, metadata) ← Http.openBody urls Segmented.send segment
    let body := Http.deliver metadata response.failure 0 response.chunks
    pure (collectHead body.2 [] body.1)
  else do
    let start := (interval.map (·.1)).getD 0
    let limit := min (start + (sniffBytes - 1)) maxU64
    let (response, metadata, _) ← Http.openByteRange urls Segmented.send segment start limit
    let body := Http.deliver metadata response.failure 0 response.chunks
    pure (body.2.toOption.map fun _ => body.1.flatten)

def readHead (request : RequestContext) (plan : TrackPlan) : Segmented (Option Bytes) :=
  match plan.resources with
  | [] => pure none
  | first :: _ => do
      let segment := segmentRequest urls first.url request.url request.headers
      let head ← (readResourceHead urls segment first.byteInterval).run
      pure (head.toOption.join.map (·.take sniffBytes))

/-! ## One attempt -/

/-- The body of one resource, whole or an interval of it. -/
def openSegment (request : RequestContext) (interval : Option (Nat × Nat)) :
    Http.Client SegmentedOp SegmentedOp.Answer SegmentBody := do
  let (response, metadata) ← match interval with
    | none => Http.openBody urls Segmented.send request
    | some (first, last) =>
        (fun opened => (opened.1, opened.2.1)) <$>
          Http.openByteRange urls Segmented.send request first last
  let body := Http.deliver metadata response.failure 0 response.chunks
  pure ⟨body.1, match body.2 with
    | .ok () => none
    | .error error => some error⟩

variable (decimals : Decimals) (detect : Bytes → Option Container → Option Container)

def carryOutPrepare : (op : PrepareOp) → Segmented op.Answer
  | .plan request =>
      (planExecution urls decimals request).run.interpret Segmented.carryOutPlanning
  | .container request plan => (·.bind (detect · plan.containerHint)) <$> readHead urls request plan
  | .inspect request => (Http.inspect urls Segmented.send request).run
  | .openByteRange request first last =>
      ((·.2.2.total) <$> Http.openByteRange urls Segmented.send request first last).run
  | .openMetadata request => ((·.2) <$> Http.openBody urls Segmented.send request).run
  | op => Program.perform (SegmentedOp.prepare op)

def carryOutTransfer : (op : TransferOp) → Segmented op.Answer
  | .openBody request interval => (openSegment urls request interval).run
  | op => Program.perform (SegmentedOp.transfer op)

/-- Preparation and transfer of one attempt. -/
def segmentedAttempt (identity : UrlIdentity) (stored : Bool) (input : ExecutionInput) :
    Fallible SegmentedOp SegmentedOp.Answer DownloadFailure StreamOutcome := do
  let prepared ← ExceptT.mk
    ((prepare urls identity stored input).run.interpret (carryOutPrepare urls decimals detect))
  let transfer :=
    transferControlled urls input.request.url input.request.headers prepared.tracks
  ExceptT.mk (transfer.run.interpret (carryOutTransfer urls))

end

end Gunda.Stream

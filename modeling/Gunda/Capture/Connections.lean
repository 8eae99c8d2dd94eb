import Gunda.Capture.Handshake
import Gunda.Gundad.Pages

/-!
# Connections to the capture channel

`converse` and the listener of `gunda-capture/src/server.rs`. Each connection is a task of
its own that reads a frame at a time; reports and requests reach the listener through
queues. What the daemon answers is whatever it is.
-/
namespace Gunda.Capture

open Gunda.Lib Gunda.Lib.Text
open Gunda.Core (Url)
open Gunda.Gundad (PageUrls Report Catalog Candidate CandidateId FormatsResponse findCandidate)

/-- The path the extension connects to. -/
def DEFAULT_PATH : Text := "/capture".toList

/-- The origin schemes a browser extension uses. -/
def EXTENSION_SCHEMES : List Text :=
  ["chrome-extension://".toList, "moz-extension://".toList, "safari-web-extension://".toList]

def originAllowed : Option Text → Bool
  | some origin => EXTENSION_SCHEMES.any fun scheme => scheme.isPrefixOf origin
  | none => true

/-- A listener: its token, the crates it uses, and how a document becomes reports. -/
structure Channel (J : Type) where
  token : Text
  digest : Digest
  pages : PageUrls
  parse : Text → Option (ClientMessage J)
  encode : ServerMessage → Text
  sourceReports : Text → Text → Option String → J → Except Refusal (List (Report pages.crate))

inductive CaptureError where
  | transport (error : WebSocketError)
  | protocol (reason : String)
  deriving DecidableEq, Repr

/-- What a connection asks of the daemon. -/
inductive CaptureRequest where
  | formats (pageUrl : Url)
  | download (pageUrl : Url) (captureId : Option CandidateId)
      (format directory filename : Option String)
  | status (id : Nat)

inductive Effect (J : Type) (channel : Channel J) where
  | submitted (report : Report channel.pages.crate)
  | requested (request : CaptureRequest)

/-- What the listener and the daemon reply, `none` once they are gone. -/
structure Answers where
  recorded : List Catalog.Recorded
  downloaded : Option (Except Refusal Nat)
  formats : Option (Except Refusal FormatsResponse)
  status : Option (Except Refusal CaptureDownloadStatus)

namespace Channel

variable {J : Type} (channel : Channel J)

/-- `PairingToken::matches`. -/
def tokenMatches (presented : Text) : Bool :=
  toUtf8 channel.token = toUtf8 (toAsciiLowercase (trim presented))

def parseClientMessage (text : Text) : Except CaptureError (ClientMessage J) :=
  if MAX_MESSAGE_BYTES < (toUtf8 text).length then .error (.protocol "the message was too large")
  else match channel.parse text with
    | some message => .ok message
    | none => .error (.protocol "the message was not valid protocol JSON")

/-! ## Messages of an accepted client -/

def builtReport (url : Text) (contentType : Option String) (sizeBytes : Option Nat) (pageUrl : Text)
    (pageTitle filename : Option String) : Except Refusal (Report channel.pages.crate) :=
  (Report.new channel.pages url contentType pageUrl pageTitle).map fun report =>
    (report.withFilename filename).withSizeBytes sizeBytes

def downloadReply : Except Refusal Nat → ServerMessage
  | .ok id => .downloadQueued id
  | .error reason => .downloadUnavailable reason

def formatsReply : Except Refusal FormatsResponse → ServerMessage
  | .ok formats => .pageFormats formats.captureId formats.formats
      (formats.directory.map String.toList) (formats.filename.map String.toList)
  | .error reason => .formatsUnavailable reason

def statusReply : Except Refusal CaptureDownloadStatus → ServerMessage
  | .ok status => .downloadStatus status
  | .error reason => .downloadStatusUnavailable reason

/-- What a message causes, and the reply to it unless the listener is gone. -/
def handle (message : ClientMessage J) (answers : Answers) :
    List (Effect J channel) × Option ServerMessage :=
  match message with
  | .candidate url contentType sizeBytes pageUrl pageTitle filename =>
      match channel.builtReport url contentType sizeBytes pageUrl pageTitle filename with
      | .error reason => ([], some (.refused reason))
      | .ok report => ([.submitted report], answers.recorded.head?.map fun recorded =>
          if recorded.duplicate then .duplicate recorded.id else .accepted recorded.id)
  | .downloadBrowser url contentType sizeBytes pageUrl pageTitle filename directory =>
      match channel.builtReport url contentType sizeBytes pageUrl pageTitle filename with
      | .error reason => ([], some (.downloadUnavailable reason))
      | .ok report =>
          match answers.recorded.head?, channel.pages.crate.parse pageUrl with
          | some recorded, some page =>
              ([.submitted report,
                  .requested (.download page (some recorded.id) none directory filename)],
                answers.downloaded.map downloadReply)
          | _, _ => ([.submitted report], none)
  | .source sourceUrl pageUrl pageTitle document =>
      match channel.sourceReports sourceUrl pageUrl pageTitle document with
      | .error reason => ([], some (.refused reason))
      | .ok reports =>
          if answers.recorded.length < reports.length then
            ((reports.take (answers.recorded.length + 1)).map .submitted, none)
          else
            let recorded := answers.recorded.take reports.length
            (reports.map .submitted, some (.recorded
              ((recorded.filter fun one => !one.duplicate).map (·.id))
              ((recorded.filter (·.duplicate)).map (·.id))))
  | .downloadPage pageUrl captureId format directory filename =>
      match channel.pages.crate.parse pageUrl with
      | none => ([], some (.downloadUnavailable .unsupportedUrl))
      | some page => ([.requested (.download page captureId format directory filename)],
          answers.downloaded.map downloadReply)
  | .listFormats pageUrl =>
      match channel.pages.crate.parse pageUrl with
      | none => ([], some (.formatsUnavailable .unsupportedUrl))
      | some page => ([.requested (.formats page)], answers.formats.map formatsReply)
  | .downloadStatus id => ([.requested (.status id)], answers.status.map statusReply)
  | .hello _ _ _ => ([], some (.malformed "the greeting was already sent".toList))

def handleText (text : Text) (answers : Answers) :
    List (Effect J channel) × Option ServerMessage :=
  match channel.parseClientMessage text with
  | .ok message => channel.handle message answers
  | .error (.protocol reason) => ([], some (.malformed reason.toList))
  | .error _ => ([], some (.malformed "the message could not be read".toList))

end Channel

/-! ## One connection -/

inductive Connection where
  | accepting (transport : Transport)
  | greeting (receiving : Receiving)
  | serving (receiving : Receiving)
  | ended (transport : Transport)

def Connection.transport : Connection → Transport
  | .accepting transport | .ended transport => transport
  | .greeting receiving | .serving receiving => receiving.transport

namespace Channel

variable {J : Type} (channel : Channel J)

def respond (transport : Transport) (message : ServerMessage) :
    Except WebSocketError Unit × Transport := transport.sendText (channel.encode message)

/-- A greeting that is answered and closed. -/
def refuse (transport : Transport) (message : ServerMessage) : Connection :=
  match channel.respond transport message with
  | (.ok (), transport) => .ended (transport.writeFrame OP_CLOSE []).2
  | (.error _, transport) => .ended transport

/-- A reply, after which the next message is read. -/
def reply (transport : Transport) (message : ServerMessage) : Connection :=
  match channel.respond transport message with
  | (.ok (), transport) => .serving ⟨transport, [], false⟩
  | (.error _, transport) => .ended transport

def greet (transport : Transport) (text : Text) : Connection :=
  match channel.parseClientMessage text with
  | .error _ => .ended transport
  | .ok (.hello version offered _) =>
      if version > PROTOCOL_VERSION then
        channel.refuse transport (.refused .unsupportedVersion)
      -- say nothing at all to a client without the token
      else if channel.tokenMatches offered = false then .ended transport
      else channel.reply transport (.ready PROTOCOL_VERSION [FEATURE_BROWSER_DOWNLOAD])
  | .ok _ => channel.refuse transport (.malformed "the first message must be a greeting".toList)

def accepted (transport : Transport) : Connection :=
  match transport.accept channel.digest with
  | (.error _, transport) => .ended transport
  | (.ok handshake, transport) =>
      if handshake.path ≠ DEFAULT_PATH then .ended transport
      else if originAllowed handshake.origin = false then .ended transport
      else .greeting ⟨transport, [], false⟩

/-- One turn of the task of a connection. -/
def turn (answers : Answers) : Connection → Option (Connection × List (Effect J channel))
  | .accepting transport => some (channel.accepted transport, [])
  | .greeting receiving =>
      match receiving.turn with
      | (receiving, none) => some (.greeting receiving, [])
      | (receiving, some (.ok (some text))) => some (channel.greet receiving.transport text, [])
      | (receiving, some _) => some (.ended receiving.transport, [])
  | .serving receiving =>
      match receiving.turn with
      | (receiving, none) => some (.serving receiving, [])
      | (receiving, some (.ok (some text))) =>
          match channel.handleText text answers with
          | (effects, some message) => some (channel.reply receiving.transport message, effects)
          | (effects, none) => some (.ended receiving.transport, effects)
      | (receiving, some _) => some (.ended receiving.transport, [])
  | .ended _ => none

end Channel

/-! ## The listener -/

abbrev ClientId := Nat

inductive CaptureEvent {J : Type} (channel : Channel J) where
  | changed
  | formatsRequested (candidate : Candidate channel.pages.crate)
  | downloadRequested (candidate : Candidate channel.pages.crate)
      (format directory filename : Option String)
  | statusRequested (id : Nat)

/-- The listener with its connections; each entry names the client it comes from. -/
structure Listener {J : Type} (channel : Channel J) where
  connections : ClientId → Connection
  submissions : List (ClientId × Report channel.pages.crate)
  requests : List (ClientId × CaptureRequest)
  catalog : Catalog channel.pages.crate
  recorded : List (ClientId × Catalog.Recorded)
  events : List (ClientId × CaptureEvent channel)

inductive ListenerAction where
  | turn (client : ClientId) (answers : Answers)
  /-- The deadline of the handshake or of the greeting passed. -/
  | timeout (client : ClientId)
  | record
  | answer

namespace Listener

variable {J : Type} {channel : Channel J}

/-- The event a request becomes, if there is a candidate for it. -/
def event (catalog : Catalog channel.pages.crate) : CaptureRequest → Option (CaptureEvent channel)
  | .status id => some (.statusRequested id)
  | .formats pageUrl =>
      (findCandidate channel.pages catalog (.formats pageUrl)).map .formatsRequested
  | .download pageUrl captureId format directory filename =>
      (findCandidate channel.pages catalog (.download pageUrl captureId)).map fun candidate =>
        .downloadRequested candidate format directory filename

def Effect.report : Effect J channel → Option (Report channel.pages.crate)
  | .submitted report => some report
  | .requested _ => none

def Effect.asked : Effect J channel → Option CaptureRequest
  | .submitted _ => none
  | .requested asked => some asked

/-- What a client caused, in the queues of the listener. -/
def queued (listener : Listener channel) (client : ClientId) (connection : Connection)
    (effects : List (Effect J channel)) : Listener channel :=
  { listener with
    connections := fun other => if other = client then connection else listener.connections other
    submissions := listener.submissions ++
      (effects.filterMap Effect.report).map fun report => (client, report)
    requests := listener.requests ++
      (effects.filterMap Effect.asked).map fun request_ => (client, request_) }

def step (listener : Listener channel) : ListenerAction → Option (Listener channel)
  | .turn client answers =>
      (channel.turn answers (listener.connections client)).map fun next =>
        listener.queued client next.1 next.2
  | .timeout client =>
      match listener.connections client with
      | .accepting transport => some (listener.queued client (.ended transport) [])
      | .greeting receiving => some (listener.queued client (.ended receiving.transport) [])
      | .serving _ | .ended _ => none
  | .record =>
      match listener.submissions with
      | [] => none
      | (client, report) :: submissions =>
          let (catalog, recorded) := listener.catalog.record report
          some { listener with
            submissions := submissions
            catalog := catalog
            recorded := listener.recorded ++ [(client, recorded)]
            events := listener.events ++ [(client, .changed)] }
  | .answer =>
      match listener.requests with
      | [] => none
      | (client, request_) :: requests => some { listener with
          requests := requests
          events := listener.events ++
            ((event listener.catalog request_).toList.map fun raised => (client, raised)) }

/-- A listener whose clients send what these transports carry. -/
def start (channel : Channel J) (clients : ClientId → Transport) (capacity : Nat) :
    Listener channel where
  connections client := .accepting (clients client)
  submissions := []
  requests := []
  catalog := Catalog.new _ capacity
  recorded := []
  events := []

end Listener

/-! ## What is written -/

/-- The upgrade response or a control frame, or as much of it as was sent. -/
inductive Bare (digest : Digest) : Bytes → Prop where
  | upgrade (key : Text) (sent : Nat) :
      Bare digest ((toUtf8 (upgradeResponse digest key)).take sent)
  | pong (payload : Bytes) (sent : Nat) : Bare digest ((frameBytes OP_PONG payload).take sent)
  | close (sent : Nat) : Bare digest ((frameBytes OP_CLOSE []).take sent)

/-- No text message was written. -/
def Silent (digest : Digest) (transport : Transport) : Prop :=
  ∀ bytes ∈ transport.written, Bare digest bytes

theorem writeAll_written (transport : Transport) (bytes : Bytes) :
    ∃ sent, (transport.writeAll bytes).2.written = transport.written ++ [bytes.take sent] := by
  unfold Transport.writeAll
  split
  · rename_i error sent failures _
    exact ⟨sent, rfl⟩
  · refine ⟨bytes.length, ?_⟩
    rw [List.take_length]
  · refine ⟨bytes.length, ?_⟩
    rw [List.take_length]

variable {digest : Digest} {transport next : Transport}

section

variable (silent : Silent digest transport)
include silent

theorem Silent.append {bytes : Bytes} (bare : Bare digest bytes)
    (written : next.written = transport.written ++ [bytes]) : Silent digest next := by
  intro other member
  rw [written] at member
  rcases List.mem_append.mp member with before | last
  · exact silent other before
  · rw [List.mem_singleton.mp last]
    exact bare

theorem Silent.same (written : next.written = transport.written) :
    Silent digest next := by
  intro bytes member
  rw [written] at member
  exact silent bytes member

theorem Silent.pong (payload : Bytes) :
    Silent digest (transport.writeFrame OP_PONG payload).2 := by
  obtain ⟨sent, written⟩ := writeAll_written transport (frameBytes OP_PONG payload)
  exact silent.append (.pong payload sent) written

theorem Silent.close :
    Silent digest (transport.writeFrame OP_CLOSE []).2 := by
  obtain ⟨sent, written⟩ := writeAll_written transport (frameBytes OP_CLOSE [])
  exact silent.append (.close sent) written

end

/-- A round writes control frames only. -/
theorem Silent.turn {receiving : Receiving} (silent : Silent digest receiving.transport) :
    Silent digest receiving.turn.1.transport := by
  unfold Receiving.turn
  cases read : receiving.transport.readFrame with
  | error error => exact silent
  | ok pair =>
    obtain ⟨frame, transport⟩ := pair
    obtain ⟨_, _, _, _, _, _, unread⟩ := Transport.readFrame_ok read
    have silent' : Silent digest transport := silent.same (by rw [unread])
    dsimp only
    split
    · have ponged := silent'.pong frame.payload
      split <;> rename_i written <;> rw [written] at ponged <;> exact ponged
    · split
      · exact silent'
      · split
        · exact silent'.close
        · split
          · split
            · exact silent'
            · rw [Receiving.push_transport]
              exact silent'
          · split
            · split
              · exact silent'
              · rw [Receiving.push_transport]
                exact silent'
            · exact silent'

theorem readHead_written {count : Nat} {head bytes : Bytes}
    (h : Transport.readHead count head transport = .ok (bytes, next)) :
    next.written = transport.written := by
  induction count generalizing head transport with
  | zero => cases h
  | succ count ih =>
    unfold Transport.readHead at h
    split at h
    · split at h <;> cases h
    · dsimp only at h
      split at h
      · cases h
        rfl
      · exact (ih h).trans rfl

theorem readHandshake_ok {result : Handshake × Text}
    (h : transport.readHandshake digest = .ok (result, next)) :
    next.written = transport.written ∧ ∃ key, result.2 = upgradeResponse digest key := by
  unfold Transport.readHandshake at h
  obtain ⟨⟨bytes, after⟩, read, h⟩ := bind_ok h
  dsimp only at h
  split at h
  · cases h
  · obtain ⟨parsed, found, h⟩ := bind_ok h
    cases h
    refine ⟨readHead_written read, ?_⟩
    unfold parseHandshake at found
    split at found
    · cases found
    · split at found
      · split at found
        · cases found
        · split at found
          · cases found
          · rename_i key _
            cases found
            exact ⟨key, rfl⟩
      · cases found

/-- Only the response to the upgrade is written. -/
theorem Silent.accept (silent : Silent digest transport) :
    Silent digest (transport.accept digest).2 := by
  unfold Transport.accept
  split
  · exact silent
  · rename_i handshake response after read
    obtain ⟨same, key, upgrade⟩ := readHandshake_ok read
    dsimp only at upgrade
    obtain ⟨sent, written⟩ := writeAll_written after (toUtf8 response)
    have answered : Silent digest (after.writeAll (toUtf8 response)).2 := by
      rw [upgrade] at written ⊢
      exact (silent.same same).append (.upgrade key sent) written
    split <;> rename_i wrote <;> rw [wrote] at answered <;> exact answered

/-! ## A client without the token -/

namespace Channel

variable {J : Type} (channel : Channel J)

/-- What a client is heard to say first, where its path and its origin are accepted. -/
def Greets (transport : Transport) (message : ClientMessage J) : Prop :=
  ∃ handshake accepted text last, transport.accept channel.digest = (.ok handshake, accepted) ∧
    handshake.path = DEFAULT_PATH ∧ originAllowed handshake.origin = true ∧
    accepted.receive = (.ok (some text), last) ∧ channel.parseClientMessage text = .ok message

/-- The client is of another path or origin, or its greeting does not present the token. -/
def Outsider (transport : Transport) : Prop :=
  ∀ version offered agent, channel.Greets transport (.hello version offered agent) →
    channel.tokenMatches offered = false

/-- The first message, if one is understood, is a greeting of a version this build speaks. -/
def GreetsAsExpected (transport : Transport) : Prop :=
  ∀ message, channel.Greets transport message →
    ∃ version offered agent, message = .hello version offered agent ∧ version ≤ PROTOCOL_VERSION

/-- Where the connection of such a client can be. -/
def Kept (transport : Transport) : Connection → Prop
  | .accepting here => here = transport
  | .greeting receiving => Silent channel.digest receiving.transport ∧
      ∃ handshake accepted, transport.accept channel.digest = (.ok handshake, accepted) ∧
        handshake.path = DEFAULT_PATH ∧ originAllowed handshake.origin = true ∧
        accepted.receive = receiving.run
  | .serving _ => False
  | .ended last => Silent channel.digest last

variable {channel} {transport : Transport} {connection next : Connection}
  {effects : List (Effect J channel)} {answers : Answers}

theorem kept_accepted (silent : Silent channel.digest transport) :
    channel.Kept transport (channel.accepted transport) := by
  have accepted_ := silent.accept
  unfold accepted
  cases accepts : transport.accept channel.digest with
  | mk result after =>
    rw [accepts] at accepted_
    cases result with
    | error error => exact accepted_
    | ok handshake =>
      dsimp only
      split
      · exact accepted_
      · rename_i path
        split
        · exact accepted_
        · rename_i origin
          exact ⟨accepted_, handshake, after, accepts, not_not.mp path,
            Bool.of_not_eq_false origin, rfl⟩

/-- Every turn of the connection causes nothing and stays silent. -/
theorem kept_turn (outsider : channel.Outsider transport)
    (expected : channel.GreetsAsExpected transport) (silent : Silent channel.digest transport)
    (kept : channel.Kept transport connection)
    (turned : channel.turn answers connection = some (next, effects)) :
    channel.Kept transport next ∧ effects = [] := by
  cases connection with
  | accepting here =>
    cases turned
    rw [show here = transport from kept]
    exact ⟨kept_accepted silent, rfl⟩
  | greeting receiving =>
    obtain ⟨silent', handshake, accepted, accepts, path, origin, heard⟩ := kept
    have later := silent'.turn
    unfold turn at turned
    dsimp only at turned
    cases round : receiving.turn with
    | mk after outcome =>
      rw [round] at turned later
      match outcome with
      | none =>
        cases turned
        exact ⟨⟨later, handshake, accepted, accepts, path, origin,
          heard.trans (Receiving.run_of_going round)⟩, rfl⟩
      | some (.error error) =>
        cases turned
        exact ⟨later, rfl⟩
      | some (.ok none) =>
        cases turned
        exact ⟨later, rfl⟩
      | some (.ok (some text)) =>
        cases turned
        refine ⟨?_, rfl⟩
        rw [Receiving.run_of_returned round] at heard
        unfold greet
        cases parsed : channel.parseClientMessage text with
        | error error => exact later
        | ok message =>
          have greets : channel.Greets transport message :=
            ⟨handshake, accepted, text, after.transport, accepts, path, origin, heard, parsed⟩
          obtain ⟨version, offered, agent, same, spoken⟩ := expected message greets
          rw [same] at greets
          rw [same]
          dsimp only
          rw [if_neg (Nat.not_lt.mpr spoken), if_pos (outsider version offered agent greets)]
          exact later
  | serving receiving => exact kept.elim
  | ended last => cases turned

end Channel

namespace Listener

variable {J : Type} {channel : Channel J}

/-- Nothing comes from the client, and no text message was written to it. -/
structure Untouched (listener : Listener channel) (client : ClientId) : Prop where
  submissions : ∀ entry ∈ listener.submissions, entry.1 ≠ client
  requests : ∀ entry ∈ listener.requests, entry.1 ≠ client
  recorded : ∀ entry ∈ listener.recorded, entry.1 ≠ client
  events : ∀ entry ∈ listener.events, entry.1 ≠ client
  silent : Silent channel.digest (listener.connections client).transport

structure Kept (listener : Listener channel) (client : ClientId) (transport : Transport) : Prop where
  submissions : ∀ entry ∈ listener.submissions, entry.1 ≠ client
  requests : ∀ entry ∈ listener.requests, entry.1 ≠ client
  recorded : ∀ entry ∈ listener.recorded, entry.1 ≠ client
  events : ∀ entry ∈ listener.events, entry.1 ≠ client
  connection : channel.Kept transport (listener.connections client)

variable {listener next : Listener channel} {client : ClientId} {transport : Transport}

section

variable (kept : listener.Kept client transport)
include kept

theorem Kept.untouched (silent : Silent channel.digest transport) : listener.Untouched client where
  submissions := kept.submissions
  requests := kept.requests
  recorded := kept.recorded
  events := kept.events
  silent := by
    have connection := kept.connection
    cases at_ : listener.connections client with
    | accepting here =>
      rw [at_] at connection
      exact (show here = transport from connection) ▸ silent
    | greeting receiving =>
      rw [at_] at connection
      exact connection.1
    | serving receiving =>
      rw [at_] at connection
      exact connection.elim
    | ended last =>
      rw [at_] at connection
      exact connection

omit kept in
theorem tagged_append {α : Type} {entries : List (ClientId × α)} {causes : List α}
    {actor : ClientId} (before : ∀ entry ∈ entries, entry.1 ≠ client)
    (other : actor = client → causes = []) :
    ∀ entry ∈ entries ++ causes.map (fun cause => (actor, cause)), entry.1 ≠ client := by
  intro entry member
  rcases List.mem_append.mp member with old | new
  · exact before entry old
  · obtain ⟨cause, inside, same⟩ := List.mem_map.mp new
    rw [← same]
    intro acts
    rw [other acts] at inside
    cases inside

/-- A client that is kept causes nothing; another one changes nothing of it. -/
theorem Kept.queued {actor : ClientId} {connection : Connection} {effects : List (Effect J channel)}
    (own : actor = client → channel.Kept transport connection ∧ effects = []) :
    (listener.queued actor connection effects).Kept client transport where
  submissions := tagged_append kept.submissions fun acts => by rw [(own acts).2]; rfl
  requests := tagged_append kept.requests fun acts => by rw [(own acts).2]; rfl
  recorded := kept.recorded
  events := kept.events
  connection := by
    change channel.Kept transport (if client = actor then connection else listener.connections client)
    split
    · rename_i acts
      exact (own acts.symm).1
    · exact kept.connection

theorem Kept.step (outsider : channel.Outsider transport)
    (expected : channel.GreetsAsExpected transport) (silent : Silent channel.digest transport)
    {action : ListenerAction} (stepped : listener.step action = some next) :
    next.Kept client transport := by
  cases action with
  | turn actor answers =>
    obtain ⟨⟨connection, effects⟩, turned, same⟩ := Option.map_eq_some_iff.mp stepped
    rw [← same]
    apply kept.queued
    intro acts
    rw [acts] at turned
    exact Channel.kept_turn outsider expected silent kept.connection turned
  | timeout actor =>
    simp only [Listener.step] at stepped
    split at stepped
    · rename_i here at_
      cases stepped
      apply kept.queued
      intro acts
      have connection := kept.connection
      rw [← acts, at_] at connection
      exact ⟨(show here = transport from connection) ▸ silent, rfl⟩
    · rename_i receiving at_
      cases stepped
      apply kept.queued
      intro acts
      have connection := kept.connection
      rw [← acts, at_] at connection
      exact ⟨connection.1, rfl⟩
    · cases stepped
    · cases stepped
  | record =>
    simp only [Listener.step] at stepped
    split at stepped
    · cases stepped
    · rename_i actor report submissions queue
      cases stepped
      have entries := kept.submissions
      rw [queue] at entries
      have other := entries _ List.mem_cons_self
      refine ⟨fun entry member => entries entry (List.mem_cons_of_mem _ member), kept.requests, ?_, ?_,
        kept.connection⟩
      · exact List.forall_mem_append.mpr ⟨kept.recorded, List.forall_mem_singleton.mpr other⟩
      · exact List.forall_mem_append.mpr ⟨kept.events, List.forall_mem_singleton.mpr other⟩
  | answer =>
    simp only [Listener.step] at stepped
    split at stepped
    · cases stepped
    · rename_i actor asked requests queue
      cases stepped
      have entries := kept.requests
      rw [queue] at entries
      have other := entries _ List.mem_cons_self
      exact ⟨kept.submissions, fun entry member => entries entry (List.mem_cons_of_mem _ member),
        kept.recorded, tagged_append kept.events fun acts => absurd acts other, kept.connection⟩

end

theorem kept_run (outsider : channel.Outsider transport)
    (expected : channel.GreetsAsExpected transport) (silent : Silent channel.digest transport)
    {actions : List ListenerAction} {final : Listener channel}
    (kept : listener.Kept client transport)
    (ran : Machine.run Listener.step listener actions = some final) :
    final.Kept client transport := by
  induction actions generalizing listener with
  | nil =>
    cases ran
    exact kept
  | cons action actions ih =>
    obtain ⟨next, stepped, ran⟩ := Option.bind_eq_some_iff.mp ran
    exact ih (kept.step outsider expected silent stepped) ran

/-- Whatever the clients do, one without the token, or of another path or origin, records
nothing, raises nothing and is told nothing, if it greets as expected. -/
theorem outsider_untouched {clients : ClientId → Transport} {capacity : Nat}
    {client : ClientId} {actions : List ListenerAction} {final : Listener channel}
    (fresh : (clients client).written = []) (outsider : channel.Outsider (clients client))
    (expected : channel.GreetsAsExpected (clients client))
    (ran : Machine.run Listener.step (start channel clients capacity) actions = some final) :
    final.Untouched client := by
  have silent : Silent channel.digest (clients client) := by
    intro bytes member
    rw [fresh] at member
    cases member
  have started : (start channel clients capacity).Kept client (clients client) :=
    ⟨(fun _ member => nomatch member), (fun _ member => nomatch member),
      (fun _ member => nomatch member), (fun _ member => nomatch member), rfl⟩
  exact (kept_run outsider expected silent started ran).untouched silent

end Listener

/-! ## Two clients without the token -/

theorem Bare.head {bytes : Bytes} (bare : Bare digest bytes) :
    bytes.head? = none ∨ bytes.head? = some 0x48 ∨ bytes.head? = some 0x8A ∨
      bytes.head? = some 0x88 := by
  cases bare with
  | upgrade key sent =>
    cases sent with
    | zero => exact .inl rfl
    | succ sent => exact .inr (.inl rfl)
  | pong payload sent =>
    cases sent with
    | zero => exact .inl rfl
    | succ sent => exact .inr (.inr (.inl rfl))
  | close sent =>
    cases sent with
    | zero => exact .inl rfl
    | succ sent => exact .inr (.inr (.inr rfl))

/-- What a client greets is decided by what it sends. -/
theorem Channel.Greets.parsed {J : Type} {channel : Channel J} {transport : Transport}
    {message : ClientMessage J} (greets : channel.Greets transport message) {handshake : Handshake}
    {accepted last : Transport} {text : Text}
    (accepts : transport.accept channel.digest = (.ok handshake, accepted))
    (heard : accepted.receive = (.ok (some text), last)) :
    channel.parseClientMessage text = .ok message := by
  obtain ⟨_, _, _, _, accepts', _, _, heard', parsed⟩ := greets
  rw [accepts] at accepts'
  cases accepts'
  rw [heard] at heard'
  cases heard'
  exact parsed

/-- A channel whose clients send one letter: `A` greets in this version, `B` in the next one,
neither with the token. -/
def letterChannel : Channel Unit where
  token := List.replicate 64 '0'
  digest := ⟨id, fun _ => "accepted".toList⟩
  pages := Gundad.cdnPages
  parse text :=
    if text = ['A'] then some (.hello 3 "guess".toList [])
    else if text = ['B'] then some (.hello 4 "guess".toList []) else none
  encode
    | .refused reason => reason.text
    | _ => []
  sourceReports _ _ _ _ := .error .unsupportedSource

def upgradeHead : Text :=
  "GET /capture HTTP/1.1\r\nUpgrade: websocket\r\nConnection: Upgrade\r\n".toList ++
    "Sec-WebSocket-Key: key\r\nSec-WebSocket-Version: 13\r\n\r\n".toList

/-- The upgrade and one masked text frame. -/
def letterClient (letter : UInt8) : Transport where
  incoming := [toUtf8 upgradeHead, [0x81, 0x81, 0, 0, 0, 0, letter]]
  ending := .unexpectedEof
  failures := []
  written := []

def letterAccepted (letter : UInt8) : Transport where
  incoming := [[0x81, 0x81, 0, 0, 0, 0, letter]]
  ending := .unexpectedEof
  failures := []
  written := [toUtf8 (upgradeResponse letterChannel.digest "key".toList)]

deriving instance DecidableEq for Transport

variable {letter : UInt8}

section

variable (one : letter = 65 ∨ letter = 66)
include one

theorem letter_accept :
    (letterClient letter).accept letterChannel.digest =
      (.ok ⟨DEFAULT_PATH, none⟩, letterAccepted letter) := by
  rcases one with same | same <;> rw [same] <;> decide +kernel

theorem letter_received :
    (letterAccepted letter).receive =
      (.ok (some [Char.ofNat letter.toNat]), { letterAccepted letter with incoming := [] }) := by
  have returned : (⟨letterAccepted letter, [], false⟩ : Receiving).turn =
      (⟨{ letterAccepted letter with incoming := [] }, [letter], true⟩,
        some (.ok (some [Char.ofNat letter.toNat]))) := by
    rcases one with same | same <;> rw [same] <;> rfl
  exact Receiving.run_of_returned returned

theorem letter_greets {message : ClientMessage Unit}
    (greets : letterChannel.Greets (letterClient letter) message) :
    letterChannel.parseClientMessage [Char.ofNat letter.toNat] = .ok message :=
  greets.parsed (letter_accept one) (letter_received one)

theorem letter_outsider :
    letterChannel.Outsider (letterClient letter) := by
  intro version offered agent greets
  have parsed := letter_greets one greets
  rcases one with same | same
  · rw [same] at parsed
    cases parsed
    decide +kernel
  · rw [same] at parsed
    cases parsed
    decide +kernel

end

/-- Both turns of the first client, and nothing else. -/
def bothTurns : List ListenerAction :=
  [.turn 0 ⟨[], none, none, none⟩, .turn 0 ⟨[], none, none, none⟩]

theorem wrong_token_untouched : ∃ final : Listener letterChannel,
    Machine.run Listener.step (.start letterChannel (fun _ => letterClient 65) 256) bothTurns =
        some final ∧ final.Untouched 0 := by
  have outsider : letterChannel.Outsider (letterClient 65) := letter_outsider (Or.inl rfl)
  have expected : letterChannel.GreetsAsExpected (letterClient 65) := by
    intro message greets
    have parsed := letter_greets (Or.inl rfl) greets
    cases parsed
    exact ⟨3, _, _, rfl, Nat.le_refl 3⟩
  have started : (Machine.run Listener.step
      (.start letterChannel (fun _ => letterClient 65) 256) bothTurns).isSome = true := by
    decide +kernel
  obtain ⟨final, ran⟩ := Option.isSome_iff_exists.mp started
  exact ⟨final, ran, @Listener.outsider_untouched _ letterChannel (fun _ => letterClient 65) 256 0
    bothTurns final rfl outsider expected ran⟩

/-- A client without the token is told that its version is too new. -/
theorem newer_version_answered :
    letterChannel.Outsider (letterClient 66) ∧ ∃ final : Listener letterChannel,
      Machine.run Listener.step (.start letterChannel (fun _ => letterClient 66) 256) bothTurns =
          some final ∧
        frameBytes OP_TEXT (toUtf8 (Refusal.text .unsupportedVersion)) ∈
          (final.connections 0).transport.written ∧ ¬ final.Untouched 0 := by
  refine ⟨letter_outsider (Or.inr rfl), ?_⟩
  have started : (Machine.run Listener.step
      (.start letterChannel (fun _ => letterClient 66) 256) bothTurns).map
        (fun final => (final.connections 0).transport.written) =
      some ((letterAccepted 66).written ++
        [frameBytes OP_TEXT (toUtf8 (Refusal.text .unsupportedVersion)), frameBytes OP_CLOSE []]) := by
    decide +kernel
  obtain ⟨final, ran, same⟩ := Option.map_eq_some_iff.mp started
  have written : frameBytes OP_TEXT (toUtf8 (Refusal.text .unsupportedVersion)) ∈
      (final.connections 0).transport.written := by
    rw [same]
    exact List.mem_append_right _ List.mem_cons_self
  refine ⟨final, ran, written, fun untouched => ?_⟩
  rcases (untouched.silent _ written).head with bare | bare | bare | bare <;> cases bare

end Gunda.Capture

import Gunda.Extension.Background
import Gunda.Lib.Machine

/-!
# Sockets of the background worker

`connect`, `scheduleReconnect` and `disconnect` of `background.ts`, with the handlers of
every socket ever created. A socket is created after the settings were looked up, and its
handlers stay when another one replaces it.
-/
namespace Gunda.Extension

open Gunda.Lib
open Gunda.Capture (ServerMessage)

variable {socket : Nat}

inductive ReadyState where
  | connecting | opened | closing | closed
  deriving DecidableEq, Repr

structure PairingSettings where
  endpoint : Text
  token : Text
  deriving DecidableEq, Repr

/-- Where a call of `settings` is. -/
inductive Lookup where
  | native
  | storage
  | done (settings : PairingSettings)
  deriving DecidableEq, Repr

structure Sockets where
  sockets : List ReadyState
  connection : Option Nat
  automaticPairing : Option PairingSettings
  lookups : List Lookup
  /-- The delay a reconnect was scheduled with. -/
  reconnectTimer : Option Nat
  attempt : Nat
  background : Background
  requested : Nat
  /-- The sockets that received `ready`. -/
  readied : List Nat

inductive SocketEvent where
  /-- Whatever needs the connection calls `connect`. -/
  | connect
  | reconnect
  | forget
  | paired (lookup : Nat) (answer : Option PairingSettings)
  | stored (lookup : Nat) (settings : PairingSettings)
  /-- The settings arrive at `connect`; the constructor of the socket may throw. -/
  | settled (lookup : Nat) (constructs : Bool)
  | timer
  | opened (socket : Nat)
  | message (socket : Nat) (message : ServerMessage) (answers : Option Request)
  | closed (socket : Nat)
  | request (kind : RequestKind) (readable : Bool)
  | timeout (request : Request)
  deriving DecidableEq, Repr

namespace Sockets

def start : Sockets := ⟨[], none, none, [], none, 0, Background.start, 0, []⟩

def readyState (state : Sockets) (socket : Nat) : ReadyState :=
  (state.sockets[socket]?).getD .closed

/-- The flags all handlers share, at their first values. -/
def reset (background : Background) : Background :=
  { background with greeted := false, serverFeatures := [] }

def connect (state : Sockets) : Sockets :=
  if ∃ socket ∈ state.connection,
      state.readyState socket = .connecting ∨ state.readyState socket = .opened then state
  else
    { state with lookups := state.lookups ++ [match state.automaticPairing with
        | some settings => .done settings
        | none => .native] }

def scheduleReconnect (state : Sockets) : Sockets :=
  match state.reconnectTimer with
  | some _ => state
  | none => { state with
      reconnectTimer := some (min 30000 (1000 * 2 ^ min state.attempt 5))
      attempt := state.attempt + 1 }

/-- `close` of a socket, until its close event. -/
def closeSocket (sockets : List ReadyState) (socket : Nat) : List ReadyState :=
  match sockets[socket]? with
  | some .connecting | some .opened => sockets.set socket .closing
  | _ => sockets

def disconnect (state : Sockets) : Sockets :=
  { state with
    reconnectTimer := none
    connection := none
    automaticPairing := none
    background := reset state.background
    sockets := match state.connection with
      | some socket => closeSocket state.sockets socket
      | none => state.sockets }

/-- What `connect` does once the settings are known. -/
def settled (constructs : Bool) (settings : PairingSettings) (state : Sockets) : Sockets :=
  if settings.endpoint = [] ∨ settings.token = [] then state
  else if constructs then
    { state with
      sockets := state.sockets ++ [.connecting]
      connection := some state.sockets.length
      background := { state.background with greeted := false } }
  else state.scheduleReconnect

/-- The handler of a close event. -/
def closed (socket : Nat) (state : Sockets) : Sockets :=
  scheduleReconnect
    { state with
      connection := if state.connection = some socket then none else state.connection
      automaticPairing := none
      background := (reset state.background).failRequests socket }

def noteReady (socket : Nat) (readied : List Nat) : ServerMessage → List Nat
  | .ready _ _ => socket :: readied
  | _ => readied

def step (state : Sockets) : SocketEvent → Option Sockets
  | .connect => some state.connect
  | .reconnect | .forget => some state.disconnect.connect
  | .paired lookup answer =>
      if state.lookups[lookup]? = some .native then
        some { state with
          automaticPairing := answer
          lookups := state.lookups.set lookup (match answer with
            | some settings => .done settings
            | none => .storage) }
      else none
  | .stored lookup settings =>
      if state.lookups[lookup]? = some .storage then
        some { state with lookups := state.lookups.set lookup (.done settings) }
      else none
  | .settled lookup constructs =>
      match state.lookups[lookup]? with
      | some (.done settings) =>
          some (settled constructs settings
            { state with lookups := state.lookups.eraseIdx lookup })
      | _ => none
  | .timer => state.reconnectTimer.map fun _ => connect { state with reconnectTimer := none }
  | .opened socket =>
      if state.sockets[socket]? = some .connecting then
        some { state with sockets := state.sockets.set socket .opened, attempt := 0 }
      else none
  | .message socket message answers =>
      if state.sockets[socket]? = some .opened then
        some { state with
          background := state.background.handle message answers
          readied := noteReady socket state.readied message }
      else none
  | .closed socket =>
      if state.sockets[socket]? ≠ none ∧ state.sockets[socket]? ≠ some .closed then
        some (closed socket { state with sockets := state.sockets.set socket .closed })
      else none
  | .request kind readable =>
      match state.connection with
      | some socket =>
          if state.sockets[socket]? = some .opened ∧ state.background.greeted = true then
            some { state with
              background := state.background.push ⟨kind, state.requested, socket, readable⟩
              requested := state.requested + 1 }
          else none
      | none => none
  | .timeout request =>
      if request ∈ state.background.queues request.kind then
        some { state with background := state.background.timeOut request }
      else none

end Sockets

/-! ## What the claims of a connection need -/

/-- The connection and the flags all handlers share stay, and no request that was sent on
the current connection is resolved. -/
structure KeepsCurrent (state next : Sockets) : Prop where
  connection : next.connection = state.connection
  automaticPairing : next.automaticPairing = state.automaticPairing
  greeted : next.background.greeted = state.background.greeted
  serverFeatures : next.background.serverFeatures = state.background.serverFeatures
  requests : ∀ resolved ∈ next.background.resolved.drop state.background.resolved.length,
    state.connection ≠ some resolved.request.socket

/-- The event of a socket that is not the current connection. -/
def SocketEvent.Stale (state : Sockets) : SocketEvent → Prop
  | .message socket _ _ | .closed socket => state.connection ≠ some socket
  | _ => False

/-- Greeted means that the current connection received `ready`. -/
def Sockets.GreetedByCurrent (state : Sockets) : Prop :=
  state.background.greeted = true → ∃ socket ∈ state.connection, socket ∈ state.readied

def OneOpen (sockets : List ReadyState) : Prop :=
  ∀ first second : Nat, sockets[first]? = some ReadyState.opened →
    sockets[second]? = some ReadyState.opened → first = second

/-- What a step is to keep. -/
structure ConnectionKept (state : Sockets) (event : SocketEvent) (next : Sockets) : Prop where
  greeted : next.GreetedByCurrent
  stale : event.Stale state → KeepsCurrent state next
  oneOpen : OneOpen next.sockets

/-- A message that tells nothing new, and answers no request of the current connection. -/
def Sockets.Harmless (state : Sockets) : ServerMessage → Prop
  | .ready _ features =>
      state.background.greeted = true ∧ state.background.serverFeatures = features
  | message => ∀ kind : RequestKind, kind.answeredBy message = true →
      ∀ first ∈ (state.background.queues kind).head?, state.connection ≠ some first.socket

/-- A socket opens while no other is open; the messages of a socket that was replaced are
harmless, and it closes when nothing is greeted, remembered or waiting. -/
def Undisturbed (state : Sockets) : SocketEvent → Prop
  | .opened socket => ∀ other : Nat, state.sockets[other]? = some ReadyState.opened →
      other = socket
  | .message socket message _ => state.connection ≠ some socket → state.Harmless message
  | .closed socket => state.connection ≠ some socket →
      state.automaticPairing = none ∧ state.background.greeted = false ∧
        state.background.serverFeatures = [] ∧
        ∀ kind, ∀ request ∈ state.background.queues kind, state.connection ≠ some request.socket
  | _ => True

instance RequestKind.decideAll (holds : RequestKind → Prop) [∀ kind, Decidable (holds kind)] :
    Decidable (∀ kind, holds kind) :=
  decidable_of_iff (holds .download ∧ holds .formats ∧ holds .status)
    ⟨fun each kind => by cases kind; exacts [each.1, each.2.1, each.2.2],
      fun all_ => ⟨all_ _, all_ _, all_ _⟩⟩

instance (state : Sockets) (message : ServerMessage) : Decidable (state.Harmless message) := by
  unfold Sockets.Harmless
  split <;> infer_instance

/-- An open socket has one of the numbers that were given. -/
theorem opened_range {sockets : List ReadyState} {holds : Nat → Prop} :
    (∀ other ∈ List.range sockets.length, sockets[other]? = some .opened → holds other) ↔
      ∀ other : Nat, sockets[other]? = some ReadyState.opened → holds other := by
  constructor
  · intro within other found
    exact within other (List.mem_range.mpr (List.getElem?_eq_some_iff.mp found).1) found
  · exact fun every other _ found => every other found

instance (state : Sockets) (event : SocketEvent) : Decidable (Undisturbed state event) :=
  match event with
  | .opened socket => decidable_of_iff _ (@opened_range state.sockets (· = socket))
  | .message socket message _ =>
      inferInstanceAs (Decidable (state.connection ≠ some socket → state.Harmless message))
  | .closed socket => inferInstanceAs (Decidable (state.connection ≠ some socket →
      state.automaticPairing = none ∧ state.background.greeted = false ∧
        state.background.serverFeatures = [] ∧
        ∀ kind, ∀ request ∈ state.background.queues kind,
          state.connection ≠ some request.socket))
  | .connect | .reconnect | .forget | .paired _ _ | .stored _ _ | .settled _ _ | .timer
  | .request _ _ | .timeout _ => isTrue trivial

/-! ## Single operations -/

theorem scheduleReconnect_cases (state : Sockets) :
    ∃ timer attempt, state.scheduleReconnect =
      { state with reconnectTimer := timer, attempt := attempt } := by
  unfold Sockets.scheduleReconnect
  split
  · exact ⟨_, _, rfl⟩
  · exact ⟨_, _, rfl⟩

theorem connect_cases (state : Sockets) :
    ∃ lookups, state.connect = { state with lookups := lookups } := by
  unfold Sockets.connect
  split
  · exact ⟨_, rfl⟩
  · exact ⟨_, rfl⟩

variable {sockets : List ReadyState} {state : Sockets}

/-- A socket that is set to another state than open leaves no other open. -/
theorem OneOpen.set (one : OneOpen sockets) (socket : Nat) {readyState : ReadyState}
    (different : readyState ≠ .opened) :
    OneOpen (sockets.set socket readyState) := by
  have before : ∀ index : Nat, (sockets.set socket readyState)[index]? = some ReadyState.opened →
      sockets[index]? = some ReadyState.opened := by
    intro index found
    rw [List.getElem?_set] at found
    split at found
    · split at found
      · exact absurd (Option.some.inj found) different
      · cases found
    · exact found
  intro first second isOpen alsoOpen
  exact one first second (before first isOpen) (before second alsoOpen)

theorem OneOpen.closeSocket (one : OneOpen sockets) (socket : Nat) :
    OneOpen (Sockets.closeSocket sockets socket) := by
  unfold Sockets.closeSocket
  split
  · exact one.set socket (by decide)
  · exact one.set socket (by decide)
  · exact one

theorem OneOpen.disconnect (one : OneOpen state.sockets) :
    OneOpen state.disconnect.sockets := by
  unfold Sockets.disconnect
  simp only
  split
  · exact one.closeSocket _
  · exact one

theorem OneOpen.append (one : OneOpen sockets) :
    OneOpen (sockets ++ [.connecting]) := by
  have before : ∀ index : Nat, (sockets ++ [ReadyState.connecting])[index]? =
      some ReadyState.opened → sockets[index]? = some ReadyState.opened := by
    intro index found
    rw [List.getElem?_append] at found
    split at found
    · exact found
    · have member := List.mem_of_getElem? found
      cases List.mem_singleton.mp member
  intro first second isOpen alsoOpen
  exact one first second (before first isOpen) (before second alsoOpen)

/-- After an open event, one socket is open exactly where no other was. -/
theorem oneOpen_opened (connecting : sockets[socket]? = some .connecting) :
    OneOpen (sockets.set socket .opened) ↔
      ∀ other : Nat, sockets[other]? = some ReadyState.opened → other = socket := by
  have bound := (List.getElem?_eq_some_iff.mp connecting).1
  have found : ∀ index : Nat, (sockets.set socket ReadyState.opened)[index]? =
      some ReadyState.opened ↔
        index = socket ∨ sockets[index]? = some ReadyState.opened := by
    intro index
    rw [List.getElem?_set]
    by_cases same : socket = index
    · rw [if_pos same, if_pos bound]
      exact ⟨fun _ => Or.inl same.symm, fun _ => rfl⟩
    · rw [if_neg same]
      exact ⟨Or.inr, fun either => either.resolve_left (Ne.symm same)⟩
  constructor
  · intro one other isOpen
    exact one other socket ((found other).mpr (Or.inr isOpen)) ((found socket).mpr (Or.inl rfl))
  · intro alone first second isOpen alsoOpen
    have firstIs : first = socket := by
      rcases (found first).mp isOpen with same | was
      · exact same
      · exact alone first was
    have secondIs : second = socket := by
      rcases (found second).mp alsoOpen with same | was
      · exact same
      · exact alone second was
    rw [firstIs, secondIs]

/-! ## Messages and ends of sockets that were replaced -/

/-- A message keeps what is current exactly where it is harmless. -/
theorem keepsCurrent_message {state : Sockets} (message : ServerMessage)
    (answers : Option Request) (readied : List Nat) :
    KeepsCurrent state { state with
      background := state.background.handle message answers, readied := readied } ↔
      state.Harmless message := by
  by_cases ready : ∃ version features, message = .ready version features
  · obtain ⟨version, features, rfl⟩ := ready
    constructor
    · intro kept
      exact ⟨kept.greeted.symm, kept.serverFeatures.symm⟩
    · rintro ⟨greeted, same⟩
      refine ⟨rfl, rfl, greeted.symm, same.symm, ?_⟩
      intro resolved member
      change resolved ∈ state.background.resolved.drop state.background.resolved.length at member
      rw [List.drop_length] at member
      cases member
  · have harmless : state.Harmless message ↔ ∀ kind : RequestKind,
        kind.answeredBy message = true →
          ∀ first ∈ (state.background.queues kind).head?,
            state.connection ≠ some first.socket := by
      cases message with
      | ready version features => exact absurd ⟨version, features, rfl⟩ ready
      | _ => exact Iff.rfl
    rw [harmless]
    by_cases answer : ∃ kind : RequestKind, kind.answeredBy message = true
    · obtain ⟨kind, answered⟩ := answer
      have only : ∀ other : RequestKind, other.answeredBy message = true → other = kind :=
        fun other alike => RequestKind.eq_of_answeredBy alike answered
      obtain ⟨response, same⟩ := handle_answer answered
      rw [same]
      cases waiting : state.background.queues kind with
      | nil =>
        rw [finishRequest_nil waiting]
        constructor
        · intro _ other alike first head
          rw [only other alike, waiting] at head
          cases head
        · intro _
          refine ⟨rfl, rfl, rfl, rfl, ?_⟩
          intro resolved member
          change resolved ∈ state.background.resolved.drop _ at member
          rw [List.drop_length] at member
          cases member
      | cons first later =>
        rw [finishRequest_cons waiting]
        constructor
        · intro kept other alike head isHead
          rw [only other alike, waiting] at isHead
          cases isHead
          apply kept.requests ⟨first, .reply answers, response⟩
          change _ ∈ (state.background.resolved ++ _).drop state.background.resolved.length
          rw [List.drop_left]
          exact List.mem_cons_self
        · intro apart
          refine ⟨rfl, rfl, rfl, rfl, ?_⟩
          intro resolved member
          change resolved ∈ (state.background.resolved ++ _).drop state.background.resolved.length
            at member
          rw [List.drop_left] at member
          rw [List.mem_singleton.mp member]
          exact apart kind answered first (by rw [waiting]; rfl)
    · have unchanged : state.background.handle message answers = state.background := by
        cases message with
        | ready version features => exact absurd ⟨version, features, rfl⟩ ready
        | accepted | duplicate | recorded | refused | malformed => rfl
        | downloadQueued | downloadUnavailable => exact absurd ⟨.download, rfl⟩ answer
        | pageFormats | formatsUnavailable => exact absurd ⟨.formats, rfl⟩ answer
        | downloadStatus | downloadStatusUnavailable => exact absurd ⟨.status, rfl⟩ answer
      rw [unchanged]
      constructor
      · intro _ kind answered
        exact absurd ⟨kind, answered⟩ answer
      · intro _
        refine ⟨rfl, rfl, rfl, rfl, ?_⟩
        intro resolved member
        change resolved ∈ state.background.resolved.drop _ at member
        rw [List.drop_length] at member
        cases member

/-- The end of a replaced socket keeps what is current exactly where there is nothing to lose. -/
theorem keepsCurrent_closed (replaced : state.connection ≠ some socket)
    (sockets : List ReadyState) :
    KeepsCurrent state (Sockets.closed socket { state with sockets := sockets }) ↔
      state.automaticPairing = none ∧ state.background.greeted = false ∧
        state.background.serverFeatures = [] ∧
        ∀ kind, ∀ request ∈ state.background.queues kind,
          state.connection ≠ some request.socket := by
  unfold Sockets.closed
  obtain ⟨timer, attempt, same⟩ := scheduleReconnect_cases
    { state with
      sockets := sockets
      connection := if state.connection = some socket then none else state.connection
      automaticPairing := none
      background := (Sockets.reset state.background).failRequests socket }
  rw [same]
  have dropped : ((Sockets.reset state.background).failRequests socket).resolved.drop
      state.background.resolved.length =
        (state.background.queues .download ++ state.background.queues .formats ++
          state.background.queues .status).map fun request =>
            ⟨request, .close socket, .unavailable "connection_closed".toList⟩ :=
    List.drop_left
  constructor
  · intro kept
    refine ⟨kept.automaticPairing.symm, kept.greeted.symm, kept.serverFeatures.symm, ?_⟩
    intro kind request waiting
    apply kept.requests ⟨request, .close socket, .unavailable "connection_closed".toList⟩
    change _ ∈ ((Sockets.reset state.background).failRequests socket).resolved.drop _
    rw [dropped]
    apply List.mem_map_of_mem
    simp only [List.mem_append]
    cases kind with
    | download => exact Or.inl (Or.inl waiting)
    | formats => exact Or.inl (Or.inr waiting)
    | status => exact Or.inr waiting
  · rintro ⟨pairing, greeted, features, apart⟩
    refine ⟨if_neg replaced, pairing.symm, greeted.symm, features.symm, ?_⟩
    intro resolved member
    change resolved ∈ ((Sockets.reset state.background).failRequests socket).resolved.drop _
      at member
    rw [dropped] at member
    obtain ⟨request, waiting, made⟩ := List.mem_map.mp member
    rw [← made]
    simp only [List.mem_append] at waiting
    rcases waiting with (waiting | waiting) | waiting
    · exact apart .download request waiting
    · exact apart .formats request waiting
    · exact apart .status request waiting

/-! ## Steps and runs -/

structure Sockets.Orderly (state : Sockets) : Prop where
  greeted : state.GreetedByCurrent
  oneOpen : OneOpen state.sockets

/-- A step of the current socket, or of none. -/
theorem kept_of_current {next : Sockets} {event : SocketEvent} (current : ¬ event.Stale state)
    (greeted : next.GreetedByCurrent) (oneOpen : OneOpen next.sockets) :
    ConnectionKept state event next :=
  ⟨greeted, fun stale => absurd stale current, oneOpen⟩

theorem orderly_connect (orderly : state.Orderly) : state.connect.Orderly := by
  obtain ⟨lookups, same⟩ := connect_cases state
  rw [same]
  exact ⟨orderly.greeted, orderly.oneOpen⟩

theorem orderly_disconnect (orderly : state.Orderly) :
    state.disconnect.Orderly := by
  refine ⟨?_, orderly.oneOpen.disconnect⟩
  intro greeted
  cases greeted

theorem orderly_settled (orderly : state.Orderly) (constructs : Bool) (settings : PairingSettings) :
    (Sockets.settled constructs settings state).Orderly := by
  unfold Sockets.settled
  split
  · exact orderly
  · split
    · refine ⟨?_, orderly.oneOpen.append⟩
      intro greeted
      cases greeted
    · obtain ⟨timer, attempt, same⟩ := scheduleReconnect_cases state
      rw [same]
      exact ⟨orderly.greeted, orderly.oneOpen⟩

theorem handle_greeted {message : ServerMessage} (answers : Option Request)
    (background : Background) (known : ∀ version features, message ≠ .ready version features) :
    (background.handle message answers).greeted = background.greeted := by
  have finished : ∀ kind response,
      (Background.finishRequest kind answers response background).greeted = background.greeted := by
    intro kind response
    unfold Background.finishRequest
    split <;> rfl
  cases message with
  | ready version features => exact absurd rfl (known version features)
  | accepted | duplicate | recorded | refused | malformed => rfl
  | _ => exact finished _ _

theorem greeted_message {message : ServerMessage} {answers : Option Request}
    (greeted : state.GreetedByCurrent)
    (undisturbed : state.connection ≠ some socket → state.Harmless message) :
    Sockets.GreetedByCurrent { state with
      background := state.background.handle message answers
      readied := Sockets.noteReady socket state.readied message } := by
  intro now
  by_cases ready : ∃ version features, message = .ready version features
  · obtain ⟨version, features, rfl⟩ := ready
    by_cases current : state.connection = some socket
    · exact ⟨socket, current, List.mem_cons_self⟩
    · obtain ⟨other, connected, known⟩ := greeted (undisturbed current).1
      exact ⟨other, connected, List.mem_cons_of_mem _ known⟩
  · have known : ∀ version features, message ≠ .ready version features :=
      fun version features same => ready ⟨version, features, same⟩
    change (state.background.handle message answers).greeted = true at now
    rw [handle_greeted answers state.background known] at now
    have unnoted : Sockets.noteReady socket state.readied message = state.readied := by
      cases message with
      | ready version features => exact absurd rfl (known version features)
      | _ => rfl
    rw [unnoted]
    exact greeted now

theorem orderly_closed (oneOpen : OneOpen state.sockets) (socket : Nat) :
    (Sockets.closed socket
      { state with sockets := state.sockets.set socket .closed }).Orderly := by
  unfold Sockets.closed
  obtain ⟨timer, attempt, same⟩ := scheduleReconnect_cases
    { state with
      sockets := state.sockets.set socket .closed
      connection := if state.connection = some socket then none else state.connection
      automaticPairing := none
      background := (Sockets.reset state.background).failRequests socket }
  rw [same]
  refine ⟨?_, oneOpen.set socket (by decide)⟩
  intro greeted
  cases greeted

/-- A step keeps the connection exactly where it is undisturbed. -/
theorem Sockets.Orderly.step {state next : Sockets} {event : SocketEvent}
    (orderly : state.Orderly) (stepped : state.step event = some next) :
    ConnectionKept state event next ↔ Undisturbed state event := by
  have quiet : ∀ {state' : Sockets}, ¬ event.Stale state → Undisturbed state event →
      state'.Orderly → (ConnectionKept state event state' ↔ Undisturbed state event) :=
    fun current undisturbed kept =>
      ⟨fun _ => undisturbed, fun _ => kept_of_current current kept.greeted kept.oneOpen⟩
  cases event with
  | connect =>
    cases stepped
    exact quiet id trivial (orderly_connect orderly)
  | reconnect | forget =>
    cases stepped
    exact quiet id trivial (orderly_connect (orderly_disconnect orderly))
  | paired lookup answer | stored lookup settings =>
    simp only [Sockets.step] at stepped
    split at stepped
    · cases stepped
      exact quiet id trivial ⟨orderly.greeted, orderly.oneOpen⟩
    · cases stepped
  | settled lookup constructs =>
    simp only [Sockets.step] at stepped
    split at stepped
    · cases stepped
      rename_i settings _
      have kept : Sockets.Orderly { state with lookups := state.lookups.eraseIdx lookup } :=
        ⟨orderly.greeted, orderly.oneOpen⟩
      exact quiet id trivial (orderly_settled kept constructs settings)
    · cases stepped
  | timer =>
    obtain ⟨_, _, same⟩ := Option.map_eq_some_iff.mp stepped
    rw [← same]
    exact quiet id trivial (orderly_connect ⟨orderly.greeted, orderly.oneOpen⟩)
  | opened socket =>
    simp only [Sockets.step] at stepped
    split at stepped
    · rename_i connecting
      cases stepped
      have alone := oneOpen_opened connecting
      constructor
      · intro kept
        exact alone.mp kept.oneOpen
      · intro undisturbed
        exact kept_of_current id orderly.greeted (alone.mpr undisturbed)
    · cases stepped
  | message socket message answers =>
    simp only [Sockets.step] at stepped
    split at stepped
    · cases stepped
      have keeps := @keepsCurrent_message state message answers
        (Sockets.noteReady socket state.readied message)
      constructor
      · intro kept replaced
        exact keeps.mp (kept.stale replaced)
      · intro undisturbed
        refine ⟨?_, fun replaced => keeps.mpr (undisturbed replaced), orderly.oneOpen⟩
        exact greeted_message orderly.greeted undisturbed
    · cases stepped
  | closed socket =>
    simp only [Sockets.step] at stepped
    split at stepped
    · cases stepped
      obtain ⟨greeted, oneOpen⟩ := orderly_closed orderly.oneOpen socket
      constructor
      · intro kept replaced
        exact (keepsCurrent_closed replaced _).mp (kept.stale replaced)
      · intro undisturbed
        exact ⟨greeted, fun replaced => (keepsCurrent_closed replaced _).mpr (undisturbed replaced),
          oneOpen⟩
    · cases stepped
  | request kind readable =>
    simp only [Sockets.step] at stepped
    split at stepped
    · split at stepped
      · cases stepped
        exact quiet id trivial ⟨orderly.greeted, orderly.oneOpen⟩
      · cases stepped
    · cases stepped
  | timeout request =>
    simp only [Sockets.step] at stepped
    split at stepped
    · cases stepped
      exact quiet id trivial ⟨orderly.greeted, orderly.oneOpen⟩
    · cases stepped

theorem orderly_start : Sockets.start.Orderly where
  greeted greeted := by cases greeted
  oneOpen first second found := by cases found

/-- Every step keeps the connection, whatever it leads to. -/
def StepKept (state : Sockets) (event : SocketEvent) : Prop :=
  ∀ next, state.step event = some next → ConnectionKept state event next

/-- In every run the connection is kept at every step exactly where no step is disturbed. -/
theorem connection_kept {events : List SocketEvent} {final : Sockets}
    (ran : Machine.run Sockets.step Sockets.start events = some final) :
    Machine.Meets Sockets.step StepKept Sockets.start events ↔
      Machine.Meets Sockets.step Undisturbed Sockets.start events := by
  apply Machine.meets_congr (I := Sockets.Orderly) _ orderly_start ran
  intro state event next orderly stepped
  have kept := orderly.step stepped
  refine ⟨Iff.trans ⟨fun held => held next stepped, ?_⟩ kept, fun undisturbed => ?_⟩
  · intro now other same
    cases stepped.symm.trans same
    exact now
  · have held := kept.mpr undisturbed
    exact ⟨held.greeted, held.oneOpen⟩

/-! ## Reconnecting -/

def samplePairing : PairingSettings := ⟨"ws://127.0.0.1:1".toList, "token".toList⟩

/-- The first socket is greeted, and replaced on request of the options page. -/
def reconnected : List SocketEvent :=
  [.connect, .paired 0 (some samplePairing), .settled 0 true, .opened 0,
    .message 0 (.ready 3 []) none, .reconnect]

/-- The first socket closes before the second one is made. -/
def closedBefore : List SocketEvent :=
  reconnected ++ [.closed 0, .paired 0 (some samplePairing), .settled 0 true, .opened 1,
    .message 1 (.ready 3 []) none]

theorem closed_before_kept :
    ∃ final, Machine.run Sockets.step Sockets.start closedBefore = some final ∧
      Machine.Meets Sockets.step StepKept Sockets.start closedBefore := by
  have possible : (Machine.run Sockets.step Sockets.start closedBefore).isSome := by
    decide +kernel
  obtain ⟨final, ran⟩ := Option.isSome_iff_exists.mp possible
  exact ⟨final, ran, (connection_kept ran).mpr (by decide +kernel)⟩

/-- The first socket closes after the second one was greeted and formats were asked for. -/
def closedAfter : List SocketEvent :=
  reconnected ++ [.paired 0 (some samplePairing), .settled 0 true, .opened 1,
    .message 1 (.ready 3 []) none, .request .formats true, .closed 0]

theorem closed_after_fails_request :
    ∃ final, Machine.run Sockets.step Sockets.start closedAfter = some final ∧
      final.connection = some 1 ∧ final.sockets[1]? = some .opened ∧
      final.background.greeted = false ∧
      ⟨⟨.formats, 0, 1, true⟩, .close 0, .unavailable "connection_closed".toList⟩ ∈
        final.background.resolved := by
  have last : (Machine.run Sockets.step Sockets.start closedAfter).map (fun final =>
      (final.connection, final.sockets[1]?, final.background.greeted,
        final.background.resolved)) =
      some (some 1, some .opened, false, [⟨⟨.formats, 0, 1, true⟩, .close 0,
        .unavailable "connection_closed".toList⟩]) := by decide +kernel
  obtain ⟨final, ran, observed⟩ := Option.map_eq_some_iff.mp last
  obtain ⟨connection, observed⟩ := Prod.mk.inj observed
  obtain ⟨isOpen, observed⟩ := Prod.mk.inj observed
  obtain ⟨greeted, resolved⟩ := Prod.mk.inj observed
  refine ⟨final, ran, connection, isOpen, greeted, ?_⟩
  rw [resolved]
  exact List.mem_cons_self

end Gunda.Extension

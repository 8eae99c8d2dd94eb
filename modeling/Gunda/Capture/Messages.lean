import Gunda.Capture.WebSocket

/-!
# What a connection receives

Every text message arrives as it was sent, however it was split into frames and reads, and
only masked text frames and control frames are taken. A round of `receive` reads one frame.
-/
namespace Gunda.Capture

open Gunda.Lib Gunda.Lib.Text

/-- A control frame other than a close. -/
structure Control where
  ping : Bool
  payload : Bytes
  short : payload.length ≤ 125

namespace Control

def frame (control : Control) : Frame :=
  ⟨true, if control.ping then OP_PING else OP_PONG, control.payload⟩

/-- What is written for control frames: a pong for each ping. -/
def pongs (controls : List Control) : List Bytes :=
  (controls.filter (·.ping)).map fun control => frameBytes OP_PONG control.payload

end Control

/-- A part of a message, with the control frames before it. -/
structure Fragment where
  controls : List Control
  payload : Bytes

/-- The frames of a message: the first is text, the last is final. -/
def fragmentFrames : UInt8 → List Fragment → List Frame
  | _, [] => []
  | opcode, fragment :: rest =>
      fragment.controls.map Control.frame ++
        ⟨rest.isEmpty, opcode, fragment.payload⟩ :: fragmentFrames OP_CONTINUATION rest

/-- A text of a size that is accepted, in fragments. -/
structure Message where
  text : Text
  fragments : List Fragment
  nonempty : fragments ≠ []
  spells : (fragments.flatMap fun fragment => fragment.payload) = toUtf8 text
  bounded : (toUtf8 text).length ≤ MAX_MESSAGE_BYTES

namespace Message

def frames (message : Message) : List Frame := fragmentFrames OP_TEXT message.fragments

def pongs (message : Message) : List Bytes :=
  message.fragments.flatMap fun fragment => Control.pongs fragment.controls

end Message

/-- A frame as a client sends it. -/
structure Sent where
  frame : Frame
  form : LengthForm
  mask : Bytes
  fits : frame.payload.length < form.bound
  four : mask.length = 4

def Sent.bytes (sent : Sent) : Bytes := sent.frame.encodeMasked sent.form sent.mask

/-! ## Rounds -/

theorem frameBytes_eq (opcode : UInt8) (payload : Bytes) :
    frameBytes opcode payload = Frame.encode ⟨true, opcode, payload⟩ := by
  unfold frameBytes Frame.encode Frame.head LengthForm.least
  have medium : payload.length ≤ 65535 ↔ payload.length < 2 ^ 16 := by omega
  simp only [if_true, medium]
  congr 2
  split
  · rw [LengthForm.bytes, LengthForm.second, UInt8.zero_add]
    rfl
  · split <;> rfl

/-- The transport with less to read. -/
def Transport.after (transport : Transport) (rest : List Bytes) : Transport :=
  { transport with incoming := rest }

/-- No write fails. -/
def Transport.Healthy (transport : Transport) : Prop := ∀ failure ∈ transport.failures, failure = none

theorem Transport.Healthy.writeAll {transport : Transport} (healthy : transport.Healthy)
    (bytes : Bytes) : ∃ next, transport.writeAll bytes = (.ok (), next) ∧ next.Healthy ∧
      next.incoming = transport.incoming ∧ next.written = transport.written ++ [bytes] := by
  unfold Transport.writeAll
  cases failures : transport.failures with
  | nil =>
    refine ⟨_, rfl, ?_, rfl, rfl⟩
    intro failure member
    apply healthy failure
    rw [failures]
    exact member
  | cons first rest =>
    have none_ := healthy first (by rw [failures]; exact List.mem_cons_self)
    rw [none_]
    refine ⟨_, rfl, ?_, rfl, rfl⟩
    intro failure member
    exact healthy failure (by rw [failures]; exact List.mem_cons_of_mem _ member)

theorem writeAll_incoming (transport : Transport) (bytes : Bytes) :
    (transport.writeAll bytes).2.incoming = transport.incoming := by
  unfold Transport.writeAll
  split <;> rfl

theorem Sent.bytes_pos (sent : Sent) : 0 < sent.bytes.length := Nat.succ_pos _

namespace Receiving

variable {receiving next : Receiving} {outcome : Option Outcome} {frame : Frame}
  {transport : Transport}

theorem push_transport (receiving : Receiving) (frame : Frame) :
    (receiving.push frame).1.transport = receiving.transport := by
  unfold push
  split
  · rfl
  · dsimp only
    split <;> rfl

/-- Whatever a round does with a frame, the rest is left to read. -/
theorem turn_incoming (read : receiving.transport.readFrame = .ok (frame, transport)) :
    receiving.turn.1.transport.incoming = transport.incoming := by
  unfold turn
  rw [read]
  dsimp only
  split
  · have same := writeAll_incoming transport (frameBytes OP_PONG frame.payload)
    unfold Transport.writeFrame
    split <;> rename_i written <;> rw [written] at same <;> exact same
  · split
    · rfl
    · split
      · exact writeAll_incoming transport _
      · split
        · split
          · rfl
          · rw [push_transport]
        · split
          · split
            · rfl
            · rw [push_transport]
          · rfl

section

variable (turned : receiving.turn = (next, outcome))
  (accepted : ∀ error, outcome ≠ some (.error error))
include turned accepted

theorem read_of_turn :
    ∃ frame transport, receiving.transport.readFrame = .ok (frame, transport) := by
  cases read : receiving.transport.readFrame with
  | ok pair => exact ⟨pair.1, pair.2, rfl⟩
  | error error =>
    unfold turn at turned
    rw [read] at turned
    cases turned
    exact absurd rfl (accepted error)

/-- A round that goes on or returns without an error has taken one frame. -/
theorem taken_of_turn :
    ∃ sent : Sent, Readable sent.frame ∧ (∃ transport,
      receiving.transport.readFrame = .ok (sent.frame, transport)) ∧
      receiving.transport.incoming.flatten = sent.bytes ++ next.transport.incoming.flatten := by
  obtain ⟨frame, transport, read⟩ := read_of_turn turned accepted
  obtain ⟨readable, form, mask, fits, four, whole, _⟩ := Transport.readFrame_ok read
  have same := turn_incoming read
  rw [turned] at same
  refine ⟨⟨frame, form, mask, fits, four⟩, readable, ⟨transport, read⟩, ?_⟩
  rw [whole, ← same]
  rfl

end

theorem turn_shrinks (turned : receiving.turn = (next, none)) :
    next.transport.incoming.flatten.length < receiving.transport.incoming.flatten.length := by
  obtain ⟨sent, _, _, whole⟩ := taken_of_turn turned (fun _ impossible => nomatch impossible)
  rw [whole, List.length_append]
  have some_ := sent.bytes_pos
  omega

/-- The loop of `receive`. -/
def run (receiving : Receiving) : Outcome × Transport :=
  match _turned : receiving.turn with
  | (next, some outcome) => (outcome, next.transport)
  | (next, none) => next.run
termination_by receiving.transport.incoming.flatten.length
decreasing_by exact turn_shrinks _turned

theorem run_of_going (turned : receiving.turn = (next, none)) : receiving.run = next.run := by
  rw [run]
  split
  · rename_i returned
    rw [turned] at returned
    cases returned
  · rename_i going
    rw [turned] at going
    cases going
    rfl

theorem run_of_returned {result : Outcome} (turned : receiving.turn = (next, some result)) :
    receiving.run = (result, next.transport) := by
  rw [run]
  split
  · rename_i returned
    rw [turned] at returned
    cases returned
    rfl
  · rename_i going
    rw [turned] at going
    cases going

end Receiving

/-- `receive`. -/
def Transport.receive (transport : Transport) : Receiving.Outcome × Transport :=
  Receiving.run ⟨transport, [], false⟩

/-! ## What was sent is received -/

namespace Receiving

variable {receiving : Receiving} {tail : Bytes}

theorem readable_control (control : Control) : Readable control.frame := by
  have short : control.frame.payload.length ≤ 125 := control.short
  refine ⟨?_, fun _ => ⟨rfl, short⟩, Nat.le_trans short (by decide)⟩
  unfold Control.frame
  dsimp only
  split <;> decide

theorem opcode_of_ping {control : Control} (ping : control.ping = true) :
    control.frame.opcode = OP_PING := by
  unfold Control.frame
  rw [if_pos ping]

theorem opcode_of_pong {control : Control} (pong : control.ping = false) :
    control.frame.opcode = OP_PONG := by
  unfold Control.frame
  rw [if_neg (by rw [pong]; exact Bool.false_ne_true)]

/-- The first frame that was sent is read. -/
theorem read_sent (sent : Sent) (readable : Readable sent.frame)
    (carried : receiving.transport.incoming.flatten = sent.bytes ++ tail) :
    ∃ rest, receiving.transport.readFrame =
        .ok (sent.frame, receiving.transport.after rest) ∧ rest.flatten = tail :=
  Transport.readFrame_encodeMasked readable sent.fits sent.four carried

/-- A control frame changes nothing of the message. -/
theorem run_control (control : Control) {sent : Sent} (same : sent.frame = control.frame)
    (healthy : receiving.transport.Healthy)
    (carried : receiving.transport.incoming.flatten = sent.bytes ++ tail) :
    ∃ transport : Transport, receiving.run = { receiving with transport := transport }.run ∧
      transport.Healthy ∧ transport.incoming.flatten = tail ∧
      transport.written = receiving.transport.written ++ Control.pongs [control] := by
  obtain ⟨rest, read, left_⟩ := read_sent sent (same ▸ readable_control control) carried
  rw [same] at read
  cases kind : control.ping with
  | true =>
    obtain ⟨next, written, healthy', incoming, noted⟩ :=
      @Transport.Healthy.writeAll (receiving.transport.after rest) healthy
        (frameBytes OP_PONG control.payload)
    refine ⟨next, run_of_going ?_, healthy', ?_, ?_⟩
    · unfold turn
      rw [read]
      dsimp only
      rw [if_pos (opcode_of_ping kind)]
      have same' : (receiving.transport.after rest).writeFrame OP_PONG control.frame.payload =
          (.ok (), next) := written
      rw [same']
    · rw [incoming]
      exact left_
    · rw [noted]
      simp [Control.pongs, kind, Transport.after]
  | false =>
    refine ⟨receiving.transport.after rest, run_of_going ?_, healthy, left_, ?_⟩
    · unfold turn
      rw [read]
      dsimp only
      rw [opcode_of_pong kind, if_neg (by decide), if_pos rfl]
    · simp [Control.pongs, kind, Transport.after]

theorem run_controls (controls : List Control) {sent : List Sent}
    (same : sent.map (·.frame) = controls.map Control.frame)
    (healthy : receiving.transport.Healthy)
    (carried : receiving.transport.incoming.flatten = sent.flatMap Sent.bytes ++ tail) :
    ∃ transport : Transport, receiving.run = { receiving with transport := transport }.run ∧
      transport.Healthy ∧ transport.incoming.flatten = tail ∧
      transport.written = receiving.transport.written ++ Control.pongs controls := by
  induction controls generalizing receiving sent with
  | nil =>
    rw [List.map_nil, List.map_eq_nil_iff] at same
    rw [same] at carried
    exact ⟨receiving.transport, rfl, healthy, carried, (List.append_nil _).symm⟩
  | cons control controls ih =>
    cases sent with
    | nil => cases same
    | cons first others =>
      rw [List.map_cons, List.map_cons, List.cons.injEq] at same
      rw [List.flatMap_cons, List.append_assoc] at carried
      obtain ⟨transport, run_, healthy', left_, noted⟩ :=
        run_control control same.1 healthy carried
      obtain ⟨transport', run', healthy'', left', noted'⟩ :=
        @ih { receiving with transport := transport } others same.2 healthy' left_
      refine ⟨transport', run_.trans run', healthy'', left', ?_⟩
      rw [noted', noted, List.append_assoc]
      congr 1
      simp only [Control.pongs, List.filter_cons]
      split <;> simp

theorem readable_data {opcode : UInt8} (data : opcode = OP_TEXT ∨ opcode = OP_CONTINUATION)
    {final : Bool} {payload : Bytes} (bounded : payload.length ≤ MAX_MESSAGE_BYTES) :
    Readable ⟨final, opcode, payload⟩ := by
  have low : opcode.toNat < 8 := by rcases data with rfl | rfl <;> decide
  refine ⟨Nat.lt_trans low (by decide), ?_, bounded⟩
  intro control
  have high : (8 : UInt8).toNat ≤ opcode.toNat := UInt8.le_iff_toNat_le.mp control
  exact absurd low (Nat.not_lt.mpr high)

/-- A frame of a message is added to what was received of it. -/
theorem turn_data {frame : Frame} {transport : Transport}
    (read : receiving.transport.readFrame = .ok (frame, transport))
    (expected : (frame.opcode = OP_TEXT ∧ receiving.started = false ∧ receiving.message = []) ∨
      (frame.opcode = OP_CONTINUATION ∧ receiving.started = true)) :
    receiving.turn = { receiving with transport := transport }.push frame := by
  unfold turn
  rw [read]
  dsimp only
  rcases expected with ⟨kind, fresh, empty⟩ | ⟨kind, started⟩
  · rw [kind, if_neg (by decide), if_neg (by decide), if_neg (by decide), if_pos rfl,
      if_neg (by simp [fresh, empty])]
  · rw [kind, if_neg (by decide), if_neg (by decide), if_neg (by decide), if_neg (by decide),
      if_pos rfl, if_neg (by simp [started])]

theorem decode_toUtf8 {text : Text} : decode (toUtf8 text) = .ok (some text) := by
  unfold decode
  rw [fromUtf8_toUtf8]

/-- The rest of a message is received with the fragments that are left. -/
theorem run_fragments (fragments : List Fragment) (nonempty : fragments ≠ []) {opcode : UInt8}
    {sent : List Sent} {text : Text}
    (same : sent.map (·.frame) = fragmentFrames opcode fragments)
    (expected : (opcode = OP_TEXT ∧ receiving.started = false ∧ receiving.message = []) ∨
      (opcode = OP_CONTINUATION ∧ receiving.started = true))
    (spells : receiving.message ++ (fragments.flatMap fun fragment => fragment.payload) =
      toUtf8 text)
    (bounded : (toUtf8 text).length ≤ MAX_MESSAGE_BYTES)
    (healthy : receiving.transport.Healthy)
    (carried : receiving.transport.incoming.flatten = sent.flatMap Sent.bytes ++ tail) :
    ∃ transport : Transport, receiving.run = (.ok (some text), transport) ∧
      transport.Healthy ∧ transport.incoming.flatten = tail ∧
      transport.written = receiving.transport.written ++
        fragments.flatMap fun fragment => Control.pongs fragment.controls := by
  induction fragments generalizing receiving sent opcode with
  | nil => exact absurd rfl nonempty
  | cons fragment rest ih =>
    obtain ⟨controls, others, split, controlled, more⟩ := List.map_eq_append_iff.mp same
    cases others with
    | nil => cases more
    | cons data later =>
      rw [List.map_cons, List.cons.injEq] at more
      rw [split, List.flatMap_append, List.flatMap_cons, List.append_assoc, List.append_assoc]
        at carried
      obtain ⟨transport, run_, healthy', left_, noted⟩ :=
        run_controls fragment.controls controlled healthy carried
      have total := congrArg List.length spells
      rw [List.flatMap_cons, List.length_append, List.length_append] at total
      have kind : opcode = OP_TEXT ∨ opcode = OP_CONTINUATION := expected.imp (·.1) (·.1)
      have readable : Readable data.frame := by
        rw [more.1]
        exact readable_data kind (by omega)
      obtain ⟨unread, read, left'⟩ :=
        @read_sent { receiving with transport := transport } _ data readable left_
      rw [more.1] at read
      have turned := @turn_data { receiving with transport := transport } _ _ read expected
      have room : ¬ MAX_MESSAGE_BYTES < receiving.message.length + fragment.payload.length := by
        omega
      unfold push at turned
      rw [if_neg room] at turned
      rw [run_]
      cases rest with
      | nil =>
        rw [List.flatMap_cons, List.flatMap_nil, List.append_nil] at spells
        dsimp only [List.isEmpty_nil] at turned
        rw [if_pos rfl, spells] at turned
        rw [List.map_eq_nil_iff.mp more.2] at left'
        refine ⟨transport.after unread, ?_, healthy', left', ?_⟩
        · rw [run_of_returned turned, decode_toUtf8]
        · rw [List.flatMap_cons, List.flatMap_nil, List.append_nil]
          exact noted
      | cons second rest =>
        dsimp only [List.isEmpty_cons] at turned
        rw [if_neg Bool.false_ne_true] at turned
        rw [run_of_going turned]
        rw [List.flatMap_cons, ← List.append_assoc] at spells
        obtain ⟨transport', ran, healthy'', left'', noted'⟩ :=
          @ih ⟨transport.after unread, receiving.message ++ fragment.payload, true⟩
            (List.cons_ne_nil _ _) _ later more.2 (Or.inr ⟨rfl, rfl⟩) spells healthy' left'
        refine ⟨transport', ran, healthy'', left'', ?_⟩
        rw [noted']
        change transport.written ++ _ = _
        rw [noted, List.append_assoc]
        rfl

end Receiving

/-- Calls of `receive` that return these texts one after another, with what each call wrote. -/
inductive Receives : Transport → List (Text × List Bytes) → Transport → Prop where
  | done (transport : Transport) : Receives transport [] transport
  | text {transport next final : Transport} {text : Text} {replies : List Bytes}
      {rest : List (Text × List Bytes)} (received : transport.receive = (.ok (some text), next))
      (written : next.written = transport.written ++ replies) (later : Receives next rest final) :
      Receives transport ((text, replies) :: rest) final

/-- Every message that was sent is received, and its pings are answered before it is returned. -/
theorem receives_messages (messages : List Message) {sent : List Sent} {tail : Bytes}
    {transport : Transport} (same : sent.map (·.frame) = messages.flatMap Message.frames)
    (healthy : transport.Healthy)
    (carried : transport.incoming.flatten = sent.flatMap Sent.bytes ++ tail) :
    ∃ final, Receives transport (messages.map fun message => (message.text, message.pongs)) final ∧
      final.incoming.flatten = tail := by
  induction messages generalizing sent transport with
  | nil =>
    rw [List.flatMap_nil, List.map_eq_nil_iff] at same
    rw [same] at carried
    exact ⟨transport, .done transport, carried⟩
  | cons message messages ih =>
    obtain ⟨first, others, split, here, later⟩ := List.map_eq_append_iff.mp same
    rw [split, List.flatMap_append, List.append_assoc] at carried
    obtain ⟨next, received, healthy', left_, noted⟩ :=
      @Receiving.run_fragments ⟨transport, [], false⟩ _ message.fragments message.nonempty OP_TEXT
        first message.text here (Or.inl ⟨rfl, rfl, rfl⟩) message.spells message.bounded healthy
        carried
    obtain ⟨final, receives, left'⟩ := ih later healthy' left_
    exact ⟨final, .text received noted receives, left'⟩

/-! ## What is received was sent -/

theorem written_of_writeAll {transport next : Transport} {bytes : Bytes}
    (h : transport.writeAll bytes = (.ok (), next)) : next.written = transport.written ++ [bytes] := by
  unfold Transport.writeAll at h
  split at h
  · cases h
  · cases h
    rfl
  · cases h
    rfl

namespace Receiving

variable {receiving next : Receiving} {outcome : Option Outcome} {frame : Frame}

/-- The opcode the next frame of the message must have. -/
def dataOpcode (receiving : Receiving) : UInt8 :=
  if receiving.started then OP_CONTINUATION else OP_TEXT

theorem push_cases (frame : Frame) :
    receiving.push frame = (receiving, some (.error .messageTooLarge)) ∨
      (receiving.message ++ frame.payload).length ≤ MAX_MESSAGE_BYTES ∧
        receiving.push frame =
          ({ receiving with message := receiving.message ++ frame.payload, started := true },
            if frame.fin then some (decode (receiving.message ++ frame.payload)) else none) := by
  unfold push
  split
  · exact Or.inl rfl
  · rename_i room
    refine Or.inr ⟨?_, ?_⟩
    · rw [List.length_append]
      exact Nat.le_of_not_lt room
    · dsimp only
      split <;> rfl

theorem control_of_frame {ping : Bool} (readable : Readable frame)
    (kind : frame.opcode = if ping then OP_PING else OP_PONG) :
    ∃ control : Control, frame = control.frame ∧ control.ping = ping ∧
      control.payload = frame.payload := by
  obtain ⟨fin, opcode, payload⟩ := frame
  obtain ⟨final, short⟩ := readable.control (by rw [kind]; cases ping <;> decide)
  refine ⟨⟨ping, payload, short⟩, ?_, rfl, rfl⟩
  dsimp only at kind final
  rw [kind, final]
  rfl

/-- What a round does that neither fails nor closes: it takes a control frame, or a frame of
the message. -/
theorem turn_cases (turned : receiving.turn = (next, outcome))
    (fine : ∀ error, outcome ≠ some (.error error)) (more : outcome ≠ some (.ok none)) :
    ∃ sent : Sent, receiving.transport.incoming.flatten =
        sent.bytes ++ next.transport.incoming.flatten ∧
      ((∃ control : Control, sent.frame = control.frame ∧ outcome = none ∧
          next.message = receiving.message ∧ next.started = receiving.started ∧
          next.transport.written = receiving.transport.written ++ Control.pongs [control]) ∨
        (sent.frame.opcode = receiving.dataOpcode ∧
          (receiving.started = false → receiving.message = []) ∧
          next.message = receiving.message ++ sent.frame.payload ∧ next.started = true ∧
          next.message.length ≤ MAX_MESSAGE_BYTES ∧
          next.transport.written = receiving.transport.written ∧
          outcome = if sent.frame.fin then some (decode next.message) else none)) := by
  obtain ⟨sent, readable, ⟨transport, read⟩, whole⟩ := taken_of_turn turned fine
  refine ⟨sent, whole, ?_⟩
  have same := (Transport.readFrame_ok read).2
  obtain ⟨_, _, _, _, _, unread⟩ := same
  have written : transport.written = receiving.transport.written := by rw [unread]
  unfold turn at turned
  rw [read] at turned
  dsimp only at turned
  -- a frame of the message is added to it
  have added : ∀ {state : Receiving}, state.push sent.frame = (next, outcome) →
      state.message = receiving.message → state.transport = transport →
      next.message = receiving.message ++ sent.frame.payload ∧ next.started = true ∧
        next.message.length ≤ MAX_MESSAGE_BYTES ∧
        next.transport.written = receiving.transport.written ∧
        outcome = if sent.frame.fin then some (decode next.message) else none := by
    intro state pushed message_ transport_
    rcases @push_cases state sent.frame with large | ⟨room, result⟩
    · rw [large] at pushed
      cases pushed
      exact absurd rfl (fine _)
    · rw [result] at pushed
      cases pushed
      rw [message_] at room
      refine ⟨by rw [message_], rfl, by rw [message_]; exact room, ?_, rfl⟩
      rw [transport_, written]
  split at turned
  · rename_i ping
    left
    obtain ⟨control, same, pinged, payload⟩ := @control_of_frame sent.frame true readable ping
    cases writes : transport.writeFrame OP_PONG sent.frame.payload with
    | mk result after =>
      rw [writes] at turned
      cases result with
      | error error =>
        cases turned
        exact absurd rfl (fine _)
      | ok =>
        cases turned
        refine ⟨control, same, rfl, rfl, rfl, (written_of_writeAll writes).trans ?_⟩
        rw [written]
        simp [Control.pongs, pinged, payload]
  · split at turned
    · rename_i pong
      left
      obtain ⟨control, same, silent, _⟩ := @control_of_frame sent.frame false readable pong
      cases turned
      refine ⟨control, same, rfl, rfl, rfl, written.trans ?_⟩
      simp [Control.pongs, silent]
    · split at turned
      · cases turned
        exact absurd rfl more
      · split at turned
        · rename_i text
          split at turned
          · cases turned
            exact absurd rfl (fine _)
          · rename_i fresh
            obtain ⟨unstarted, empty⟩ := not_or.mp fresh
            right
            refine ⟨?_, fun _ => not_not.mp empty, added turned rfl rfl⟩
            unfold dataOpcode
            rw [text, if_neg unstarted]
        · split at turned
          · rename_i continuation_
            split at turned
            · cases turned
              exact absurd rfl (fine _)
            · rename_i started
              have begun : receiving.started = true := Bool.of_not_eq_false started
              right
              refine ⟨?_, ?_, added turned rfl rfl⟩
              · unfold dataOpcode
                rw [continuation_, begun]
                rfl
              · intro unstarted
                rw [begun] at unstarted
                cases unstarted
          · cases turned
            exact absurd rfl (fine _)

theorem decode_some {message : Bytes} {text : Text} (h : decode message = .ok (some text)) :
    message = toUtf8 text := by
  unfold decode at h
  split at h
  · rename_i found
    cases h
    exact fromUtf8_iff.mp found
  · cases h

/-- A call that returns a text has taken the frames of that text and no others. -/
theorem sent_of_run {text : Text} {final : Transport}
    (h : receiving.run = (.ok (some text), final)) :
    ∃ (fragments : List Fragment) (sent : List Sent), fragments ≠ [] ∧
      sent.map (·.frame) = fragmentFrames receiving.dataOpcode fragments ∧
      receiving.message ++ (fragments.flatMap fun fragment => fragment.payload) = toUtf8 text ∧
      (toUtf8 text).length ≤ MAX_MESSAGE_BYTES ∧
      receiving.transport.incoming.flatten =
        sent.flatMap Sent.bytes ++ final.incoming.flatten ∧
      final.written = receiving.transport.written ++
        fragments.flatMap fun fragment => Control.pongs fragment.controls := by
  induction length : receiving.transport.incoming.flatten.length using Nat.strongRecOn
    generalizing receiving with
  | _ n ih =>
    cases turned : receiving.turn with
    | mk next outcome =>
      cases outcome with
      | some result =>
        rw [run_of_returned turned] at h
        cases h
        obtain ⟨sent, whole, ⟨_, _, impossible, _⟩ | ⟨kind, _, message_, _, bounded, noted, returns⟩⟩ :=
          turn_cases turned (fun _ impossible => nomatch impossible) (fun impossible => nomatch impossible)
        · cases impossible
        · split at returns
          · rename_i final
            have spells := decode_some (Option.some.inj returns).symm
            rw [spells] at bounded
            refine ⟨[⟨[], sent.frame.payload⟩], [sent], List.cons_ne_nil _ _, ?_, ?_, bounded, ?_, ?_⟩
            · rw [← kind]
              change [sent.frame] = [⟨true, sent.frame.opcode, sent.frame.payload⟩]
              rw [← final]
            · rw [← spells, message_, List.flatMap_cons, List.flatMap_nil, List.append_nil]
            · rw [whole, List.flatMap_cons, List.flatMap_nil, List.append_nil]
            · rw [noted]
              exact (List.append_nil _).symm
          · cases returns
      | none =>
        rw [run_of_going turned] at h
        obtain ⟨fragments, later, nonempty, frames, spells, bounded, carried, noted⟩ :=
          ih _ (length ▸ turn_shrinks turned) h rfl
        obtain ⟨sent, whole, ⟨control, same, _, message_, started, written⟩ |
            ⟨kind, _, message_, started, _, written, returns⟩⟩ :=
          turn_cases turned (fun _ impossible => nomatch impossible)
            (fun impossible => nomatch impossible)
        · cases fragments with
          | nil => exact absurd rfl nonempty
          | cons fragment rest =>
            have opcode : next.dataOpcode = receiving.dataOpcode := by
              unfold dataOpcode
              rw [started]
            refine ⟨⟨control :: fragment.controls, fragment.payload⟩ :: rest, sent :: later,
              List.cons_ne_nil _ _, ?_, ?_, bounded, ?_, ?_⟩
            · rw [List.map_cons, frames, same, opcode]
              rfl
            · rw [← spells, message_]
              rfl
            · rw [whole, carried, List.flatMap_cons, List.append_assoc]
            · rw [noted, written, List.append_assoc]
              congr 1
              simp only [List.flatMap_cons, ← List.append_assoc]
              congr 1
              simp only [Control.pongs, List.filter_cons]
              split <;> simp
        · have unfinished : sent.frame.fin = false := by
            by_contra finished
            rw [if_pos (Bool.of_not_eq_false finished)] at returns
            cases returns
          have opcode : next.dataOpcode = OP_CONTINUATION := by
            unfold dataOpcode
            rw [started]
            rfl
          refine ⟨⟨[], sent.frame.payload⟩ :: fragments, sent :: later, List.cons_ne_nil _ _, ?_, ?_,
            bounded, ?_, ?_⟩
          · rw [List.map_cons, frames, opcode, ← kind]
            have more : fragments.isEmpty = false := by
              cases fragments with
              | nil => exact absurd rfl nonempty
              | cons fragment rest => rfl
            have data : sent.frame =
                ⟨fragments.isEmpty, sent.frame.opcode, sent.frame.payload⟩ := by
              rw [more, ← unfinished]
            exact congrArg (· :: fragmentFrames OP_CONTINUATION fragments) data
          · rw [← spells, message_, List.flatMap_cons, List.append_assoc]
          · rw [whole, carried, List.flatMap_cons, List.append_assoc]
          · rw [noted, written]
            rfl

end Receiving

/-- A text that is received was sent in frames of one message. -/
theorem message_of_receive {transport next : Transport} {text : Text}
    (received : transport.receive = (.ok (some text), next)) :
    ∃ (message : Message) (sent : List Sent), message.text = text ∧
      sent.map (·.frame) = message.frames ∧
      transport.incoming.flatten = sent.flatMap Sent.bytes ++ next.incoming.flatten ∧
      next.written = transport.written ++ message.pongs := by
  obtain ⟨fragments, sent, nonempty, frames, spells, bounded, carried, noted⟩ :=
    Receiving.sent_of_run received
  exact ⟨⟨text, fragments, nonempty, spells, bounded⟩, sent, rfl, frames, carried, noted⟩

/-! ## Every stream -/

/-- The rounds of a call of `receive`, whatever the stream brings. -/
inductive Round (transport : Transport) : Receiving → Prop where
  | first : Round transport ⟨transport, [], false⟩
  | next {receiving next : Receiving} (before : Round transport receiving)
      (going : receiving.turn = (next, none)) : Round transport next

/-- What is held is bounded, and what is taken is a masked text or control frame. -/
structure Receiving.Sound (receiving : Receiving) : Prop where
  buffered : receiving.message.length ≤ MAX_MESSAGE_BYTES
  allocated : ∀ header next, receiving.transport.readHeader = .ok (header, next) →
    header.length ≤ MAX_MESSAGE_BYTES
  accepts : ∀ next outcome, receiving.turn = (next, outcome) →
    (∀ error, outcome ≠ some (.error error)) →
      ∃ sent : Sent, Readable sent.frame ∧
        sent.frame.opcode ∈ [OP_CONTINUATION, OP_TEXT, OP_CLOSE, OP_PING, OP_PONG] ∧
        receiving.transport.incoming.flatten =
          sent.bytes ++ next.transport.incoming.flatten

variable {receiving : Receiving}

theorem opcode_of_turn {next : Receiving} {outcome : Option Receiving.Outcome} {frame : Frame}
    {transport : Transport} (turned : receiving.turn = (next, outcome))
    (fine : ∀ error, outcome ≠ some (.error error))
    (read : receiving.transport.readFrame = .ok (frame, transport)) :
    frame.opcode ∈ [OP_CONTINUATION, OP_TEXT, OP_CLOSE, OP_PING, OP_PONG] := by
  by_contra other
  simp only [List.mem_cons, List.not_mem_nil, or_false, not_or] at other
  obtain ⟨continuation_, text, close, ping, pong⟩ := other
  unfold Receiving.turn at turned
  rw [read] at turned
  dsimp only at turned
  rw [if_neg ping, if_neg pong, if_neg close, if_neg text, if_neg continuation_] at turned
  cases turned
  exact fine _ rfl

theorem buffered_of_round {transport : Transport} (round : Round transport receiving) :
    receiving.message.length ≤ MAX_MESSAGE_BYTES := by
  induction round with
  | first => exact Nat.zero_le _
  | next before going ih =>
    obtain ⟨sent, _, ⟨_, _, _, message_, _⟩ | ⟨_, _, _, _, bounded, _⟩⟩ :=
      Receiving.turn_cases going (fun _ impossible => nomatch impossible)
        (fun impossible => nomatch impossible)
    · rw [message_]
      exact ih
    · exact bounded

theorem sound_of_round {transport : Transport} (round : Round transport receiving) :
    receiving.Sound where
  buffered := buffered_of_round round
  allocated header next read := by
    obtain ⟨_, _, _, _, _, _, bounded, _⟩ := Transport.readHeader_ok read
    exact bounded
  accepts next outcome turned fine := by
    obtain ⟨sent, readable, ⟨_, read⟩, whole⟩ := Receiving.taken_of_turn turned fine
    exact ⟨sent, readable, opcode_of_turn turned fine read, whole⟩

/-- Messages are received as they were sent, a stream that is not made of such frames is not
received, and what is written is read back by a client. -/
theorem messages_received :
    (∀ (messages : List Message) (sent : List Sent) (tail : Bytes) (transport : Transport),
      sent.map (·.frame) = messages.flatMap Message.frames → transport.Healthy →
        transport.incoming.flatten = sent.flatMap Sent.bytes ++ tail →
          ∃ final, Receives transport
              (messages.map fun message => (message.text, message.pongs)) final ∧
            final.incoming.flatten = tail) ∧
    (∀ (transport next : Transport) (text : Text),
      transport.receive = (.ok (some text), next) →
        ∃ (message : Message) (sent : List Sent), message.text = text ∧
          sent.map (·.frame) = message.frames ∧
          transport.incoming.flatten = sent.flatMap Sent.bytes ++ next.incoming.flatten ∧
          next.written = transport.written ++ message.pongs) ∧
    (∀ (transport : Transport) (receiving : Receiving), Round transport receiving →
      receiving.Sound) ∧
    (∀ (opcode : UInt8) (payload rest : Bytes), opcode.toNat < 16 → payload.length < 2 ^ 64 →
      Frame.decode (frameBytes opcode payload ++ rest) = some (⟨true, opcode, payload⟩, rest)) := by
  refine ⟨?_, ?_, ?_, ?_⟩
  · intro messages sent tail transport same healthy carried
    exact receives_messages messages same healthy carried
  · intro transport next text received
    exact message_of_receive received
  · intro transport receiving round
    exact sound_of_round round
  · intro opcode payload rest low small
    rw [frameBytes_eq]
    exact Frame.decode_encode low small rest

/-- The text `A` in two frames, after a ping, in reads of one byte. -/
def pingedMessage : Message where
  text := ['A']
  fragments := [⟨[⟨true, [7], by decide⟩], []⟩, ⟨[], [65]⟩]
  nonempty := List.cons_ne_nil _ _
  spells := by decide
  bounded := by decide

def pingedFrames : List Sent :=
  [⟨⟨true, OP_PING, [7]⟩, .short, [1, 2, 3, 4], by decide, rfl⟩,
    ⟨⟨false, OP_TEXT, []⟩, .long, [5, 6, 7, 8], by decide, rfl⟩,
    ⟨⟨true, OP_CONTINUATION, [65]⟩, .medium, [9, 10, 11, 12], by decide, rfl⟩]

theorem pinged_message_received :
    ∃ final, Receives
      ⟨(pingedFrames.flatMap Sent.bytes).map ([·]), .unexpectedEof, [], []⟩
      [(['A'], [[0x8A, 1, 7]])] final := by
  obtain ⟨final, receives, _⟩ := messages_received.1 [pingedMessage] pingedFrames []
    ⟨(pingedFrames.flatMap Sent.bytes).map ([·]), .unexpectedEof, [], []⟩ rfl
    (fun _ member => nomatch member) (by decide)
  exact ⟨final, receives⟩

end Gunda.Capture

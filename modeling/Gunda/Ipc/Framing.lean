import Gunda.Ipc.Receive
import Mathlib.Data.List.DropRight

/-!
# Framing

Calls of `read_message` that nothing interrupts, over the bytes of `write_message` and over
any other bytes. The writer's limit is on the text and the reader's on the text with its
newline; the reader looks at its limit when the line is complete, so what it holds until
then is bounded only where the stream has a newline often enough.
-/
namespace Gunda.Ipc

open Gunda.Lib

/-- Only the calls of `read_message` themselves. -/
def Undisturbed (events : List Event) : Prop := ∀ event ∈ events, event ≠ .other

/-- A read adds its bytes to no more than the limit. -/
def WithinLimit {T : Type} (receiver : Receiver T) : Event → Prop
  | .read count =>
      receiver.line.length + receiver.buffer.length + count ≤ MAX_MESSAGE_BYTES + count
  | _ => True

/-- The bytes behind the last newline. -/
def openLine (bytes : List UInt8) : List UInt8 := bytes.rtakeWhile (· ≠ newline)

/-- Where the stream is read from again, its last line is within the limit. -/
def OpenLinesFit (stream : List UInt8) : Nat → List Event → Prop
  | _, [] => True
  | consumed, event :: events => match event with
      | .read count => (openLine (stream.take consumed)).length ≤ MAX_MESSAGE_BYTES ∧
          OpenLinesFit stream (consumed + count) events
      | _ => OpenLinesFit stream consumed events

/-- A line that is received: within the limit, with a newline only at its end. -/
structure Accepted {T : Type} (json : SerdeJson T) (line : List UInt8) (message : T) : Prop where
  fits : line.length ≤ MAX_MESSAGE_BYTES
  single : newline ∉ line.dropLast
  decoded : json.fromSlice line = some message

/-- The messages received are those of the lines at the front of the stream. -/
def FrontReceived {T : Type} (json : SerdeJson T) (stream : List UInt8)
    (receiver : Receiver T) : Prop :=
  ∃ lines rest, stream = lines.flatten ++ rest ∧
    List.Forall₂ (Accepted json) lines receiver.received ∧
    (receiver.error = none → rest = receiver.unread)

section

variable {T : Type} {json : SerdeJson T} {stream : List UInt8} {receiver next final : Receiver T}
  {event : Event} {events : List Event} {consumed : Nat}

/-! ## Messages that were written -/

theorem uninterrupted_of_undisturbed (quiet : Undisturbed events) (receiver : Receiver T) :
    Machine.Meets (Receiver.step json) Uninterrupted receiver events := by
  induction events generalizing receiver with
  | nil => trivial
  | cons event events ih =>
    obtain ⟨own, others⟩ := List.forall_mem_cons.mp quiet
    refine ⟨?_, fun next _ => ih others next⟩
    cases event with
    | other => exact absurd rfl own
    | _ => trivial

/-! ## What is held -/

theorem openLine_append {front line : List UInt8} (plain : newline ∉ line)
    (ends : front = [] ∨ front.getLast? = some newline) : openLine (front ++ line) = line := by
  unfold openLine
  induction line using List.reverseRecOn with
  | nil =>
    rw [List.append_nil]
    apply List.rtakeWhile_eq_nil_iff.mpr
    intro some_
    rcases ends with none_ | last
    · exact absurd none_ some_
    · rw [List.getLast?_eq_getLast_of_ne_nil some_] at last
      simp [Option.some.inj last]
  | append_singleton line byte ih =>
    have other : byte ≠ newline := by
      intro same
      exact plain (by simp [same])
    rw [← List.append_assoc, List.rtakeWhile_concat_pos _ _ _ (by simpa using other)]
    rw [ih fun member => plain (List.mem_append_left _ member)]

/-- Where the receiver is in the stream: the line it reads is the last of what it consumed. -/
structure Placed (stream : List UInt8) (consumed : Nat) (receiver : Receiver T) : Prop where
  plain : newline ∉ receiver.line
  ahead : stream.drop consumed = receiver.incoming
  behind : receiver.incoming = [] ∨ ∃ front,
    stream.take consumed = front ++ (receiver.line ++ receiver.buffer) ∧
      (front = [] ∨ front.getLast? = some newline)

theorem placed_start : Placed stream 0 (Receiver.start T [stream]) where
  plain := List.not_mem_nil
  ahead := by simp [Receiver.start]
  behind := Or.inr ⟨[], rfl, Or.inl rfl⟩

theorem finish_fields (receiver : Receiver T) (result : Except IpcError T) :
    (receiver.finish result).line = [] ∧ (receiver.finish result).buffer = receiver.buffer ∧
      (receiver.finish result).incoming = receiver.incoming := by
  cases result <;> exact ⟨rfl, rfl, rfl⟩

section

variable (placed : Placed stream consumed receiver)
include placed

theorem Placed.poll :
    Placed stream consumed (receiver.poll json) := by
  unfold Receiver.poll
  split
  · rename_i line rest found
    obtain ⟨text, ends, _, whole⟩ := Lines.cut_eq_some found
    obtain ⟨empty, buffer, incoming⟩ := finish_fields { receiver with buffer := rest }
      (readLine json (receiver.line ++ line))
    refine ⟨by rw [empty]; exact List.not_mem_nil, by rw [incoming]; exact placed.ahead, ?_⟩
    rw [empty, buffer, incoming]
    rcases placed.behind with none_ | ⟨front, split, _⟩
    · exact Or.inl none_
    · refine Or.inr ⟨front ++ (receiver.line ++ line), ?_, Or.inr ?_⟩
      · rw [split, whole]
        simp
      · rw [ends]
        simp
  · rename_i found
    have absent := Lines.cut_eq_none found
    refine ⟨?_, placed.ahead, ?_⟩
    · intro member
      rcases List.mem_append.mp member with line | buffer
      · exact placed.plain line
      · exact absent buffer
    · rcases placed.behind with none_ | ⟨front, split, ends⟩
      · exact Or.inl none_
      · exact Or.inr ⟨front, by rw [split]; simp, ends⟩

theorem Placed.read (empty : receiver.buffer = []) (count : Nat) :
    Placed stream (consumed + count) { receiver with
      buffer := receiver.incoming.take count
      incoming := receiver.incoming.drop count } := by
  refine ⟨placed.plain, ?_, ?_⟩
  · rw [← List.drop_drop, placed.ahead]
  · rcases placed.behind with none_ | ⟨front, split, ends⟩
    · left
      rw [none_, List.drop_nil]
    · refine Or.inr ⟨front, ?_, ends⟩
      rw [List.take_add, split, placed.ahead, empty]
      simp

/-- What a step consumes. -/
def Event.consumes : Event → Nat
  | .read count => count
  | _ => 0

theorem Placed.step (quiet : event ≠ .other) (stepped : receiver.step json event = some next) :
    Placed stream (consumed + event.consumes) next := by
  rcases (step_cases stepped).2 with
    ⟨rfl, rfl⟩ | ⟨count, rfl, empty, rfl⟩ | ⟨rfl, empty, drained, rfl⟩ | ⟨rfl, _⟩
  · exact placed.poll
  · exact (placed.read empty count).poll
  · obtain ⟨line, buffer, incoming⟩ := finish_fields receiver (readLine json receiver.line)
    refine ⟨by rw [line]; exact List.not_mem_nil, by rw [incoming]; exact placed.ahead, ?_⟩
    left
    rw [incoming, drained]
  · exact absurd rfl quiet

/-- A read is within the limit where the open line of what was consumed is. -/
theorem Placed.within_iff {count : Nat} (stepped : receiver.step json (.read count) = some next) :
    WithinLimit receiver (.read count) ↔
      (openLine (stream.take consumed)).length ≤ MAX_MESSAGE_BYTES := by
  have possible : receiver.buffer = [] ∧ 0 < count ∧ count ≤ receiver.incoming.length := by
    unfold Receiver.step at stepped
    split at stepped
    · cases stepped
    · dsimp only at stepped
      split at stepped
      · assumption
      · cases stepped
  obtain ⟨empty, some_, inside⟩ := possible
  rcases placed.behind with none_ | ⟨front, split, ends⟩
  · rw [none_, List.length_nil] at inside
    omega
  · rw [empty, List.append_nil] at split
    rw [split, openLine_append placed.plain ends]
    unfold WithinLimit
    rw [empty, List.length_nil]
    omega

theorem within_iff_of_run (quiet : Undisturbed events)
    (ran : Machine.run (Receiver.step json) receiver events = some final) :
    Machine.Meets (Receiver.step json) WithinLimit receiver events ↔
      OpenLinesFit stream consumed events := by
  induction events generalizing receiver consumed with
  | nil => exact Iff.rfl
  | cons event events ih =>
    obtain ⟨own, others⟩ := List.forall_mem_cons.mp quiet
    obtain ⟨next, stepped, ran⟩ := Option.bind_eq_some_iff.mp ran
    have later := ih (placed.step own stepped) others ran
    rw [Machine.meets_cons stepped, later]
    cases event with
    | read count => exact and_congr_left fun _ => placed.within_iff stepped
    | _ => exact and_iff_right trivial

end

/-! ## What is received -/

theorem frontReceived_start : FrontReceived json stream (Receiver.start T [stream]) :=
  ⟨[], stream, rfl, .nil, fun _ => by simp [Receiver.unread, Receiver.start]⟩

section

variable (front : FrontReceived json stream receiver)
include front

/-- A line is complete: it is received or refused. -/
theorem FrontReceived.finish {line rest : List UInt8} {before : Receiver T} (running : receiver.error = none)
    (same : before.received = receiver.received)
    (single : newline ∉ line.dropLast) (unread : receiver.unread = line ++ rest)
    (behind : before.buffer ++ before.incoming = rest) :
    FrontReceived json stream (before.finish (readLine json line)) := by
  obtain ⟨lines, others, whole, received, ahead⟩ := front
  rw [ahead running, unread] at whole
  cases result : readLine json line with
  | error failure =>
    refine ⟨lines, line ++ rest, whole, ?_, fun running => nomatch running⟩
    rw [Receiver.finish_error]
    rw [same]
    exact received
  | ok message =>
    obtain ⟨fits, decoded⟩ := readLine_ok result
    refine ⟨lines ++ [line], rest, ?_, ?_, fun _ => behind.symm⟩
    · rw [whole, List.flatten_concat, List.append_assoc]
    · rw [Receiver.finish_ok]
      rw [same]
      exact List.rel_append received (.cons ⟨fits, single, decoded⟩ .nil)

theorem FrontReceived.poll (running : receiver.error = none) (plain : newline ∉ receiver.line) :
    FrontReceived json stream (receiver.poll json) := by
  rcases receiver.poll_cases json plain with
    ⟨unread, _, received, error⟩ | ⟨text, rest, unread, absent, polled⟩
  · obtain ⟨lines, others, whole, same, ahead⟩ := front
    refine ⟨lines, others, whole, ?_, ?_⟩
    · rw [received]
      exact same
    · rw [error, unread]
      exact ahead
  · rw [polled]
    apply front.finish running
    · rfl
    · rw [List.dropLast_concat]
      exact absent
    · rw [unread, List.append_assoc]
      rfl
    · rfl

theorem FrontReceived.step (plain : newline ∉ receiver.line) (quiet : event ≠ .other)
    (stepped : receiver.step json event = some next) : FrontReceived json stream next := by
  obtain ⟨running, moves⟩ := step_cases stepped
  rcases moves with
    ⟨rfl, rfl⟩ | ⟨count, rfl, empty, rfl⟩ | ⟨rfl, empty, drained, rfl⟩ | ⟨rfl, _⟩
  · exact front.poll running plain
  · have moved : FrontReceived json stream { receiver with
        buffer := receiver.incoming.take count
        incoming := receiver.incoming.drop count } := by
      obtain ⟨lines, rest, whole, received, ahead⟩ := front
      refine ⟨lines, rest, whole, received, fun running => ?_⟩
      rw [unread_read receiver count empty]
      exact ahead running
    exact moved.poll running plain
  · have unread : receiver.unread = receiver.line ++ [] := by
      simp [Receiver.unread, empty, drained]
    apply front.finish running rfl _ unread
    · rw [empty, drained]
      rfl
    · exact fun member => plain (List.mem_of_mem_dropLast member)
  · exact absurd rfl quiet

end

theorem frontReceived_of_run (placed : Placed stream consumed receiver)
    (front : FrontReceived json stream receiver) (quiet : Undisturbed events)
    (ran : Machine.run (Receiver.step json) receiver events = some final) :
    FrontReceived json stream final := by
  induction events generalizing receiver consumed with
  | nil =>
    cases ran
    exact front
  | cons event events ih =>
    obtain ⟨own, others⟩ := List.forall_mem_cons.mp quiet
    obtain ⟨next, stepped, ran⟩ := Option.bind_eq_some_iff.mp ran
    exact ih (placed.step own stepped) (front.step placed.plain own stepped) others ran

end

/-! ## Both limits -/

/-- What `write_message` writes is read back exactly where no message has the full length.
Of any stream, only lines within the limit are received, and what the reader holds is bounded
exactly where the stream has a newline often enough. -/
theorem framing_iff {T : Type} (json : SerdeJson T) :
    (∀ messages lines events final, messages.mapM (writeMessage json) = .ok lines →
      Machine.run (Receiver.step json) (Receiver.start T lines) events = some final →
      Undisturbed events → final.Settled →
      (final.received = messages ↔ Short json messages)) ∧
    ∀ stream events final,
      Machine.run (Receiver.step json) (Receiver.start T [stream]) events = some final →
      Undisturbed events →
      FrontReceived json stream final ∧
        (Machine.Meets (Receiver.step json) WithinLimit (Receiver.start T [stream]) events ↔
          OpenLinesFit stream 0 events) := by
  constructor
  · intro messages lines events final written ran quiet settled
    rw [received_iff_uninterrupted written ran settled]
    exact and_iff_right (uninterrupted_of_undisturbed quiet _)
  · intro stream events final ran quiet
    exact ⟨frontReceived_of_run placed_start frontReceived_start quiet ran,
      within_iff_of_run placed_start quiet ran⟩

theorem two_commands_framed :
    ∃ final, Machine.run (Receiver.step commandJson)
        (Receiver.start Unit [clearCaptures ++ [newline] ++ clearCaptures ++ [newline]])
        [.read 60, .poll, .read 56] = some final ∧
      final.received = [(), ()] ∧
      FrontReceived commandJson (clearCaptures ++ [newline] ++ clearCaptures ++ [newline]) final ∧
      Machine.Meets (Receiver.step commandJson) WithinLimit
        (Receiver.start Unit [clearCaptures ++ [newline] ++ clearCaptures ++ [newline]])
        [.read 60, .poll, .read 56] := by
  have quiet : Undisturbed [.read 60, .poll, .read 56] := by
    intro event member
    simp only [List.mem_cons, List.not_mem_nil, or_false] at member
    rcases member with rfl | rfl | rfl <;> exact fun same => nomatch same
  have framed := (framing_iff commandJson).2
    (clearCaptures ++ [newline] ++ clearCaptures ++ [newline]) [.read 60, .poll, .read 56] _ rfl quiet
  exact ⟨_, rfl, rfl, framed.1, framed.2.mpr ⟨by decide, by decide, trivial⟩⟩

/-- A string in quotes is its own JSON text. -/
def quoted (size : Nat) : List UInt8 := 34 :: (List.replicate size 97 ++ [34])

theorem quoted_plain (size : Nat) : newline ∉ quoted size := by
  intro member
  rcases List.mem_cons.mp member with first | later
  · cases first
  · rcases List.mem_append.mp later with inside | last
    · cases (List.mem_replicate.mp inside).2
    · cases List.mem_singleton.mp last

/-- One string as the only message. -/
def quotedJson (size : Nat) : SerdeJson Unit where
  toVec _ := quoted size
  fromSlice text := if text = quoted size ++ [newline] then some () else none
  plain _ := quoted_plain size
  read_back _ := if_pos rfl
  whole := by
    intro message text _ read
    by_cases same : text ++ [newline] = quoted size ++ [newline]
    · exact List.append_cancel_right same
    · rw [if_neg same] at read
      cases read

theorem quoted_length (size : Nat) : (quoted size).length = size + 2 := by
  unfold quoted
  rw [List.length_cons, List.length_append, List.length_replicate]
  rfl

/-- A text of the full length is written, and its line is refused. -/
theorem full_line_refused {T : Type} (json : SerdeJson T) {message : T}
    (full : (json.toVec message).length = MAX_MESSAGE_BYTES) :
    [message].mapM (writeMessage json) = .ok [json.toVec message ++ [newline]] ∧
      Machine.run (Receiver.step json) (Receiver.start T [json.toVec message ++ [newline]])
          [.read (MAX_MESSAGE_BYTES + 1)] =
        some ⟨[], [], [], [], some .invalidMessage⟩ := by
  have sized : (json.toVec message ++ [newline]).length = MAX_MESSAGE_BYTES + 1 := by
    rw [List.length_append, full]
    rfl
  have flat : [json.toVec message ++ [newline]].flatten = json.toVec message ++ [newline] :=
    List.flatten_singleton
  constructor
  · have one : writeMessage json message = .ok (json.toVec message ++ [newline]) := by
      unfold writeMessage
      exact if_neg (by omega)
    rw [List.mapM_cons, one]
    rfl
  · have stepped : Receiver.step json (.start T [json.toVec message ++ [newline]])
        (.read (MAX_MESSAGE_BYTES + 1)) =
          some (.poll json ⟨[], json.toVec message ++ [newline], [], [], none⟩) := by
      unfold Receiver.step Receiver.start
      rw [flat]
      dsimp only
      rw [if_neg (by decide : ¬ (none : Option IpcError).isSome = true)]
      rw [← sized, if_pos ⟨rfl, by omega, le_rfl⟩, List.take_length, List.drop_length]
    rw [Machine.run, stepped, Option.bind_some, Machine.run]
    unfold Receiver.poll
    rw [Lines.cut_append (json.plain message)]
    dsimp only
    rw [List.nil_append, readLine_toVec, if_pos full.ge]
    rfl

theorem full_message_refused :
    ∃ size lines final, (quoted size).length = MAX_MESSAGE_BYTES ∧
      [()].mapM (writeMessage (quotedJson size)) = .ok lines ∧
      Machine.run (Receiver.step (quotedJson size)) (Receiver.start Unit lines)
        [.read (MAX_MESSAGE_BYTES + 1)] = some final ∧
      final.error = some .invalidMessage ∧ final.received ≠ [()] := by
  have full : (quoted (MAX_MESSAGE_BYTES - 2)).length = MAX_MESSAGE_BYTES := by
    rw [quoted_length]
    rfl
  obtain ⟨written, ran⟩ := @full_line_refused Unit (quotedJson (MAX_MESSAGE_BYTES - 2)) () full
  exact ⟨_, _, _, full, written, ran, rfl, fun same => nomatch same⟩

end Gunda.Ipc

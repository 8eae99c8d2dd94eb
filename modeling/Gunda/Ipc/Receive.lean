import Gunda.Lib.Delimited
import Gunda.Lib.Lines
import Gunda.Lib.Machine
import Gunda.Lib.Result

/-!
# Receiving newline-delimited messages

`gunda-ipc/src/lib.rs`: `Reader::receive` inside the `select!` of `serve_client` in the
daemon and of `run_connected` in the desktop client. The line is owned by the pending
`read_message`, so it is lost when the other branch of the `select!` wins; the bytes the
`BufReader` holds are not.
-/
namespace Gunda.Ipc

open Gunda.Lib

def MAX_MESSAGE_BYTES : Nat := 4 * 1024 * 1024

abbrev newline : UInt8 := 10

inductive IpcError where
  | io | json | invalidMessage
  deriving DecidableEq, Repr

/-- What the messages rely on in `serde_json`: compact text without a raw newline, read
back in the presence of the newline, and never read back from a proper end of that text. -/
structure SerdeJson (T : Type) where
  toVec : T → List UInt8
  fromSlice : List UInt8 → Option T
  plain : ∀ message, newline ∉ toVec message
  read_back : ∀ message, fromSlice (toVec message ++ [newline]) = some message
  whole : ∀ message text, text <:+ toVec message → fromSlice (text ++ [newline]) = some message →
    text = toVec message

section

variable {T : Type} (json : SerdeJson T)
variable {messages : List T}

/-- `write_message`: the line a message is sent as. -/
def writeMessage (message : T) : Except IpcError (List UInt8) :=
  let line := json.toVec message
  if MAX_MESSAGE_BYTES < line.length then .error .invalidMessage
  else .ok (line ++ [newline])

/-- The end of `read_message`, with the line `read_until` returned. -/
def readLine (line : List UInt8) : Except IpcError T :=
  if line.length = 0 then .error .io
  else if MAX_MESSAGE_BYTES < line.length then .error .invalidMessage
  else match json.fromSlice line with
    | some message => .ok message
    | none => .error .json

/-- One side of a connection: the bytes its peer sent and the transport still carries,
those in the `BufReader`, those in the line of the pending `read_message`, the messages
received so far, and the error that ended the loop. -/
structure Receiver (T : Type) where
  incoming : List UInt8
  buffer : List UInt8
  line : List UInt8
  received : List T
  error : Option IpcError

/-- The pending `read_message` returns; the loop goes on with a message and ends with an error. -/
def Receiver.finish (receiver : Receiver T) : Except IpcError T → Receiver T
  | .ok message => { receiver with line := [], received := receiver.received ++ [message] }
  | .error error => { receiver with line := [], error := some error }

/-- `read_until` goes on with what is buffered, and waits when that holds no newline. -/
def Receiver.poll (receiver : Receiver T) : Receiver T :=
  match Lines.cut newline receiver.buffer with
  | some (line, rest) =>
      { receiver with buffer := rest }.finish (readLine json (receiver.line ++ line))
  | none => { receiver with buffer := [], line := receiver.line ++ receiver.buffer }

inductive Event where
  /-- The pending `receive` is polled with bytes in its buffer. -/
  | poll
  /-- The transport fills the empty buffer with that many bytes. -/
  | read (count : Nat)
  /-- The peer closed the connection. -/
  | closed
  /-- The other branch of the `select!` wins: a changed snapshot in `serve_client`, a
  local command in `run_connected`. The pending `receive` is dropped. -/
  | other

def Receiver.step (receiver : Receiver T) (event : Event) : Option (Receiver T) :=
  if receiver.error.isSome then none
  else match event with
    | .poll => some (receiver.poll json)
    | .read count =>
        if receiver.buffer = [] ∧ 0 < count ∧ count ≤ receiver.incoming.length then
          some ({ receiver with
            buffer := receiver.incoming.take count
            incoming := receiver.incoming.drop count }.poll json)
        else none
    | .closed =>
        if receiver.buffer = [] ∧ receiver.incoming = [] then
          some (receiver.finish (readLine json receiver.line))
        else none
    | .other => some { receiver with line := [] }

/-- A connection whose peer sends these lines. -/
def Receiver.start (T : Type) (lines : List (List UInt8)) : Receiver T where
  incoming := lines.flatten
  buffer := []
  line := []
  received := []
  error := none

/-- The loop returned, or everything that was sent has been read. -/
def Receiver.Settled (receiver : Receiver T) : Prop :=
  receiver.error.isSome ∨ (receiver.incoming = [] ∧ receiver.buffer = [])

/-- The other branch wins only between messages. -/
def Uninterrupted (receiver : Receiver T) (event : Event) : Prop :=
  match event with
  | .other => receiver.line = []
  | _ => True

instance (receiver : Receiver T) (event : Event) : Decidable (Uninterrupted receiver event) :=
  match event with
  | .other => inferInstanceAs (Decidable (receiver.line = []))
  | .poll | .read _ | .closed => isTrue trivial

/-! ## One step -/

/-- Every byte that is still to be read or to be decoded. -/
def Receiver.unread (receiver : Receiver T) : List UInt8 :=
  receiver.line ++ (receiver.buffer ++ receiver.incoming)

variable {json}

@[simp] theorem Receiver.finish_ok (receiver : Receiver T) (message : T) :
    receiver.finish (.ok message) =
      { receiver with line := [], received := receiver.received ++ [message] } := rfl

@[simp] theorem Receiver.finish_error (receiver : Receiver T) (error : IpcError) :
    receiver.finish (.error error) = { receiver with line := [], error := some error } := rfl

/-- A poll moves bytes into the line, or ends the first unread line. -/
theorem Receiver.poll_cases (json : SerdeJson T) (receiver : Receiver T)
    (started : newline ∉ receiver.line) :
    ((receiver.poll json).unread = receiver.unread ∧ newline ∉ (receiver.poll json).line ∧
      (receiver.poll json).received = receiver.received ∧
      (receiver.poll json).error = receiver.error) ∨
    (∃ text rest, receiver.unread = text ++ newline :: (rest ++ receiver.incoming) ∧
      newline ∉ text ∧
      receiver.poll json = { receiver with buffer := rest }.finish
        (readLine json (text ++ [newline]))) := by
  unfold Receiver.poll
  split
  · rename_i line rest found
    obtain ⟨text, ends, absent, whole⟩ := Lines.cut_eq_some found
    right
    refine ⟨receiver.line ++ text, rest, ?_, ?_, ?_⟩
    · simp [Receiver.unread, whole, ends]
    · simp only [List.mem_append, not_or]
      exact ⟨started, absent⟩
    · rw [ends, List.append_assoc]
  · rename_i found
    left
    have absent := Lines.cut_eq_none found
    refine ⟨by simp [Receiver.unread], ?_, rfl, rfl⟩
    simp only [List.mem_append, not_or]
    exact ⟨started, absent⟩

theorem readLine_ok {line : List UInt8} {message : T} (h : readLine json line = .ok message) :
    line.length ≤ MAX_MESSAGE_BYTES ∧ json.fromSlice line = some message := by
  unfold readLine at h
  split at h
  · cases h
  · split at h
    · cases h
    · rename_i fits
      split at h
      · rename_i found
        cases h
        exact ⟨Nat.le_of_not_lt fits, found⟩
      · cases h

theorem readLine_toVec (message : T) :
    readLine json (json.toVec message ++ [newline]) =
      if MAX_MESSAGE_BYTES ≤ (json.toVec message).length then .error .invalidMessage
      else .ok message := by
  unfold readLine
  rw [json.read_back]
  simp only [List.length_append, List.length_singleton, Nat.add_eq_zero_iff]
  simp only [Nat.one_ne_zero, and_false, if_false, Nat.lt_succ_iff]

/-! ## Nothing lost, and a line torn -/

/-- A message of `MAX_MESSAGE_BYTES` bytes can be sent, but not received with its newline. -/
def Short (json : SerdeJson T) (messages : List T) : Prop :=
  ∀ message ∈ messages, (json.toVec message).length < MAX_MESSAGE_BYTES

/-- What was received is the front of what was sent, and the rest is still whole. -/
structure Intact (json : SerdeJson T) (messages : List T) (receiver : Receiver T) : Prop where
  plain : newline ∉ receiver.line
  short : Short json receiver.received
  ahead : ∃ rest, messages = receiver.received ++ rest ∧
    receiver.unread = Lines.frame newline (rest.map json.toVec)
  ended : receiver.error.isSome → receiver.incoming = [] ∧ receiver.buffer = []

/-- The unread bytes begin inside a message. -/
def Torn (json : SerdeJson T) (messages : List T) (receiver : Receiver T) : Prop :=
  ∃ message rest text, messages = receiver.received ++ message :: rest ∧
    text <:+ json.toVec message ∧ text ≠ json.toVec message ∧
    receiver.unread = text ++ newline :: Lines.frame newline (rest.map json.toVec)

/-- The messages sent are not received any more, whatever follows. -/
def Astray (json : SerdeJson T) (messages : List T) (receiver : Receiver T) : Prop :=
  (receiver.error.isSome ∧ receiver.received ≠ messages) ∨
    (newline ∉ receiver.line ∧
      (Torn json messages receiver ∨ ¬ receiver.received <+: messages))

/-- A newline-free front of a line leaves the end of that line. -/
theorem split_line {line more text tail : List UInt8} (absent : newline ∉ line)
    (h : line ++ more = text ++ newline :: tail) :
    ∃ left_, text = line ++ left_ ∧ more = left_ ++ newline :: tail := by
  rcases List.append_eq_append_iff.mp h with ⟨left_, whole, rest⟩ | ⟨beyond, whole, rest⟩
  · exact ⟨left_, whole, rest⟩
  · cases beyond with
    | nil =>
      rw [List.append_nil] at whole
      exact ⟨[], by rw [whole, List.append_nil], rest.symm⟩
    | cons byte beyond =>
      have same := (List.cons.inj rest).1
      rw [whole, ← same] at absent
      exact absurd (List.mem_append_right text List.mem_cons_self) absent

theorem flatten_of_written {lines : List (List UInt8)}
    (written : messages.mapM (writeMessage json) = .ok lines) :
    lines.flatten = Lines.frame newline (messages.map json.toVec) := by
  induction messages generalizing lines with
  | nil =>
    cases written
    rfl
  | cons message messages ih =>
    rw [List.mapM_cons] at written
    obtain ⟨line, sent, written⟩ := bind_ok written
    obtain ⟨lines', later, written⟩ := bind_ok written
    cases written
    simp only [writeMessage] at sent
    split at sent
    · cases sent
    · cases sent
      rw [List.flatten_cons, ih later, List.map_cons, Lines.frame_cons]
      simp

theorem intact_start {lines : List (List UInt8)}
    (written : messages.mapM (writeMessage json) = .ok lines) :
    Intact json messages (Receiver.start T lines) where
  plain := List.not_mem_nil
  short := by
    intro message member
    cases member
  ahead := ⟨messages, rfl, flatten_of_written written⟩
  ended := by
    intro failed
    cases failed

variable {receiver : Receiver T}

section

variable (intact : Intact json messages receiver)
include intact

/-- A whole line of an intact receiver is the next message. -/
theorem Intact.next {text tail : List UInt8}
    (absent : newline ∉ text) (h : receiver.unread = text ++ newline :: tail) :
    ∃ message rest, messages = receiver.received ++ message :: rest ∧
      text = json.toVec message ∧ tail = Lines.frame newline (rest.map json.toVec) := by
  obtain ⟨rest, whole, unread⟩ := intact.ahead
  rw [unread] at h
  cases rest with
  | nil => simp at h
  | cons message rest =>
    rw [List.map_cons, Lines.frame_cons] at h
    obtain ⟨same, remaining⟩ := cut_unique h (json.plain message) absent
    exact ⟨message, rest, whole, same.symm, remaining.symm⟩

theorem Intact.poll (running : receiver.error = none) :
    Intact json messages (receiver.poll json) ∨
      (Astray json messages (receiver.poll json) ∧ ¬ Short json messages) := by
  rcases receiver.poll_cases json intact.plain with
    ⟨unread, plain, received, error⟩ | ⟨text, rest, unread, absent, polled⟩
  · obtain ⟨later, whole, frames⟩ := intact.ahead
    left
    refine ⟨plain, ?_, ⟨later, ?_, ?_⟩, ?_⟩
    · rw [received]
      exact intact.short
    · rw [received]
      exact whole
    · rw [unread]
      exact frames
    · rw [error, running]
      intro failed
      cases failed
  · obtain ⟨message, later, whole, same, frames⟩ := intact.next absent unread
    rw [polled, same, readLine_toVec]
    split
    · rename_i long
      right
      refine ⟨Or.inl ⟨rfl, by simp [whole]⟩, ?_⟩
      intro short
      have fits := short message (by simp [whole])
      omega
    · rename_i fits
      left
      refine ⟨List.not_mem_nil, ?_, ⟨later, ?_, ?_⟩, ?_⟩
      · intro other member
        rcases List.mem_append.mp member with old | new
        · exact intact.short other old
        · rw [List.mem_singleton.mp new]
          exact Nat.lt_of_not_le fits
      · simp [whole]
      · simp [Receiver.unread, ← frames]
      · intro failed
        rw [Receiver.finish_ok] at failed
        rw [running] at failed
        cases failed

omit intact in
/-- The bytes a read moves from the transport into the buffer stay unread. -/
theorem unread_read (receiver : Receiver T) (count : Nat) (empty : receiver.buffer = []) :
    Receiver.unread { receiver with
      buffer := receiver.incoming.take count
      incoming := receiver.incoming.drop count } = receiver.unread := by
  simp [Receiver.unread, empty]

theorem Intact.read (running : receiver.error = none) (count : Nat) (empty : receiver.buffer = []) :
    Intact json messages { receiver with
      buffer := receiver.incoming.take count
      incoming := receiver.incoming.drop count } := by
  obtain ⟨rest, whole, frames⟩ := intact.ahead
  refine ⟨intact.plain, intact.short, ⟨rest, whole, ?_⟩, ?_⟩
  · rw [unread_read receiver count empty]
    exact frames
  · intro failed
    rw [running] at failed
    cases failed

theorem Intact.closed (empty : receiver.buffer = []) (drained : receiver.incoming = []) :
    Intact json messages (receiver.finish (readLine json receiver.line)) := by
  obtain ⟨rest, whole, frames⟩ := intact.ahead
  have unread : receiver.unread = receiver.line := by simp [Receiver.unread, empty, drained]
  have absent := intact.plain
  rw [← unread, frames] at absent
  have last := List.map_eq_nil_iff.mp (Lines.eq_nil_of_frame absent)
  have nothing : receiver.line = [] := by
    rw [← unread, frames, last]
    rfl
  have eof : readLine json receiver.line = .error .io := by
    rw [nothing]
    rfl
  rw [eof]
  refine ⟨List.not_mem_nil, intact.short, ⟨[], by simp [whole, last], ?_⟩, ?_⟩
  · simp [Receiver.unread, empty, drained]
  · exact fun _ => ⟨drained, empty⟩

/-- The other branch wins inside a message. -/
theorem Intact.torn (inside : receiver.line ≠ []) :
    Torn json messages { receiver with line := [] } := by
  obtain ⟨rest, whole, frames⟩ := intact.ahead
  cases rest with
  | nil =>
    have nothing := List.append_eq_nil_iff.mp frames
    exact absurd nothing.1 inside
  | cons message rest =>
    rw [List.map_cons, Lines.frame_cons] at frames
    obtain ⟨left_, ends, more⟩ := split_line intact.plain frames
    refine ⟨message, rest, left_, whole, ⟨receiver.line, ends.symm⟩, ?_, more⟩
    intro same
    have lengths := congrArg List.length ends
    rw [List.length_append, ← same] at lengths
    have some_ := List.length_pos_of_ne_nil inside
    omega

omit intact in
theorem Torn.poll (torn : Torn json messages receiver) (plain : newline ∉ receiver.line) :
    Astray json messages (receiver.poll json) := by
  obtain ⟨message, rest, text, whole, ends, shorter, unread⟩ := torn
  rcases receiver.poll_cases json plain with
    ⟨same, still, received, _⟩ | ⟨line, later, split, absent, polled⟩
  · right
    refine ⟨still, Or.inl ⟨message, rest, text, ?_, ends, shorter, ?_⟩⟩
    · rw [received]
      exact whole
    · rw [same]
      exact unread
  · have inText : newline ∉ text := fun member => json.plain message (ends.mem member)
    obtain ⟨sameLine, _⟩ := cut_unique (unread.symm.trans split) inText absent
    rw [polled]
    cases result : readLine json (line ++ [newline]) with
    | error error =>
      left
      refine ⟨rfl, ?_⟩
      simp [whole]
    | ok other =>
      right
      refine ⟨List.not_mem_nil, Or.inr ?_⟩
      intro front
      have read := (readLine_ok result).2
      simp only [Receiver.finish_ok, whole] at front
      have head := (List.prefix_append_right_inj _).mp front
      have same : other = message := by
        obtain ⟨_, h⟩ := head
        exact (List.cons.inj h).1
      rw [same, ← sameLine] at read
      exact shorter (json.whole message text ends read)

omit intact in
theorem Torn.other (torn : Torn json messages receiver) (plain : newline ∉ receiver.line) :
    Torn json messages { receiver with line := [] } := by
  obtain ⟨message, rest, text, whole, ends, shorter, unread⟩ := torn
  obtain ⟨left_, split, more⟩ := split_line plain unread
  have suffix_ : left_ <:+ text := ⟨receiver.line, split.symm⟩
  refine ⟨message, rest, left_, whole, suffix_.trans ends, ?_, more⟩
  intro same
  have short := ends.length_le
  rw [← same] at short
  exact shorter ((suffix_.eq_of_length_le short) ▸ same)

omit intact in
theorem finish_grows (receiver : Receiver T) (result : Except IpcError T) :
    receiver.received <+: (receiver.finish result).received ∧
      newline ∉ (receiver.finish result).line := by
  cases result with
  | ok message => exact ⟨List.prefix_append _ _, List.not_mem_nil⟩
  | error error => exact ⟨List.prefix_refl _, List.not_mem_nil⟩

omit intact in
theorem poll_grows {receiver : Receiver T} (plain : newline ∉ receiver.line) :
    receiver.received <+: (receiver.poll json).received ∧
      newline ∉ (receiver.poll json).line := by
  rcases receiver.poll_cases json plain with
    ⟨_, still, received, _⟩ | ⟨_, rest, _, _, polled⟩
  · rw [received]
    exact ⟨List.prefix_refl _, still⟩
  · rw [polled]
    exact finish_grows { receiver with buffer := rest } _

variable {next : Receiver T} {event : Event}

omit intact in
/-- What one step does, by event. -/
theorem step_cases (stepped : receiver.step json event = some next) :
    receiver.error = none ∧
      ((event = .poll ∧ next = receiver.poll json) ∨
       (∃ count, event = .read count ∧ receiver.buffer = [] ∧
          next = { receiver with
            buffer := receiver.incoming.take count
            incoming := receiver.incoming.drop count }.poll json) ∨
       (event = .closed ∧ receiver.buffer = [] ∧ receiver.incoming = [] ∧
          next = receiver.finish (readLine json receiver.line)) ∨
       (event = .other ∧ next = { receiver with line := [] })) := by
  unfold Receiver.step at stepped
  split at stepped
  · cases stepped
  · rename_i running
    refine ⟨by simpa using running, ?_⟩
    cases event with
    | poll =>
      cases stepped
      exact .inl ⟨rfl, rfl⟩
    | read count =>
      simp only at stepped
      split at stepped
      · rename_i possible
        cases stepped
        exact .inr (.inl ⟨count, rfl, possible.1, rfl⟩)
      · cases stepped
    | closed =>
      simp only at stepped
      split at stepped
      · rename_i possible
        cases stepped
        exact .inr (.inr (.inl ⟨rfl, possible.1, possible.2, rfl⟩))
      · cases stepped
    | other =>
      cases stepped
      exact .inr (.inr (.inr ⟨rfl, rfl⟩))

omit intact in
theorem Astray.step {messages : List T} {receiver : Receiver T}
    (astray : Astray json messages receiver) (stepped : receiver.step json event = some next) :
    Astray json messages next := by
  obtain ⟨running, moves⟩ := step_cases stepped
  rcases astray with ⟨ended, _⟩ | ⟨plain, torn | ahead⟩
  · rw [running] at ended
    cases ended
  · rcases moves with ⟨_, rfl⟩ | ⟨count, _, empty, rfl⟩ | ⟨_, empty, drained, rfl⟩ | ⟨_, rfl⟩
    · exact torn.poll plain
    · have moved : Torn json messages { receiver with
          buffer := receiver.incoming.take count
          incoming := receiver.incoming.drop count } := by
        obtain ⟨message, rest, text, whole, ends, shorter, unread⟩ := torn
        refine ⟨message, rest, text, whole, ends, shorter, ?_⟩
        rw [unread_read receiver count empty]
        exact unread
      exact moved.poll plain
    · obtain ⟨message, rest, text, whole, ends, shorter, unread⟩ := torn
      have same : receiver.unread = receiver.line := by simp [Receiver.unread, empty, drained]
      rw [← same, unread] at plain
      exact absurd (List.mem_append_right text List.mem_cons_self) plain
    · exact .inr ⟨List.not_mem_nil, Or.inl (torn.other plain)⟩
  · have grown : receiver.received <+: next.received ∧ newline ∉ next.line := by
      rcases moves with ⟨_, rfl⟩ | ⟨count, _, empty, rfl⟩ | ⟨_, empty, drained, rfl⟩ | ⟨_, rfl⟩
      · exact poll_grows plain
      · exact @poll_grows T json { receiver with
          buffer := receiver.incoming.take count
          incoming := receiver.incoming.drop count } plain
      · exact finish_grows _ _
      · exact ⟨List.prefix_refl _, List.not_mem_nil⟩
    exact .inr ⟨grown.2, Or.inr fun front => ahead (grown.1.trans front)⟩

omit intact in
/-- An undisturbed step keeps an intact receiver intact, but for a message of the full length. -/
theorem Intact.step {messages : List T} {receiver : Receiver T}
    (intact : Intact json messages receiver) (undisturbed : Uninterrupted receiver event)
    (stepped : receiver.step json event = some next) :
    Intact json messages next ∨ (Astray json messages next ∧ ¬ Short json messages) := by
  obtain ⟨running, moves⟩ := step_cases stepped
  rcases moves with ⟨_, rfl⟩ | ⟨count, _, empty, rfl⟩ | ⟨_, empty, drained, rfl⟩ | ⟨rfl, rfl⟩
  · exact intact.poll running
  · exact (intact.read running count empty).poll running
  · exact .inl (intact.closed empty drained)
  · have same : { receiver with line := [] } = receiver := by
      rw [← undisturbed]
    rw [same]
    exact .inl intact

theorem Intact.interrupted (disturbed : ¬ Uninterrupted receiver event)
    (stepped : receiver.step json event = some next) : Astray json messages next := by
  rcases (step_cases stepped).2 with ⟨rfl, _⟩ | ⟨_, rfl, _⟩ | ⟨rfl, _⟩ | ⟨rfl, rfl⟩
  · exact absurd trivial disturbed
  · exact absurd trivial disturbed
  · exact absurd trivial disturbed
  · exact .inr ⟨List.not_mem_nil, Or.inl (intact.torn disturbed)⟩

/-! ## Runs -/

omit intact in
theorem Astray.run {final : Receiver T} {events : List Event}
    (astray : Astray json messages receiver)
    (ran : Machine.run (Receiver.step json) receiver events = some final) :
    Astray json messages final := by
  induction events generalizing receiver with
  | nil =>
    cases ran
    exact astray
  | cons event events ih =>
    obtain ⟨next, stepped, ran⟩ := Option.bind_eq_some_iff.mp ran
    exact ih (astray.step stepped) ran

/-- A run is intact to its end, or it went astray where the other branch won inside a
message or a message had the full length. -/
theorem Intact.run {final : Receiver T} {events : List Event}
    (ran : Machine.run (Receiver.step json) receiver events = some final) :
    (Machine.Meets (Receiver.step json) Uninterrupted receiver events ∧
      Intact json messages final) ∨
    (Astray json messages final ∧
      ¬ (Machine.Meets (Receiver.step json) Uninterrupted receiver events ∧
        Short json messages)) := by
  induction events generalizing receiver with
  | nil =>
    cases ran
    exact .inl ⟨trivial, intact⟩
  | cons event events ih =>
    obtain ⟨next, stepped, ran⟩ := Option.bind_eq_some_iff.mp ran
    by_cases undisturbed : Uninterrupted receiver event
    · rcases intact.step undisturbed stepped with whole | ⟨astray, long⟩
      · rcases ih whole ran with ⟨later, ended⟩ | ⟨ended, broken⟩
        · exact .inl ⟨(Machine.meets_cons stepped).mpr ⟨undisturbed, later⟩, ended⟩
        · exact .inr ⟨ended, fun met => broken ⟨met.1.2 next stepped, met.2⟩⟩
      · exact .inr ⟨astray.run ran, fun met => long met.2⟩
    · exact .inr ⟨(intact.interrupted undisturbed stepped).run ran,
        fun met => undisturbed met.1.1⟩

/-- With everything read, an intact receiver has everything that was sent. -/
theorem Intact.settled (settled : receiver.Settled) :
    receiver.received = messages := by
  obtain ⟨rest, whole, frames⟩ := intact.ahead
  have nothing : receiver.incoming = [] ∧ receiver.buffer = [] :=
    settled.elim intact.ended fun drained => drained
  have absent := intact.plain
  have unread : receiver.unread = receiver.line := by
    simp [Receiver.unread, nothing.1, nothing.2]
  rw [← unread, frames] at absent
  have last := List.map_eq_nil_iff.mp (Lines.eq_nil_of_frame absent)
  rw [whole, last, List.append_nil]

end

theorem Astray.received_ne (astray : Astray json messages receiver) :
    receiver.received ≠ messages := by
  rcases astray with ⟨_, missing⟩ | ⟨_, ⟨message, rest, text, whole, _⟩ | ahead⟩
  · exact missing
  · intro same
    rw [same] at whole
    have lengths := congrArg List.length whole
    rw [List.length_append, List.length_cons] at lengths
    omega
  · intro same
    rw [same] at ahead
    exact ahead (List.prefix_refl _)

/-- The receiver obtains the messages that were sent, in order and each once, exactly where
the other branch wins between messages only and every message is below the full length. -/
theorem received_iff_uninterrupted {messages : List T} {lines : List (List UInt8)}
    (written : messages.mapM (writeMessage json) = .ok lines) {events : List Event}
    {final : Receiver T}
    (ran : Machine.run (Receiver.step json) (Receiver.start T lines) events = some final)
    (settled : final.Settled) :
    final.received = messages ↔
      Machine.Meets (Receiver.step json) Uninterrupted (Receiver.start T lines) events ∧
        Short json messages := by
  constructor
  · intro same
    rcases (intact_start written).run ran with ⟨met, intact⟩ | ⟨astray, _⟩
    · refine ⟨met, ?_⟩
      rw [← same]
      exact intact.short
    · exact absurd same astray.received_ne
  · intro met
    rcases (intact_start written).run ran with ⟨_, intact⟩ | ⟨_, broken⟩
    · exact intact.settled settled
    · exact absurd met broken

end

/-! ## A command and its text -/

def clearCaptures : List UInt8 :=
  "\x7b\"kind\":\"command\",\"command\":\x7b\"command\":\"clear_captures\"\x7d\x7d".toList.map
    fun c => c.toNat.toUInt8

/-- `ClientMessage::Command` with `Command::ClearCaptures`. -/
def commandJson : SerdeJson Unit where
  toVec _ := clearCaptures
  fromSlice text := if text = clearCaptures ++ [newline] then some () else none
  plain _ := by decide
  read_back _ := if_pos rfl
  whole := by
    intro message text _ read
    by_cases same : text ++ [newline] = clearCaptures ++ [newline]
    · exact List.append_cancel_right same
    · rw [if_neg same] at read
      cases read

/-- A snapshot changes after the first five bytes of a command: the command is lost. -/
theorem interrupted_command_lost :
    ∃ lines events final, [()].mapM (writeMessage commandJson) = .ok lines ∧
      Machine.run (Receiver.step commandJson) (Receiver.start Unit lines) events = some final ∧
      final.Settled ∧ final.received ≠ [()] :=
  ⟨[clearCaptures ++ [newline]], [.read 5, .other, .read 53], _, rfl, rfl, Or.inl rfl,
    by decide⟩

/-- The same command in two reads, with a snapshot change before them. -/
theorem command_received :
    ∃ final, Machine.run (Receiver.step commandJson)
        (Receiver.start Unit [clearCaptures ++ [newline]]) [.other, .read 5, .read 53] = some final ∧
      final.received = [()] :=
  ⟨_, rfl, (@received_iff_uninterrupted Unit commandJson [()] [clearCaptures ++ [newline]] rfl
    [.other, .read 5, .read 53] _ rfl (Or.inr ⟨rfl, rfl⟩)).mpr
    ⟨by decide, fun _ _ => (by decide : clearCaptures.length < MAX_MESSAGE_BYTES)⟩⟩

end Gunda.Ipc

import Gunda.Http.Resumption

/-!
# Reading a body

`gunda-http/src/body.rs`: a body is read block by block, from whatever the transport answers, and
no call of `next_chunk` delivers more than was announced or ends before it. And what the answers
to range requests have to say for such a body to be opened.
-/
namespace Gunda.Http

open Gunda.Lib Gunda.Lib.Text
open Fallible (Yields)
open Gunda.Core (RequestContext)

variable {result : Except HttpError (Option Bytes)} {value : Text} {range : ContentRange}

/-- What the transport answers when it is asked for a block. -/
inductive Arrival where
  | block (bytes : Bytes)
  | ended
  | broken (error : HttpError)

/-- A body that is being read; it responds until it ended or failed. -/
structure BodyState where
  responds : Bool
  metadata : HttpInspection
  receivedBytes : Nat
  failure : Option HttpError

namespace BodyState

def new (metadata : HttpInspection) : BodyState := ⟨true, metadata, 0, none⟩

def stopWithError (body : BodyState) (error : HttpError) : BodyState :=
  { body with failure := some error, responds := false }

/-- What a call returns, if the transport answered as often as it asked. -/
abbrev Read : Type := Option (Except HttpError (Option Bytes)) × BodyState × List Arrival

/-- The loop of `next_chunk`, which passes over empty blocks. -/
def nextBlock (body : BodyState) : List Arrival → Read
  | [] => (none, body, [])
  | .broken error :: later => (some (.error error), body.stopWithError error, later)
  | .ended :: later => match finishBody body.metadata body.receivedBytes none with
      | .error error => (some (.error error), body.stopWithError error, later)
      | .ok () => (some (.ok none), { body with responds := false }, later)
  | .block bytes :: later =>
      if bytes = [] then nextBlock body later
      else match receiveChunk body.metadata body.receivedBytes bytes with
        | .error error => (some (.error error), body.stopWithError error, later)
        | .ok received =>
            (some (.ok (some bytes)), { body with receivedBytes := received }, later)

def nextChunk (body : BodyState) (arrivals : List Arrival) : Read :=
  match body.failure with
  | some error => (some (.error error), body, arrivals)
  | none => if body.responds then nextBlock body arrivals else (some (.ok none), body, arrivals)

/-- The results of a number of calls, up to one that still waits. -/
def reads : Nat → BodyState → List Arrival → List (Except HttpError (Option Bytes))
  | 0, _, _ => []
  | calls + 1, body, arrivals => match body.nextChunk arrivals with
      | (none, _, _) => []
      | (some result, after, later) => result :: reads calls after later

end BodyState

/-- The bytes that results deliver. -/
def delivered (results : List (Except HttpError (Option Bytes))) : Bytes :=
  results.flatMap fun result => match result with
    | .ok (some bytes) => bytes
    | _ => []

/-! ## One call -/

/-- What a call that returns does. -/
inductive Turn (body : BodyState) : Except HttpError (Option Bytes) → BodyState → Prop
  | again {error : HttpError} (failed : body.failure = some error) : Turn body (.error error) body
  | past (unfailed : body.failure = none) (closed : body.responds = false) : Turn body (.ok none) body
  | stopped (error : HttpError) : Turn body (.error error) (body.stopWithError error)
  | finished (unfailed : body.failure = none)
      (whole : ∀ length ∈ body.metadata.contentLength, length = body.receivedBytes) :
      Turn body (.ok none) { body with responds := false }
  | block {bytes : Bytes} (unfailed : body.failure = none) (open_ : body.responds = true)
      (few : ∀ length ∈ body.metadata.contentLength, body.receivedBytes + bytes.length ≤ length) :
      Turn body (.ok (some bytes)) { body with receivedBytes := body.receivedBytes + bytes.length }

theorem receiveChunk_few {metadata : HttpInspection} {receivedBytes received : Nat} {chunk : Bytes}
    (h : receiveChunk metadata receivedBytes chunk = .ok received) :
    ∀ length ∈ metadata.contentLength, receivedBytes + chunk.length ≤ length := by
  unfold receiveChunk at h
  split at h
  · cases h
  · split at h
    · cases h
    · rename_i few
      intro length known
      rw [known] at few
      simpa using few

variable {body after : BodyState}

theorem nextBlock_turn {arrivals later : List Arrival} (unfailed : body.failure = none)
    (open_ : body.responds = true) (h : body.nextBlock arrivals = (some result, after, later)) :
    Turn body result after := by
  induction arrivals with
  | nil => cases h
  | cons arrival arrivals ih =>
    cases arrival with
    | broken error =>
      cases h
      exact .stopped error
    | ended =>
      unfold BodyState.nextBlock at h
      split at h
      · cases h
        exact .stopped _
      · rename_i whole
        cases h
        exact .finished unfailed (finishBody_ok whole).2
    | block bytes =>
      unfold BodyState.nextBlock at h
      split at h
      · exact ih h
      · split at h
        · cases h
          exact .stopped _
        · rename_i received taken
          cases h
          rw [receiveChunk_ok taken]
          exact .block unfailed open_ (receiveChunk_few taken)

theorem nextChunk_turn {arrivals later : List Arrival}
    (h : body.nextChunk arrivals = (some result, after, later)) : Turn body result after := by
  unfold BodyState.nextChunk at h
  split at h
  · rename_i error failed
    cases h
    exact .again failed
  · rename_i unfailed
    split at h
    · rename_i open_
      exact nextBlock_turn unfailed open_ h
    · rename_i closed
      cases h
      exact .past unfailed (Bool.eq_false_iff.mpr closed)

/-! ## Any number of calls -/

/-- What holds of a body between calls. -/
structure BodyState.Sound (body : BodyState) : Prop where
  few : ∀ length ∈ body.metadata.contentLength, body.receivedBytes ≤ length
  ended : body.responds = false → body.failure = none →
    ∀ length ∈ body.metadata.contentLength, length = body.receivedBytes

theorem BodyState.new_sound (metadata : HttpInspection) : (BodyState.new metadata).Sound :=
  ⟨fun _ _ => Nat.zero_le _, fun closed => (nomatch closed)⟩

/-- What a call leaves, and what it delivered. -/
structure Turned (body : BodyState) (result : Except HttpError (Option Bytes)) (after : BodyState) :
    Prop where
  sound : after.Sound
  same : after.metadata = body.metadata
  received : after.receivedBytes = body.receivedBytes + (delivered [result]).length
  whole : result = .ok none → after.responds = false ∧ after.failure = none
  failed : ∀ error, result = .error error → after.failure = some error

theorem Turn.turned (turn : Turn body result after) (sound : body.Sound) :
    Turned body result after := by
  cases turn with
  | again failed =>
    refine ⟨sound, rfl, rfl, fun other => (nomatch other), fun error same => ?_⟩
    cases same
    exact failed
  | past unfailed closed =>
    exact ⟨sound, rfl, rfl, fun _ => ⟨closed, unfailed⟩, fun _ other => (nomatch other)⟩
  | stopped error =>
    refine ⟨⟨sound.few, fun _ unfailed => (nomatch unfailed)⟩, rfl, rfl,
      fun other => (nomatch other), fun error same => ?_⟩
    cases same
    rfl
  | finished unfailed whole =>
    exact ⟨⟨sound.few, fun _ _ => whole⟩, rfl, rfl, fun _ => ⟨rfl, unfailed⟩,
      fun _ other => (nomatch other)⟩
  | @block bytes unfailed open_ few =>
    have handed : delivered [.ok (some bytes)] = bytes := List.append_nil bytes
    refine ⟨⟨few, fun closed => ?_⟩, rfl, by rw [handed], fun other => (nomatch other),
      fun _ other => (nomatch other)⟩
    rw [open_] at closed
    cases closed

theorem delivered_cons (result : Except HttpError (Option Bytes))
    (results : List (Except HttpError (Option Bytes))) :
    delivered (result :: results) = delivered [result] ++ delivered results := by
  unfold delivered
  rw [List.flatMap_cons, List.flatMap_cons, List.flatMap_nil, List.append_nil]

/-- A body that failed fails in the same way on every call. -/
theorem reads_again {result : Except HttpError (Option Bytes)} {arrivals : List Arrival}
    (again : body.nextChunk arrivals = (some result, body, arrivals)) (calls : Nat) :
    ∀ called ∈ body.reads calls arrivals, called = result := by
  induction calls with
  | zero => exact fun _ none => (nomatch none)
  | succ calls ih =>
    unfold BodyState.reads
    rw [again]
    exact List.forall_mem_cons.mpr ⟨rfl, ih⟩

theorem reads_failed {error : HttpError} (failed : body.failure = some error) (calls : Nat)
    (arrivals : List Arrival) :
    ∀ result ∈ body.reads calls arrivals, result = .error error :=
  reads_again (by unfold BodyState.nextChunk; rw [failed]) calls

theorem reads_ended (closed : body.responds = false) (unfailed : body.failure = none)
    (calls : Nat) (arrivals : List Arrival) :
    ∀ result ∈ body.reads calls arrivals, result = .ok none :=
  reads_again (by unfold BodyState.nextChunk; rw [unfailed, closed]; rfl) calls

/-- The results of calls on a body of this length, so many bytes of which came before. -/
structure Exact (length receivedBytes : Nat) (results : List (Except HttpError (Option Bytes))) :
    Prop where
  few : receivedBytes + (delivered results).length ≤ length
  ended : ∀ before after, results = before ++ .ok none :: after →
    receivedBytes + (delivered before).length = length ∧ ∀ result ∈ after, result = .ok none
  failed : ∀ before error after, results = before ++ .error error :: after →
    ∀ result ∈ after, result = .error error

theorem reads_exact (sound : body.Sound) {length : Nat}
    (announced : body.metadata.contentLength = some length) (calls : Nat)
    (arrivals : List Arrival) :
    Exact length body.receivedBytes (body.reads calls arrivals) := by
  have none_ : Exact length body.receivedBytes [] :=
    ⟨sound.few length announced, fun before _ same => absurd same.symm (by simp),
      fun before _ _ same => absurd same.symm (by simp)⟩
  induction calls generalizing body arrivals with
  | zero => exact none_
  | succ calls ih =>
    unfold BodyState.reads
    cases called : body.nextChunk arrivals with
    | mk returned rest =>
      obtain ⟨after, later⟩ := rest
      cases returned with
      | none => exact none_
      | some result =>
        have turned := (nextChunk_turn called).turned sound
        have announced' : after.metadata.contentLength = some length := turned.same ▸ announced
        have following := ih turned.sound announced' later
          ⟨turned.sound.few length announced', fun before _ same => absurd same.symm (by simp),
            fun before _ _ same => absurd same.symm (by simp)⟩
        have received := turned.received
        constructor
        · have few := following.few
          rw [delivered_cons, List.length_append]
          omega
        · intro before others same
          cases before with
          | nil =>
            cases same
            obtain ⟨closed, unfailed⟩ := turned.whole rfl
            have whole := turned.sound.ended closed unfailed length announced'
            exact ⟨by rw [whole, received]; rfl, reads_ended closed unfailed calls later⟩
          | cons first before =>
            obtain ⟨same, others⟩ := List.cons.inj same
            cases same
            obtain ⟨whole, silent⟩ := following.ended _ _ others
            rw [delivered_cons, List.length_append]
            exact ⟨by omega, silent⟩
        · intro before error others same
          cases before with
          | nil =>
            cases same
            exact reads_failed (turned.failed error rfl) calls later
          | cons first before => exact following.failed _ _ _ (List.cons.inj same).2

/-! ## Whole bodies -/

/-- What the transport answers for a response. -/
def arrivals (chunks : List Bytes) (failure : Option HttpError) : List Arrival :=
  chunks.map .block ++ [match failure with
    | some error => .broken error
    | none => .ended]

/-- The result that ends a body. -/
def endResult : Except HttpError Unit → Except HttpError (Option Bytes)
  | .ok () => .ok none
  | .error error => .error error

theorem nextChunk_open (unfailed : body.failure = none) (open_ : body.responds = true)
    (answers : List Arrival) :
    body.nextChunk answers = body.nextBlock answers := by
  unfold BodyState.nextChunk
  rw [unfailed, open_]
  rfl

/-- The calls on a response hand out its blocks one after the other. -/
theorem reads_deliver (unfailed : body.failure = none) (open_ : body.responds = true)
    (chunks : List Bytes) (failure : Option HttpError) :
    body.reads ((deliver body.metadata failure body.receivedBytes chunks).1.length + 1)
        (arrivals chunks failure) =
      (deliver body.metadata failure body.receivedBytes chunks).1.map (fun bytes => .ok (some bytes)) ++
        [endResult (deliver body.metadata failure body.receivedBytes chunks).2] := by
  induction chunks generalizing body with
  | nil =>
    unfold BodyState.reads
    rw [nextChunk_open unfailed open_]
    unfold arrivals BodyState.nextBlock deliver
    cases failure with
    | some error => rfl
    | none => cases finishBody body.metadata body.receivedBytes none <;> rfl
  | cons chunk chunks ih =>
    by_cases empty : chunk = []
    · have skipped : deliver body.metadata failure body.receivedBytes (chunk :: chunks) =
          deliver body.metadata failure body.receivedBytes chunks := if_pos empty
      have passed : body.nextChunk (arrivals (chunk :: chunks) failure) =
          body.nextChunk (arrivals chunks failure) := by
        rw [nextChunk_open unfailed open_, nextChunk_open unfailed open_]
        exact if_pos empty
      rw [skipped, ← ih unfailed open_]
      unfold BodyState.reads
      rw [passed]
    · unfold deliver
      rw [if_neg empty]
      unfold BodyState.reads
      have read : body.nextChunk (arrivals (chunk :: chunks) failure) =
          match receiveChunk body.metadata body.receivedBytes chunk with
          | .error error => (some (.error error), body.stopWithError error, arrivals chunks failure)
          | .ok received => (some (.ok (some chunk)), { body with receivedBytes := received },
              arrivals chunks failure) := by
        rw [nextChunk_open unfailed open_]
        exact if_neg empty
      rw [read]
      cases receiveChunk body.metadata body.receivedBytes chunk with
      | error error => rfl
      | ok received =>
        have following := @ih { body with receivedBytes := received } unfailed open_
        exact congrArg (.ok (some chunk) :: ·) following

theorem reads_deliver_example :
    (BodyState.new ⟨some 3, none, none⟩).reads 3 (arrivals [[1, 2], [], [3]] none) =
      [.ok (some [1, 2]), .ok (some [3]), .ok none] :=
  @reads_deliver (.new ⟨some 3, none, none⟩) rfl rfl [[1, 2], [], [3]] none

/-! ## The answers to range requests -/

/-- A value spells an interval of a representation in decimal numbers. -/
def Denotes (value : Text) (start last total : Nat) : Prop :=
  ∃ unit first second size, value = unit ++ ' ' :: (first ++ '-' :: second ++ '/' :: size) ∧
    eqIgnoreAsciiCase unit "bytes".toList = true ∧ digitsValue first = some start ∧
    digitsValue second = some last ∧ digitsValue size = some total

theorem parseDecimal_ok {number : Nat} (h : parseDecimal value = .ok number) :
    digitsValue value = some number := by
  unfold parseDecimal at h
  obtain ⟨digits, h⟩ := throw_unless_ok h
  rw [not_or, not_not] at digits
  have unsigned : stripPrefix ['+'] value = none := by
    cases value with
    | nil => rfl
    | cons c value =>
      have digit := List.all_eq_true.mp digits.2 c (.head _)
      have other : ('+' == c) = false := beq_eq_false_iff_ne.mpr fun same => by
        rw [← same] at digit
        exact absurd digit (by decide)
      rw [stripPrefix, List.isPrefixOf, other]
      rfl
  split at h
  · rename_i found parsed
    cases h
    rw [parseU64, parseUnsigned, unsigned, Option.getD_none] at parsed
    exact (Option.filter_eq_some_iff.mp parsed).1
  · cases h

theorem splitPart_ok {separator : Char} {parts : Text × Text}
    (h : ContentRange.splitPart separator value = .ok parts) :
    value = parts.1 ++ separator :: parts.2 := by
  unfold ContentRange.splitPart at h
  split at h
  · rename_i split
    cases h
    exact (splitOnce_eq_some split).1
  · cases h

theorem parse_denotes (h : ContentRange.parse value = .ok range) :
    Denotes value range.start range.last range.total := by
  unfold ContentRange.parse at h
  obtain ⟨⟨unit, described⟩, first, h⟩ := bind_ok h
  obtain ⟨bytes, h⟩ := guard_ok h
  obtain ⟨⟨interval, size⟩, second, h⟩ := bind_ok h
  obtain ⟨⟨start, last⟩, third, h⟩ := bind_ok h
  obtain ⟨startValue, startRead, h⟩ := bind_ok h
  obtain ⟨lastValue, lastRead, h⟩ := bind_ok h
  obtain ⟨totalValue, totalRead, h⟩ := bind_ok h
  split at h
  · cases h
    refine ⟨unit, start, last, size, ?_, by simpa using bytes, parseDecimal_ok startRead,
      parseDecimal_ok lastRead, parseDecimal_ok totalRead⟩
    rw [splitPart_ok first, splitPart_ok second, splitPart_ok third]
  · cases h

theorem contentRange_denotes {headers : HeaderMap} (h : contentRange headers = .ok range) :
    ∃ value,
      headers.getAll "content-range".toList = [value] ∧
        Denotes value range.start range.last range.total := by
  unfold contentRange at h
  obtain ⟨found, single, h⟩ := bind_ok h
  cases found with
  | none => cases h
  | some value =>
    refine ⟨value, ?_, parse_denotes h⟩
    unfold singleHeader at single
    split at single
    · cases single
    · rename_i only
      split at single
      · cases single
        exact only
      · cases single
    · cases single

section

variable {urls : UrlLibrary} {Op : Type} {Ans : Op → Type} {σ : Type}
  {send : Exchange → Program Op Ans (Except HttpError Response)} {S : Spec Op Ans σ}
  {request : RequestContext} {s t : σ} {response : Response} {metadata : HttpInspection}

theorem unasked {α : Type} {program : Fallible Op Ans HttpError α} :
    Yields { S with requires := fun _ _ => True } (fun _ => True) program
      (fun _ _ => True) s := Yields.free (fun _ _ => trivial) program

/-- However an opened range was asked for and redirected, its last answer was inspected. -/
theorem openRange_opened {start total : Nat} {validator : StrongEntityTag}
    (run : Program.Steps S ((openRange urls send request start total validator).run, s)
      (.done (.ok (response, metadata)), t)) :
    start < total ∧ inspectRange start total validator response = .ok metadata := by
  have opened : Yields { S with requires := fun _ _ => True } (fun _ => True)
      (openRange urls send request start total validator) (fun opened _ =>
        start < total ∧ inspectRange start total validator opened.1 = .ok opened.2) s := by
    unfold openRange
    refine unasked.bind fun _ _ _ => ?_
    split
    · exact .fail _ trivial
    · rename_i inside
      refine unasked.bind fun headers _ _ => ?_
      refine unasked.bind fun response u _ => ?_
      refine (Yields.result (P := fun metadata _ =>
        inspectRange start total validator response = .ok metadata) trivial
          fun _ inspected => inspected).bind fun metadata _ inspected => ?_
      exact Yields.pure ⟨by omega, inspected⟩
  exact opened.value (Program.steps_requires _ run)

theorem openByteRange_opened {first last : Nat} {range : ContentRange}
    (run : Program.Steps S ((openByteRange urls send request first last).run, s)
      (.done (.ok (response, metadata, range)), t)) :
    inspectByteRange first last response = .ok (metadata, range) := by
  have opened : Yields { S with requires := fun _ _ => True } (fun _ => True)
      (openByteRange urls send request first last) (fun opened _ =>
        inspectByteRange first last opened.1 = .ok opened.2) s := by
    unfold openByteRange
    refine unasked.bind fun _ _ _ => ?_
    split
    · exact .fail _ trivial
    · refine unasked.bind fun headers _ _ => ?_
      refine unasked.bind fun response u _ => ?_
      refine (Yields.result (P := fun inspected _ =>
        inspectByteRange first last response = .ok inspected) trivial
          fun _ inspected => inspected).bind fun inspected _ accepted => ?_
      exact Yields.pure accepted
  exact opened.value (Program.steps_requires _ run)

end

theorem inspectByteRange_ok {first last : Nat} {response : Response} {metadata : HttpInspection}
    (h : inspectByteRange first last response = .ok (metadata, range)) :
    response.status = 206 ∧ contentRange response.headers = .ok range ∧ range.start = first ∧
      range.last = last ∧ metadata.contentLength = some range.bodyLength := by
  unfold inspectByteRange at h
  obtain ⟨status, h⟩ := guard_ok h
  obtain ⟨range, named, h⟩ := bind_ok h
  obtain ⟨interval, h⟩ := guard_ok h
  obtain ⟨inspected, read, h⟩ := bind_ok h
  obtain ⟨-, h⟩ := guard_ok h
  obtain ⟨-, h⟩ := guard_ok h
  cases h
  exact ⟨not_not.mp status, named, by omega, by omega, rfl⟩

/-- However often a body is read and whatever arrives, it delivers no more than was announced,
ends well only behind exactly that, and goes on failing once it failed; and a range is opened
only on an answer that denotes exactly what was asked for, whose length is then the body's. -/
theorem bodies_are_exact :
    (∀ (metadata : HttpInspection) (length : Nat), metadata.contentLength = some length →
      ∀ (calls : Nat) (answers : List Arrival),
        Exact length 0 ((BodyState.new metadata).reads calls answers)) ∧
    (∀ (urls : UrlLibrary) (Op : Type) (Ans : Op → Type) (σ : Type) (S : Spec Op Ans σ)
      (send : Exchange → Program Op Ans (Except HttpError Response)) (request : RequestContext)
      (start total : Nat) (validator : StrongEntityTag) (response : Response)
      (metadata : HttpInspection) (s t : σ),
      Program.Steps S ((openRange urls send request start total validator).run, s)
        (.done (.ok (response, metadata)), t) →
      response.status = 206 ∧ metadata.contentLength = some (total - start) ∧
        ∃ value, response.headers.getAll "content-range".toList = [value] ∧
          Denotes value start (total - 1) total) ∧
    ∀ (urls : UrlLibrary) (Op : Type) (Ans : Op → Type) (σ : Type) (S : Spec Op Ans σ)
      (send : Exchange → Program Op Ans (Except HttpError Response)) (request : RequestContext)
      (first last : Nat) (response : Response) (metadata : HttpInspection) (range : ContentRange)
      (s t : σ),
      Program.Steps S ((openByteRange urls send request first last).run, s)
        (.done (.ok (response, metadata, range)), t) →
      response.status = 206 ∧ metadata.contentLength = some (last - first + 1) ∧
        last < range.total ∧ ∃ value, response.headers.getAll "content-range".toList = [value] ∧
          Denotes value first last range.total := by
  refine ⟨fun metadata length announced calls answers => ?_, ?_, ?_⟩
  · exact reads_exact (BodyState.new_sound metadata) announced calls answers
  · intro urls Op Ans σ S send request start total validator response metadata s t run
    obtain ⟨inside, inspected⟩ := openRange_opened run
    obtain ⟨status, range, named, first, size, last, length, -⟩ := inspectRange_ok inspected
    refine ⟨status, ?_, ?_⟩
    · rw [length, ContentRange.bodyLength, first, last]
      congr 1
      omega
    · rw [← first, ← size, size, ← last, ← size]
      exact contentRange_denotes named
  · intro urls Op Ans σ S send request first last response metadata range s t run
    obtain ⟨status, named, start, ending, length⟩ := inspectByteRange_ok (openByteRange_opened run)
    refine ⟨status, ?_, ending ▸ range.inside, ?_⟩
    · rw [length, ContentRange.bodyLength, start, ending]
    · rw [← start, ← ending]
      exact contentRange_denotes named

/-! ## A body in two blocks -/

def twoBytes : Response :=
  ⟨206, [("content-range".toList, "bytes 1-2/4".toList)], [[2], [], [3]], none⟩

def twoMetadata : HttpInspection := ⟨some 2, none, none⟩

theorem bodies_are_exact_twoBytes :
    Exact 2 0 ((BodyState.new twoMetadata).reads 4 (arrivals twoBytes.chunks none)) ∧
    (BodyState.new twoMetadata).reads 4 (arrivals twoBytes.chunks none) =
      [.ok (some [2]), .ok (some [3]), .ok none, .ok none] ∧
    ∃ value, twoBytes.headers.getAll "content-range".toList = [value] ∧ Denotes value 1 2 4 := by
  let S : Spec Empty (fun _ => Unit) Unit := ⟨fun _ _ => True, fun _ _ _ _ => True⟩
  have run : Program.Steps S ((openByteRange plainUrls (fun _ => pure (.ok twoBytes))
      ⟨⟨"https://media/film".toList⟩, [], none⟩ 1 2).run, ())
      (.done (.ok (twoBytes, twoMetadata, ⟨1, 2, 4, by decide, by decide⟩)), ()) :=
    Relation.ReflTransGen.refl
  refine ⟨bodies_are_exact.1 twoMetadata 2 rfl 4 _, rfl, ?_⟩
  exact (bodies_are_exact.2.2 _ _ _ _ _ _ _ 1 2 _ _ _ _ _ run).2.2.2

end Gunda.Http

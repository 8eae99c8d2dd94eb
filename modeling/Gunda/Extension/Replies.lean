import Gunda.Extension.Background
import Gunda.Lib.Machine
import Mathlib.Data.List.Sort

/-!
# Replies of one connection

The worker sends requests and reports on one connection; `converse` of
`gunda-capture/src/server.rs` answers every message in order. A reply is matched by its
place in a queue, from which timeouts take requests and malformed answers do not.
-/
namespace Gunda.Extension

open Gunda.Lib
open Gunda.Capture (ServerMessage)

inductive Message where
  | asks (request : Request)
  | report
  deriving DecidableEq, Repr

def Message.asked : Message → Option Request
  | .asks request => some request
  | .report => none

/-- The messages the server may answer with. -/
def Message.answeredBy : Message → ServerMessage → Bool
  | .asks request, message =>
      if request.readable then request.kind.answeredBy message
      else match message with
        | .malformed _ => true
        | _ => false
  | .report, message => match message with
      | .accepted _ | .duplicate _ | .recorded _ _ | .refused _ | .malformed _ => true
      | _ => false

/-- A message of the server, with the request it answers. -/
structure Reply where
  message : ServerMessage
  answers : Option Request
  deriving DecidableEq, Repr

structure Exchange where
  background : Background
  /-- Requests made so far. -/
  made : Nat
  sent : List Message
  replies : List Reply
  closed : Bool

inductive ExchangeEvent where
  | request (kind : RequestKind) (readable : Bool)
  | report
  | serve (message : ServerMessage)
  | receive
  | timeout (request : Request)
  | close
  deriving DecidableEq, Repr

namespace Exchange

/-- A greeted connection. -/
def start : Exchange := ⟨{ Background.start with greeted := true }, 0, [], [], false⟩

def step (exchange : Exchange) : ExchangeEvent → Option Exchange
  | .request kind readable =>
      if exchange.closed then none
      else
        let request : Request := ⟨kind, exchange.made, 0, readable⟩
        some { exchange with
          background := exchange.background.push request
          made := exchange.made + 1
          sent := exchange.sent ++ [.asks request] }
  | .report =>
      if exchange.closed then none
      else some { exchange with sent := exchange.sent ++ [.report] }
  | .serve message =>
      match exchange.sent with
      | [] => none
      | first :: sent =>
          if first.answeredBy message then
            some { exchange with
              sent := sent
              replies := exchange.replies ++ [⟨message, first.asked⟩] }
          else none
  | .receive =>
      match exchange.replies with
      | [] => none
      | reply :: replies =>
          some { exchange with
            background := exchange.background.handle reply.message reply.answers
            replies := replies }
  | .timeout request =>
      if request ∈ exchange.background.queues request.kind then
        some { exchange with background := exchange.background.timeOut request }
      else none
  | .close =>
      if exchange.closed then none
      else some { exchange with
        background := exchange.background.failRequests 0
        sent := []
        replies := []
        closed := true }

end Exchange

/-- A promise is resolved by its own reply, its timer or the end of its connection. -/
def Resolved.Own (resolved : Resolved) : Prop :=
  match resolved.cause with
  | .reply answers => answers = some resolved.request
  | .timer => True
  | .close socket => socket = resolved.request.socket

instance (resolved : Resolved) : Decidable resolved.Own := by
  unfold Resolved.Own
  split <;> infer_instance

namespace Background

def Own (background : Background) : Prop := ∀ resolved ∈ background.resolved, resolved.Own

def TimedOut (background : Background) (request : Request) : Prop :=
  ∃ resolved ∈ background.resolved, resolved.request = request ∧ resolved.cause = .timer

instance (background : Background) (request : Request) : Decidable (background.TimedOut request) :=
  inferInstanceAs (Decidable (∃ resolved ∈ background.resolved, _))

end Background

/-- When a reply arrives, no later request waits where the request it answers has timed out,
and no unreadable request sent before it still waits. -/
def Timely (exchange : Exchange) : ExchangeEvent → Prop
  | .receive => ∀ reply ∈ exchange.replies.head?, ∀ request ∈ reply.answers,
      request.readable = true →
        (exchange.background.TimedOut request → exchange.background.queues request.kind = []) ∧
        ∀ other ∈ exchange.background.queues request.kind, other.readable = false →
          request.id < other.id
  | _ => True

instance (exchange : Exchange) (event : ExchangeEvent) : Decidable (Timely exchange event) := by
  unfold Timely
  split <;> infer_instance

/-! ## What waits and what is due -/

/-- The requests of a kind that are still to be answered, in order. -/
def Exchange.due (exchange : Exchange) (kind : RequestKind) : List Request :=
  (exchange.replies.filterMap (·.answers) ++ exchange.sent.filterMap (·.asked)).filter
    fun request => request.kind = kind ∧ request.readable = true

def Reply.Fits (reply : Reply) : Prop :=
  match reply.answers with
  | some request => (Message.asks request).answeredBy reply.message = true
  | none => Message.report.answeredBy reply.message = true

structure Exchange.Sound (exchange : Exchange) : Prop where
  inOrder : ∀ kind, (exchange.background.queues kind).Pairwise (·.id < ·.id)
  dueInOrder : ∀ kind, (exchange.due kind).Pairwise (·.id < ·.id)
  ofKind : ∀ kind, ∀ request ∈ exchange.background.queues kind,
    request.kind = kind ∧ request.socket = 0
  made : ∀ kind, ∀ request ∈ exchange.background.queues kind ++ exchange.due kind,
    request.id < exchange.made
  owed : ∀ kind, ∀ request ∈ exchange.background.queues kind, request.readable = true →
    request ∈ exchange.due kind
  waits : ∀ kind, ∀ request ∈ exchange.due kind,
    request ∈ exchange.background.queues kind ∨ exchange.background.TimedOut request
  unresolved : ∀ kind, ∀ request ∈ exchange.background.queues kind,
    ∀ resolved ∈ exchange.background.resolved, resolved.request ≠ request
  resolvedMade : ∀ resolved ∈ exchange.background.resolved, resolved.request.id < exchange.made
  fits : ∀ reply ∈ exchange.replies, reply.Fits

theorem sound_start : Exchange.start.Sound where
  inOrder _ := List.Pairwise.nil
  dueInOrder _ := List.Pairwise.nil
  ofKind _ _ member := by cases member
  made _ _ member := by cases member
  owed _ _ member := by cases member
  waits _ _ member := by cases member
  unresolved _ _ member := by cases member
  resolvedMade _ member := by cases member
  fits _ member := by cases member

variable {message : ServerMessage}

/-- A reply that finishes nothing. -/
theorem handle_malformed {request : Request} (unread : request.readable = false)
    (fits : (Message.asks request).answeredBy message = true) (answers : Option Request)
    (background : Background) : background.handle message answers = background := by
  cases message <;> first | rfl | simp [Message.answeredBy, unread] at fits

theorem handle_report (fits : Message.report.answeredBy message = true) (answers : Option Request)
    (background : Background) :
    background.handle message answers = background := by
  cases message <;> first | rfl | cases fits

variable {exchange : Exchange} {replies : List Reply} {reply : Reply}

/-- What is due of a kind where a request was answered. -/
theorem due_of_answered {request : Request} (next : exchange.replies = reply :: replies)
    (answers : reply.answers = some request) (readable : request.readable = true) :
    exchange.due request.kind =
      request :: ({ exchange with replies := replies } : Exchange).due request.kind := by
  simp [Exchange.due, next, answers, readable]

/-- A reply leaves what is due of other kinds, and of its own where it answers nothing read. -/
theorem due_of_other (next : exchange.replies = reply :: replies) {kind : RequestKind}
    (other : ∀ request ∈ reply.answers, request.kind = kind → request.readable = false) :
    exchange.due kind = ({ exchange with replies := replies } : Exchange).due kind := by
  cases answers : reply.answers with
  | none => simp [Exchange.due, next, answers]
  | some request =>
    have dropped : ¬ (request.kind = kind ∧ request.readable = true) := by
      rintro ⟨same, readable⟩
      rw [other request answers same] at readable
      cases readable
    simp [Exchange.due, next, answers, dropped]

/-- The first of a queue is the request a reply answers exactly where the reply is timely. -/
theorem Exchange.Sound.head_iff (sound : exchange.Sound) {request : Request} {rest : List Request}
    (due : exchange.due request.kind = request :: rest) {first : Request} {later : List Request}
    (waiting : exchange.background.queues request.kind = first :: later) :
    first = request ↔ (exchange.background.TimedOut request → False) ∧
      ∀ other ∈ exchange.background.queues request.kind, other.readable = false →
        request.id < other.id := by
  have ordered := sound.inOrder request.kind
  have inside : request ∈ exchange.due request.kind := by
    rw [due]
    exact List.mem_cons_self
  constructor
  · intro same
    have waits : request ∈ exchange.background.queues request.kind := by
      rw [waiting, same]
      exact List.mem_cons_self
    refine ⟨?_, ?_⟩
    · rintro ⟨resolved, member, forIt, _⟩
      exact sound.unresolved _ _ waits resolved member forIt
    · intro other member unread
      rw [waiting, same] at member ordered
      rcases List.mem_cons.mp member with this | behind
      · have readable : request.readable = true := by
          have chosen := (List.mem_filter.mp inside).2
          exact (of_decide_eq_true chosen).2
        rw [this, readable] at unread
        cases unread
      · exact (List.pairwise_cons.mp ordered).1 other behind
  · rintro ⟨timely, unread⟩
    have waits : request ∈ exchange.background.queues request.kind :=
      (sound.waits _ _ inside).resolve_right timely
    have ahead : first ∈ exchange.background.queues request.kind := by
      rw [waiting]
      exact List.mem_cons_self
    by_contra different
    have before : first.id < request.id := by
      rw [waiting] at waits ordered
      rcases List.mem_cons.mp waits with same | behind
      · exact absurd same.symm different
      · exact (List.pairwise_cons.mp ordered).1 request behind
    cases readable : first.readable with
    | false => exact absurd (unread first ahead readable) (Nat.lt_asymm before)
    | true =>
      have owed := sound.owed _ _ ahead readable
      have dueOrdered := sound.dueInOrder request.kind
      rw [due] at owed dueOrdered
      rcases List.mem_cons.mp owed with same | behind
      · exact different same
      · exact Nat.lt_asymm before ((List.pairwise_cons.mp dueOrdered).1 first behind)

/-! ## One step -/

theorem Exchange.Sound.nodup (sound : exchange.Sound) (kind : RequestKind) :
    (exchange.background.queues kind).Nodup :=
  (sound.inOrder kind).imp fun less same => by
    rw [same] at less
    exact Nat.lt_irrefl _ less

variable {next : Exchange}

/-- A step that sends nothing and only takes requests from the queues and from what is due. -/
theorem Exchange.Sound.shrink (sound : exchange.Sound)
    (queues : ∀ kind, (next.background.queues kind).Sublist (exchange.background.queues kind))
    (due : ∀ kind, (next.due kind).Sublist (exchange.due kind)) (made : next.made = exchange.made)
    (owed : ∀ kind, ∀ request ∈ next.background.queues kind, request ∈ exchange.due kind →
      request ∈ next.due kind)
    (waits : ∀ kind, ∀ request ∈ next.due kind, request ∈ exchange.background.queues kind →
      request ∈ next.background.queues kind ∨ next.background.TimedOut request)
    (kept : exchange.background.resolved ⊆ next.background.resolved)
    (resolved : ∀ resolved ∈ next.background.resolved, resolved ∈ exchange.background.resolved ∨
      (∃ kind, resolved.request ∈ exchange.background.queues kind) ∧
        ∀ kind, resolved.request ∉ next.background.queues kind)
    (fits : ∀ reply ∈ next.replies, reply.Fits) : next.Sound where
  inOrder kind := (sound.inOrder kind).sublist (queues kind)
  dueInOrder kind := (sound.dueInOrder kind).sublist (due kind)
  ofKind kind request member := sound.ofKind kind request ((queues kind).subset member)
  made kind request member := by
    rw [made]
    apply sound.made kind request
    rcases List.mem_append.mp member with waiting | answered
    · exact List.mem_append_left _ ((queues kind).subset waiting)
    · exact List.mem_append_right _ ((due kind).subset answered)
  owed kind request member readable :=
    owed kind request member (sound.owed kind request ((queues kind).subset member) readable)
  waits kind request member := by
    rcases sound.waits kind request ((due kind).subset member) with waiting | timedOut
    · exact waits kind request member waiting
    · obtain ⟨resolved, inside, out⟩ := timedOut
      exact .inr ⟨resolved, kept inside, out⟩
  unresolved kind request member entry inside same := by
    rcases resolved entry inside with old | ⟨_, gone⟩
    · exact sound.unresolved kind request ((queues kind).subset member) entry old same
    · rw [same] at gone
      exact gone kind member
  resolvedMade entry inside := by
    rw [made]
    rcases resolved entry inside with old | ⟨⟨kind, waiting⟩, _⟩
    · exact sound.resolvedMade entry old
    · exact sound.made kind _ (List.mem_append_left _ waiting)
  fits := fits

theorem push_queues (background : Background) (request : Request) (kind : RequestKind) :
    (background.push request).queues kind =
      background.queues kind ++ if request.kind = kind then [request] else [] := by
  unfold Background.push
  by_cases same : request.kind = kind
  · rw [← same]
    simp
  · simp [Function.update_of_ne (Ne.symm same), same]

/-- What is due once a request was sent. -/
theorem due_of_sent (exchange : Exchange) (background : Background) (made : Nat)
    (request : Request) (kind : RequestKind) :
    Exchange.due { exchange with
      background := background
      made := made
      sent := exchange.sent ++ [.asks request] } kind =
    exchange.due kind ++
      if request.kind = kind ∧ request.readable = true then [request] else [] := by
  unfold Exchange.due
  simp only [List.filterMap_append, ← List.append_assoc, List.filter_append]
  congr 1
  by_cases chosen : request.kind = kind ∧ request.readable = true
  · simp [Message.asked, chosen]
  · simp [Message.asked, chosen]

theorem pairwise_snoc {requests : List Request} {request : Request}
    (ordered : requests.Pairwise (·.id < ·.id)) (last : ∀ other ∈ requests, other.id < request.id) :
    (requests ++ [request]).Pairwise (·.id < ·.id) := by
  rw [List.pairwise_append]
  refine ⟨ordered, List.pairwise_singleton _ _, ?_⟩
  intro other member new same
  rw [List.mem_singleton.mp same]
  exact last other member

/-- A new request is the last of its queue and the last that is due. -/
theorem Exchange.Sound.request (sound : exchange.Sound) (kind : RequestKind) (readable : Bool) :
    Exchange.Sound { exchange with
      background := exchange.background.push ⟨kind, exchange.made, 0, readable⟩
      made := exchange.made + 1
      sent := exchange.sent ++ [.asks ⟨kind, exchange.made, 0, readable⟩] } := by
  have waitingMade : ∀ k, ∀ request ∈ exchange.background.queues k, request.id < exchange.made :=
    fun k request member => sound.made k request (List.mem_append_left _ member)
  have dueMade : ∀ k, ∀ request ∈ exchange.due k, request.id < exchange.made :=
    fun k request member => sound.made k request (List.mem_append_right _ member)
  constructor
  · intro k
    change ((exchange.background.push _).queues k).Pairwise _
    rw [push_queues]
    split
    · exact pairwise_snoc (sound.inOrder k) (waitingMade k)
    · rw [List.append_nil]
      exact sound.inOrder k
  · intro k
    rw [due_of_sent]
    split
    · exact pairwise_snoc (sound.dueInOrder k) (dueMade k)
    · rw [List.append_nil]
      exact sound.dueInOrder k
  · intro k request member
    change request ∈ (exchange.background.push _).queues k at member
    rw [push_queues] at member
    rcases List.mem_append.mp member with old | new
    · exact sound.ofKind k request old
    · split at new
      · rename_i same
        rw [List.mem_singleton.mp new]
        exact ⟨same, rfl⟩
      · cases new
  · intro k request member
    rw [due_of_sent] at member
    change request ∈ (exchange.background.push _).queues k ++ _ at member
    rw [push_queues] at member
    simp only [List.mem_append] at member
    rcases member with (old | new) | (old | new)
    · exact Nat.lt_succ_of_lt (waitingMade k request old)
    · split at new
      · rw [List.mem_singleton.mp new]
        exact Nat.lt_succ_self _
      · cases new
    · exact Nat.lt_succ_of_lt (dueMade k request old)
    · split at new
      · rw [List.mem_singleton.mp new]
        exact Nat.lt_succ_self _
      · cases new
  · intro k request member read
    change request ∈ (exchange.background.push _).queues k at member
    rw [push_queues] at member
    rw [due_of_sent, List.mem_append]
    rcases List.mem_append.mp member with old | new
    · exact .inl (sound.owed k request old read)
    · split at new
      · rename_i same
        rw [List.mem_singleton.mp new] at read ⊢
        rw [if_pos ⟨same, read⟩]
        exact .inr List.mem_cons_self
      · cases new
  · intro k request member
    rw [due_of_sent] at member
    change request ∈ (exchange.background.push _).queues k ∨ exchange.background.TimedOut request
    rw [push_queues, List.mem_append]
    rcases List.mem_append.mp member with old | new
    · rcases sound.waits k request old with waiting | timedOut
      · exact .inl (.inl waiting)
      · exact .inr timedOut
    · split at new
      · rename_i chosen
        rw [List.mem_singleton.mp new, if_pos chosen.1]
        exact .inl (.inr List.mem_cons_self)
      · cases new
  · intro k request member resolved inside
    change request ∈ (exchange.background.push _).queues k at member
    rw [push_queues] at member
    rcases List.mem_append.mp member with old | new
    · exact sound.unresolved k request old resolved inside
    · split at new
      · rw [List.mem_singleton.mp new]
        intro same
        have before := sound.resolvedMade resolved inside
        rw [same] at before
        exact Nat.lt_irrefl _ before
      · cases new
  · intro resolved inside
    exact Nat.lt_succ_of_lt (sound.resolvedMade resolved inside)
  · exact sound.fits

theorem mem_erase_of_ne {requests : List Request} {request other : Request}
    (member : other ∈ requests) (different : other ≠ request) : other ∈ requests.erase request :=
  (List.mem_erase_of_ne different).mpr member

theorem timeOut_queues (background : Background) (request : Request) (kind : RequestKind) :
    (background.timeOut request).queues kind =
      if request.kind = kind then (background.queues kind).erase request
      else background.queues kind := by
  unfold Background.timeOut
  by_cases same : request.kind = kind
  · rw [← same]
    simp
  · simp [Function.update_of_ne (Ne.symm same), same]

/-- A request that times out leaves its queue, and stays due. -/
theorem Exchange.Sound.timeOut (sound : exchange.Sound) {request : Request}
    (waiting : request ∈ exchange.background.queues request.kind) :
    Exchange.Sound { exchange with background := exchange.background.timeOut request } := by
  have fewer : ∀ kind, ((exchange.background.timeOut request).queues kind).Sublist
      (exchange.background.queues kind) := by
    intro kind
    rw [timeOut_queues]
    split
    · exact List.erase_sublist
    · exact List.Sublist.refl _
  have added : (exchange.background.timeOut request).resolved = exchange.background.resolved ++
    [⟨request, .timer, .unavailable "timeout".toList⟩] := rfl
  refine sound.shrink fewer (fun _ => List.Sublist.refl _) rfl ?_ ?_ ?_ ?_ sound.fits
  · exact fun kind other _ due => due
  · intro kind other _ there
    by_cases same : other = request
    · right
      refine ⟨⟨request, .timer, .unavailable "timeout".toList⟩, ?_, same.symm, rfl⟩
      change _ ∈ (exchange.background.timeOut request).resolved
      rw [added]
      exact List.mem_append_right _ List.mem_cons_self
    · left
      change other ∈ (exchange.background.timeOut request).queues kind
      rw [timeOut_queues]
      split
      · exact mem_erase_of_ne there same
      · exact there
  · change _ ⊆ (exchange.background.timeOut request).resolved
    rw [added]
    exact List.subset_append_left _ _
  · intro resolved inside
    change resolved ∈ (exchange.background.timeOut request).resolved at inside
    rw [added] at inside
    rcases List.mem_append.mp inside with old | new
    · exact .inl old
    · rw [List.mem_singleton.mp new]
      refine .inr ⟨⟨request.kind, waiting⟩, ?_⟩
      intro kind member
      change request ∈ (exchange.background.timeOut request).queues kind at member
      have same := (sound.ofKind kind request ((fewer kind).subset member)).1
      rw [timeOut_queues, if_pos same, ← same] at member
      exact (sound.nodup request.kind).not_mem_erase member

theorem Exchange.Sound.close (sound : exchange.Sound) :
    Exchange.Sound { exchange with
      background := exchange.background.failRequests 0
      sent := []
      replies := []
      closed := true } := by
  refine sound.shrink (fun _ => List.nil_sublist _) (fun _ => List.nil_sublist _) rfl
    ?_ ?_ ?_ ?_ ?_
  · intro kind other member
    cases member
  · intro kind other member
    cases member
  · exact List.subset_append_left _ _
  · intro resolved inside
    rcases List.mem_append.mp inside with old | new
    · exact .inl old
    · obtain ⟨request, waiting, same⟩ := List.mem_map.mp new
      rw [← same]
      refine .inr ⟨?_, fun kind member => by cases member⟩
      simp only [List.mem_append] at waiting
      rcases waiting with (waiting | waiting) | waiting
      · exact ⟨_, waiting⟩
      · exact ⟨_, waiting⟩
      · exact ⟨_, waiting⟩
  · intro reply member
    cases member

theorem Exchange.Sound.report (sound : exchange.Sound) :
    Exchange.Sound { exchange with sent := exchange.sent ++ [.report] } := by
  have same : ∀ kind, Exchange.due { exchange with sent := exchange.sent ++ [.report] } kind =
      exchange.due kind := by
    intro kind
    simp [Exchange.due, Message.asked]
  refine sound.shrink (fun _ => List.Sublist.refl _) ?_ rfl ?_ ?_ (List.Subset.refl _) ?_ sound.fits
  · intro kind
    rw [same]
  · intro kind request _ due
    rw [same]
    exact due
  · exact fun kind request _ waiting => .inl waiting
  · exact fun resolved inside => .inl inside

theorem Exchange.Sound.serve (sound : exchange.Sound) {first : Message} {sent : List Message}
    (next : exchange.sent = first :: sent) (answers : first.answeredBy message = true) :
    Exchange.Sound { exchange with
      sent := sent
      replies := exchange.replies ++ [⟨message, first.asked⟩] } := by
  have same : ∀ kind, Exchange.due { exchange with
      sent := sent
      replies := exchange.replies ++ [⟨message, first.asked⟩] } kind = exchange.due kind := by
    intro kind
    cases first <;> simp [Exchange.due, next, Message.asked]
  refine sound.shrink (fun _ => List.Sublist.refl _) ?_ rfl ?_ ?_ (List.Subset.refl _) ?_ ?_
  · intro kind
    rw [same]
  · intro kind request _ due
    rw [same]
    exact due
  · exact fun kind request _ waiting => .inl waiting
  · exact fun resolved inside => .inl inside
  · intro reply member
    rcases List.mem_append.mp member with old | new
    · exact sound.fits reply old
    · rw [List.mem_singleton.mp new]
      cases first <;> exact answers

/-! ## A reply arrives -/

/-- A reply resolves the first request of the kind it answers, or nothing. -/
theorem received_cases (background : Background) (fits : reply.Fits) :
    (∃ request response, reply.answers = some request ∧ request.readable = true ∧
      background.handle reply.message reply.answers =
        background.finishRequest request.kind (some request) response) ∨
    ((∀ request ∈ reply.answers, request.readable = false) ∧
      background.handle reply.message reply.answers = background) := by
  unfold Reply.Fits at fits
  cases answers : reply.answers with
  | none =>
    rw [answers] at fits
    refine .inr ⟨?_, handle_report fits none background⟩
    intro request member
    cases member
  | some request =>
    rw [answers] at fits
    cases readable : request.readable with
    | true =>
      simp only [Message.answeredBy, readable, if_true] at fits
      obtain ⟨response, same⟩ := handle_answer fits
      exact .inl ⟨request, response, rfl, readable, same (some request) background⟩
    | false =>
      refine .inr ⟨?_, handle_malformed readable fits (some request) background⟩
      intro other member
      cases member
      exact readable

/-- A reply that resolves nothing leaves the queues as they are. -/
theorem Exchange.Sound.drop (sound : exchange.Sound) (next : exchange.replies = reply :: replies)
    (unanswered : ∀ request ∈ reply.answers, request.readable = true →
      exchange.background.queues request.kind = []) :
    Exchange.Sound { exchange with replies := replies } := by
  have later : ∀ kind, (Exchange.due { exchange with replies := replies } kind).Sublist
      (exchange.due kind) := by
    intro kind
    unfold Exchange.due
    rw [next]
    apply List.Sublist.filter
    apply List.Sublist.append _ (List.Sublist.refl _)
    exact (List.sublist_cons_self _ _).filterMap _
  refine sound.shrink (fun _ => List.Sublist.refl _) later rfl ?_ ?_ (List.Subset.refl _) ?_ ?_
  · intro kind request waiting due
    by_cases answered : ∃ answer ∈ reply.answers, answer.kind = kind ∧ answer.readable = true
    · obtain ⟨answer, given, same, readable⟩ := answered
      have empty := unanswered answer given readable
      rw [same] at empty
      change request ∈ exchange.background.queues kind at waiting
      rw [empty] at waiting
      cases waiting
    · rw [← due_of_other next]
      · exact due
      · intro answer given same
        cases readable : answer.readable with
        | false => rfl
        | true => exact absurd ⟨answer, given, same, readable⟩ answered
  · exact fun kind request _ waiting => .inl waiting
  · exact fun resolved inside => .inl inside
  · intro other member
    exact sound.fits other (by rw [next]; exact List.mem_cons_of_mem _ member)

/-- A reply that resolves its own request takes it from its queue and from what is due. -/
theorem Exchange.Sound.settle (sound : exchange.Sound)
    (next : exchange.replies = reply :: replies) {request : Request}
    (answers : reply.answers = some request) (readable : request.readable = true)
    {later : List Request} (waiting : exchange.background.queues request.kind = request :: later)
    (response : Response) :
    Exchange.Sound { exchange with
      background := { exchange.background with
        queues := Function.update exchange.background.queues request.kind later
        resolved := exchange.background.resolved ++ [⟨request, .reply (some request), response⟩] }
      replies := replies } := by
  have due := due_of_answered next answers readable
  have queues : ∀ kind, Function.update exchange.background.queues request.kind later kind =
      if request.kind = kind then later else exchange.background.queues kind := by
    intro kind
    by_cases same : request.kind = kind
    · rw [← same]
      simp
    · simp [Function.update_of_ne (Ne.symm same), same]
  have others : ∀ kind, request.kind ≠ kind →
      exchange.due kind = Exchange.due { exchange with replies := replies } kind := by
    intro kind different
    apply due_of_other next
    intro answer given same
    cases answers.symm.trans given
    exact absurd same different
  have distinct : request ∉ later := by
    have nodup := sound.nodup request.kind
    rw [waiting, List.nodup_cons] at nodup
    exact nodup.1
  refine sound.shrink ?_ ?_ rfl ?_ ?_ (List.subset_append_left _ _) ?_ ?_
  · intro kind
    change (Function.update exchange.background.queues request.kind later kind).Sublist _
    rw [queues]
    split
    · rename_i same
      rw [← same, waiting]
      exact List.sublist_cons_self _ _
    · exact List.Sublist.refl _
  · intro kind
    change (Exchange.due { exchange with replies := replies } kind).Sublist _
    by_cases same : request.kind = kind
    · rw [← same, due]
      exact List.sublist_cons_self _ _
    · rw [← others kind same]
  · intro kind other member owed
    change other ∈ Function.update exchange.background.queues request.kind later kind at member
    change other ∈ Exchange.due { exchange with replies := replies } kind
    by_cases same : request.kind = kind
    · rw [queues, if_pos same] at member
      rw [← same, due] at owed
      rw [← same]
      rcases List.mem_cons.mp owed with first | behind
      · rw [first] at member
        exact absurd member distinct
      · exact behind
    · rw [← others kind same]
      exact owed
  · intro kind other owed there
    change other ∈ Exchange.due { exchange with replies := replies } kind at owed
    left
    change other ∈ Function.update exchange.background.queues request.kind later kind
    rw [queues]
    by_cases same : request.kind = kind
    · rw [if_pos same]
      rw [← same, waiting] at there
      rcases List.mem_cons.mp there with first | behind
      · rw [← same] at owed
        have ordered := sound.dueInOrder request.kind
        rw [due, List.pairwise_cons] at ordered
        have less := ordered.1 other owed
        rw [first] at less
        exact absurd less (Nat.lt_irrefl _)
      · exact behind
    · rw [if_neg same]
      exact there
  · intro resolved inside
    rcases List.mem_append.mp inside with old | new
    · exact .inl old
    · rw [List.mem_singleton.mp new]
      refine .inr ⟨⟨request.kind, by rw [waiting]; exact List.mem_cons_self⟩, ?_⟩
      intro kind member
      change request ∈ Function.update exchange.background.queues request.kind later kind at member
      rw [queues] at member
      split at member
      · exact distinct member
      · rename_i different
        exact different (sound.ofKind kind request member).1
  · intro other member
    exact sound.fits other (by rw [next]; exact List.mem_cons_of_mem _ member)

theorem own_append {background : Background} {added : List Resolved} :
    Background.Own { background with resolved := background.resolved ++ added } ↔
      background.Own ∧ ∀ resolved ∈ added, resolved.Own := by
  constructor
  · intro own
    exact ⟨fun resolved member => own resolved (List.mem_append_left _ member),
      fun resolved member => own resolved (List.mem_append_right _ member)⟩
  · rintro ⟨old, new⟩ resolved member
    rcases List.mem_append.mp member with first | last
    · exact old resolved first
    · exact new resolved last

/-- A reply that arrives in time is given to its own request, and one that does not is not. -/
theorem Exchange.Sound.receive (sound : exchange.Sound)
    (next : exchange.replies = reply :: replies) (own : exchange.background.Own) :
    (Timely exchange .receive → Exchange.Sound { exchange with
      background := exchange.background.handle reply.message reply.answers
      replies := replies }) ∧
    ((exchange.background.handle reply.message reply.answers).Own ↔ Timely exchange .receive) := by
  have fits : reply.Fits := sound.fits reply (by rw [next]; exact List.mem_cons_self)
  rcases received_cases exchange.background fits with
    ⟨request, response, answers, readable, handled⟩ | ⟨unread, handled⟩
  · have due := due_of_answered next answers readable
    cases waiting : exchange.background.queues request.kind with
    | nil =>
      have timely : Timely exchange .receive := by
        intro first head answer given readable
        rw [next] at head
        cases head
        cases answers.symm.trans given
        refine ⟨fun _ => waiting, ?_⟩
        rw [waiting]
        intro other member
        cases member
      rw [handled, finishRequest_nil waiting]
      refine ⟨fun _ => sound.drop next ?_, fun _ => timely, fun _ => own⟩
      intro answer given _
      cases answers.symm.trans given
      exact waiting
    | cons first later =>
      have head := sound.head_iff due waiting
      have timely : Timely exchange .receive ↔ first = request := by
        rw [head]
        constructor
        · intro holds
          have found := holds reply (by rw [next]; rfl) request answers readable
          refine ⟨fun timedOut => ?_, found.2⟩
          have empty := found.1 timedOut
          rw [waiting] at empty
          cases empty
        · rintro ⟨alive, unread⟩ other isHead answer given _
          rw [next] at isHead
          cases isHead
          cases answers.symm.trans given
          exact ⟨fun timedOut => (alive timedOut).elim, unread⟩
      rw [handled, finishRequest_cons waiting]
      constructor
      · intro inTime
        rw [timely.mp inTime] at waiting ⊢
        exact sound.settle next answers readable waiting response
      · rw [timely]
        constructor
        · intro owned
          have last := owned ⟨first, .reply (some request), response⟩
            (List.mem_append_right _ List.mem_cons_self)
          exact (Option.some.inj last).symm
        · intro same
          apply own_append.mpr ⟨own, _⟩
          intro resolved member
          rw [List.mem_singleton.mp member]
          exact congrArg some same.symm
  · have timely : Timely exchange .receive := by
      intro first head answer given readable
      rw [next] at head
      cases head
      rw [unread answer given] at readable
      cases readable
    rw [handled]
    refine ⟨fun _ => sound.drop next ?_, fun _ => timely, fun _ => own⟩
    intro answer given readable
    rw [unread answer given] at readable
    cases readable

/-! ## Runs -/

/-- A step keeps every promise its own exactly where it is timely. -/
theorem Exchange.Sound.step {event : ExchangeEvent} (sound : exchange.Sound)
    (own : exchange.background.Own) (stepped : exchange.step event = some next) :
    (Timely exchange event → next.Sound) ∧ (next.background.Own ↔ Timely exchange event) := by
  cases event with
  | request kind readable =>
    simp only [Exchange.step] at stepped
    split at stepped
    · cases stepped
    · cases stepped
      exact ⟨fun _ => sound.request kind readable, fun _ => trivial, fun _ => own⟩
  | report =>
    simp only [Exchange.step] at stepped
    split at stepped
    · cases stepped
    · cases stepped
      exact ⟨fun _ => sound.report, fun _ => trivial, fun _ => own⟩
  | serve message =>
    simp only [Exchange.step] at stepped
    split at stepped
    · cases stepped
    · rename_i first sent waiting
      split at stepped
      · rename_i answers
        cases stepped
        exact ⟨fun _ => sound.serve waiting answers, fun _ => trivial, fun _ => own⟩
      · cases stepped
  | receive =>
    simp only [Exchange.step] at stepped
    split at stepped
    · cases stepped
    · rename_i reply replies arrived
      cases stepped
      exact sound.receive arrived own
  | timeout request =>
    simp only [Exchange.step] at stepped
    split at stepped
    · rename_i waiting
      cases stepped
      refine ⟨fun _ => sound.timeOut waiting, fun _ => trivial, fun _ => ?_⟩
      apply own_append.mpr ⟨own, _⟩
      intro resolved member
      rw [List.mem_singleton.mp member]
      trivial
    · cases stepped
  | close =>
    simp only [Exchange.step] at stepped
    split at stepped
    · cases stepped
    · cases stepped
      refine ⟨fun _ => sound.close, fun _ => trivial, fun _ => ?_⟩
      intro resolved member
      rcases List.mem_append.mp member with old | new
      · exact own resolved old
      · obtain ⟨request, waiting, same⟩ := List.mem_map.mp new
        rw [← same]
        simp only [List.mem_append] at waiting
        rcases waiting with (waiting | waiting) | waiting
        · exact (sound.ofKind _ request waiting).2.symm
        · exact (sound.ofKind _ request waiting).2.symm
        · exact (sound.ofKind _ request waiting).2.symm

theorem finishRequest_resolved (kind : RequestKind) (answers : Option Request)
    (response : Response) (background : Background) :
    background.resolved ⊆ (background.finishRequest kind answers response).resolved := by
  unfold Background.finishRequest
  split
  · exact List.Subset.refl _
  · exact List.subset_append_left _ _

theorem handle_resolved (message : ServerMessage) (answers : Option Request)
    (background : Background) :
    background.resolved ⊆ (background.handle message answers).resolved := by
  cases message <;> first
    | exact List.Subset.refl _
    | exact finishRequest_resolved _ _ _ _

/-- A promise that was resolved stays so. -/
theorem Exchange.resolved_step {event : ExchangeEvent} (stepped : exchange.step event = some next) :
    exchange.background.resolved ⊆ next.background.resolved := by
  cases event with
  | request kind readable | report | close =>
    simp only [Exchange.step] at stepped
    split at stepped
    · cases stepped
    · cases stepped
      first
        | exact List.Subset.refl _
        | exact List.subset_append_left _ _
  | serve message =>
    simp only [Exchange.step] at stepped
    split at stepped
    · cases stepped
    · split at stepped
      · cases stepped
        exact List.Subset.refl _
      · cases stepped
  | receive =>
    simp only [Exchange.step] at stepped
    split at stepped
    · cases stepped
    · cases stepped
      exact handle_resolved _ _ _
  | timeout request =>
    simp only [Exchange.step] at stepped
    split at stepped
    · cases stepped
      exact List.subset_append_left _ _
    · cases stepped

theorem Exchange.own_of_run {final : Exchange} {events : List ExchangeEvent}
    (ran : Machine.run Exchange.step exchange events = some final) (own : final.background.Own) :
    exchange.background.Own := by
  induction events generalizing exchange with
  | nil =>
    cases ran
    exact own
  | cons event events ih =>
    obtain ⟨next, stepped, ran⟩ := Option.bind_eq_some_iff.mp ran
    intro resolved member
    exact ih ran resolved (Exchange.resolved_step stepped member)

theorem Exchange.Sound.run {final : Exchange} {events : List ExchangeEvent}
    (sound : exchange.Sound) (own : exchange.background.Own)
    (ran : Machine.run Exchange.step exchange events = some final) :
    final.background.Own ↔ Machine.Meets Exchange.step Timely exchange events := by
  induction events generalizing exchange with
  | nil =>
    cases ran
    exact ⟨fun _ => trivial, fun _ => own⟩
  | cons event events ih =>
    obtain ⟨next, stepped, ran⟩ := Option.bind_eq_some_iff.mp ran
    obtain ⟨kept, timely⟩ := sound.step own stepped
    rw [Machine.meets_cons stepped]
    constructor
    · intro owned
      have inTime := timely.mp (Exchange.own_of_run ran owned)
      exact ⟨inTime, (ih (kept inTime) (timely.mpr inTime) ran).mp owned⟩
    · intro ⟨inTime, met⟩
      exact (ih (kept inTime) (timely.mpr inTime) ran).mpr met

/-- In every run every promise is resolved by its own reply, its own timer or the end of the
connection, exactly where every reply arrives in time. -/
theorem replies_reach_requests {events : List ExchangeEvent} {final : Exchange}
    (ran : Machine.run Exchange.step Exchange.start events = some final) :
    final.background.Own ↔ Machine.Meets Exchange.step Timely Exchange.start events := by
  apply sound_start.run _ ran
  intro resolved member
  cases member

/-! ## A late reply -/

def secondFormats : ServerMessage := .pageFormats 2 [] none none

/-- Two lists of formats are asked for, and both replies arrive. -/
def bothAnswered : List ExchangeEvent :=
  [.request .formats true, .request .formats true, .serve (.formatsUnavailable .noCapture),
    .serve secondFormats, .receive, .receive]

theorem both_answered :
    ∃ final, Machine.run Exchange.step Exchange.start bothAnswered = some final ∧
      final.background.Own := by
  have possible : (Machine.run Exchange.step Exchange.start bothAnswered).isSome := by
    decide +kernel
  obtain ⟨final, ran⟩ := Option.isSome_iff_exists.mp possible
  exact ⟨final, ran, (replies_reach_requests ran).mpr (by decide +kernel)⟩

/-- The first request times out before its reply. -/
def lateReply : List ExchangeEvent :=
  [.request .formats true, .timeout ⟨.formats, 0, 0, true⟩, .request .formats true,
    .serve (.formatsUnavailable .noCapture), .receive]

theorem late_reply_misdelivered :
    ∃ final, Machine.run Exchange.step Exchange.start lateReply = some final ∧
      ∃ resolved ∈ final.background.resolved, resolved.request = ⟨.formats, 1, 0, true⟩ ∧
        resolved.cause = .reply (some ⟨.formats, 0, 0, true⟩) := by
  have last : (Machine.run Exchange.step Exchange.start lateReply).map
      (·.background.resolved.getLast?) = some (some ⟨⟨.formats, 1, 0, true⟩,
        .reply (some ⟨.formats, 0, 0, true⟩), .unavailable "no_capture".toList⟩) := by
    decide +kernel
  obtain ⟨final, ran, resolved⟩ := Option.map_eq_some_iff.mp last
  exact ⟨final, ran, _, List.mem_of_getLast? resolved, rfl, rfl⟩

end Gunda.Extension

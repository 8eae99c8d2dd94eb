import Gunda.Extension.Interception
import Mathlib.Data.List.Perm.Basic

/-!
# Who owns an intercepted download

One press decides: Gunda has the download or the browser restarts it, as long as the
extension gives a request up exactly when the daemon does not queue it.
-/
namespace Gunda.Extension

open Gunda.Lib

/-! ## When a step is orderly -/

/-- What a Start was told about its request. -/
def StartStage.told : StartStage → Option Bool
  | .connecting | .requesting | .waiting => none
  | .restoring _ => some false
  | .replying response | .done response => some (response = .queued)

namespace Flow

/-- Requests of Starts that the daemon has not decided on. -/
def asked (flow : Flow) : Nat := (flow.sent ++ flow.stranded).countP Waiter.isStart

/-- Starts that wait for an answer. -/
def waits (flow : Flow) : Nat := flow.downloadRequests.countP Waiter.isStart

/-- The daemon decides what the Start was already told. -/
def Agrees (flow : Flow) (waiter : Waiter) (accepts : Bool) : Prop :=
  match waiter with
  | .start index => ∀ stage ∈ flow.starts[index]?, ∀ told ∈ stage.told, accepts = told
  | .other => True

instance (flow : Flow) (waiter : Waiter) (accepts : Bool) :
    Decidable (flow.Agrees waiter accepts) := by
  unfold Agrees
  cases waiter <;> infer_instance

end Flow

/-- One of the buttons is pressed, once, before the window is closed. A request is given
up or refused only where Gunda has not queued it, and is reported as queued only where
Gunda has or still decides; the daemon decides on it as was reported. -/
def Orderly (flow : Flow) : Action → Prop
  | .pressStart | .pressCancel => flow.starts = [] ∧ flow.keeps = []
  | .closeWindow => flow.starts ≠ [] ∨ flow.keeps ≠ []
  | .decide accepts => ∀ waiter ∈ flow.sent.head?, flow.Agrees waiter accepts
  | .decideStranded place accepts => ∀ waiter ∈ flow.stranded[place]?, flow.Agrees waiter accepts
  | .answer => ∀ accepted ∈ flow.answers.head?, ∀ waiter ∈ flow.downloadRequests.head?,
      waiter.isStart = true →
        if accepted then flow.queued = 1 ∨ 0 < flow.asked else flow.queued = 0
  | .timeout place => ∀ waiter ∈ flow.downloadRequests[place]?,
      waiter.isStart = true → flow.queued = 0
  | .closeConnection => 0 < flow.waits → flow.queued = 0
  | _ => True

instance (flow : Flow) (action : Action) : Decidable (Orderly flow action) := by
  unfold Orderly
  cases action <;> infer_instance

/-! ## Phases -/

/-- How the two owners stand while a Start is at a stage. -/
def StartStage.Balanced (stage : StartStage) (flow : Flow) : Prop :=
  match stage with
  | .connecting | .requesting =>
      flow.queued = 0 ∧ flow.restarted = 0 ∧ flow.asked = 0 ∧ flow.waits = 0
  | .waiting => flow.queued + flow.asked ≤ 1 ∧ flow.restarted = 0 ∧ flow.waits = 1
  | .restoring _ => flow.queued = 0 ∧ flow.restarted = 0 ∧ flow.asked ≤ 1 ∧ flow.waits = 0
  | .replying response | .done response => flow.waits = 0 ∧ flow.asked ≤ 1 ∧
      if response = .queued then flow.queued + flow.asked = 1 ∧ flow.restarted = 0
      else flow.queued = 0 ∧ flow.restarted = 1

/-- All requests, wherever they are. -/
def Flow.requests (flow : Flow) : List Waiter :=
  flow.downloadRequests ++ (flow.sent ++ flow.stranded)

/-- Nothing on the connection is for this file. -/
structure Quiet (flow : Flow) : Prop where
  starts : flow.starts = []
  queued : flow.queued = 0
  others : ∀ waiter ∈ flow.requests, waiter = .other

inductive Owned (flow : Flow) : Prop where
  | undecided (quiet : Quiet flow) (keeps : flow.keeps = []) (restarted : flow.restarted = 0)
      (window : if flow.prompt = .done then ∃ window, flow.window = some window ∧
        window.progress = false else flow.window = none)
  | returned (quiet : Quiet flow) (keeps : flow.keeps = []) (restarted : flow.restarted = 1)
      (prompt : flow.prompt = .done) (window : flow.window = none)
  | kept (stage : KeepStage) (quiet : Quiet flow) (keeps : flow.keeps = [stage])
      (prompt : flow.prompt = .done)
      (restarted : flow.restarted = if stage = .restoring then 0 else 1)
  | started (stage : StartStage) (starts : flow.starts = [stage]) (keeps : flow.keeps = [])
      (prompt : flow.prompt = .done)
      (own : ∀ waiter ∈ flow.requests, waiter = .other ∨ waiter = .start 0)
      (balanced : stage.Balanced flow)

theorem owned_of_begins {flow : Flow} (begins : Begins flow) : Owned flow := by
  refine .undecided ⟨begins.starts, begins.queued, begins.others⟩ begins.keeps
    begins.restarted ?_
  rw [begins.prompt, if_neg (by decide)]
  exact begins.window

theorem oneOwner_of_settled {flow : Flow} (owned : Owned flow) (settled : Settled flow) :
    OneOwner flow := by
  unfold OneOwner
  cases owned with
  | undecided quiet keeps restarted window =>
    rw [if_pos settled.prompt] at window
    obtain ⟨window, shown, setup⟩ := window
    have done := settled.window window shown
    rw [setup] at done
    cases done
  | returned quiet keeps restarted prompt window =>
    exact .inr ⟨quiet.queued, restarted⟩
  | kept stage quiet keeps prompt restarted =>
    have done : stage = .done := settled.keeps stage (by simp [keeps])
    rw [done, if_neg (by decide)] at restarted
    exact .inr ⟨quiet.queued, restarted⟩
  | started stage starts keeps prompt own balanced =>
    obtain ⟨response, rfl⟩ := settled.starts stage (by simp [starts])
    have nothing : flow.asked = 0 := by
      unfold Flow.asked
      rw [List.countP_eq_zero]
      intro waiter member start
      have none_ := settled.asked
      rw [List.any_eq_false] at none_
      exact none_ waiter member start
    obtain ⟨_, _, balanced⟩ := balanced
    split at balanced
    · left
      omega
    · right
      omega

/-! ## Steps of the connection -/

def Action.onConnection : Action → Bool
  | .openConnection | .closeConnection | .otherRequest | .decide _ | .decideStranded .. | .answer
  | .timeout _ => true
  | _ => false

/-- What the connection does not touch. -/
structure SameSides (before after : Flow) : Prop where
  prompt : after.prompt = before.prompt
  window : after.window = before.window
  keeps : after.keeps = before.keeps
  restarted : after.restarted = before.restarted

section

variable {flow next : Flow} {stage : StartStage} {response : DownloadResponse} {accepts : Bool}
variable {waiter : Waiter} {action : Action}

theorem Flow.decided_start (flow : Flow) (index : Nat) : flow.decided (.start index) accepts =
    { flow with queued := flow.queued + if accepts then 1 else 0 } := by
  cases accepts <;> rfl

theorem Flow.decided_other (flow : Flow) : flow.decided .other accepts = flow := by
  cases accepts <;> rfl

theorem mem_requests : waiter ∈ flow.requests ↔
    waiter ∈ flow.downloadRequests ∨ waiter ∈ flow.sent ∨ waiter ∈ flow.stranded := by
  unfold Flow.requests
  rw [List.mem_append, List.mem_append]

/-! ### A request that is decided, or resolved -/

section

variable (balanced : stage.Balanced flow)
include balanced

theorem StartStage.Balanced.decided (asked : next.asked + 1 = flow.asked)
    (waits : next.waits = flow.waits) (restarted : next.restarted = flow.restarted)
    (queued : next.queued = flow.queued + if accepts then 1 else 0)
    (agrees : ∀ told ∈ stage.told, accepts = told) : stage.Balanced next := by
  cases stage with
  | connecting | requesting =>
    have none_ := balanced.2.2.1
    omega
  | waiting =>
    obtain ⟨once, restarts, one⟩ := balanced
    refine ⟨?_, by omega, by omega⟩
    split at queued <;> omega
  | restoring reason =>
    cases agrees false rfl
    obtain ⟨none_, restarts, once, silent⟩ := balanced
    rw [if_neg Bool.false_ne_true] at queued
    exact ⟨by omega, by omega, by omega, by omega⟩
  | replying response | done response =>
    cases agrees (response = .queued) rfl
    obtain ⟨silent, once, balanced⟩ := balanced
    refine ⟨by omega, by omega, ?_⟩
    by_cases reported : response = .queued
    · rw [if_pos reported] at balanced ⊢
      rw [if_pos (by simpa using reported)] at queued
      omega
    · rw [if_neg reported] at balanced ⊢
      rw [if_neg (by simpa using reported)] at queued
      omega

theorem StartStage.Balanced.resolved (waited : 0 < flow.waits)
    (waits : next.waits = 0) (asked : next.asked = flow.asked)
    (restarted : next.restarted = flow.restarted) (queued : next.queued = flow.queued)
    (sound : if response = .queued then flow.queued = 1 ∨ 0 < flow.asked else flow.queued = 0) :
    (stage.resolve response).Balanced next := by
  cases stage with
  | connecting | requesting =>
    have silent := balanced.2.2.2
    omega
  | waiting =>
    obtain ⟨once, restarts, one⟩ := balanced
    cases response with
    | queued =>
      rw [if_pos rfl] at sound
      refine ⟨waits, by omega, ?_⟩
      rw [if_pos rfl]
      omega
    | unavailable reason =>
      rw [if_neg (by simp)] at sound
      exact ⟨by omega, by omega, by omega, waits⟩
  | restoring reason =>
    have silent := balanced.2.2.2
    omega
  | replying response | done response =>
    have silent := balanced.1
    omega

theorem StartStage.Balanced.same (waits : next.waits = flow.waits)
    (asked : next.asked = flow.asked) (restarted : next.restarted = flow.restarted)
    (queued : next.queued = flow.queued) : stage.Balanced next := by
  cases stage with
  | _ =>
    unfold StartStage.Balanced at balanced ⊢
    rw [waits, asked, restarted, queued]
    exact balanced

omit balanced in
theorem StartStage.resolve_resolve (stage : StartStage) :
    (stage.resolve response).resolve response = stage.resolve response := by
  cases stage with
  | waiting => cases response <;> rfl
  | _ => rfl

theorem StartStage.Balanced.waits_le : flow.waits ≤ 1 := by
  cases stage with
  | connecting | requesting | restoring =>
    have silent := balanced.2.2.2
    omega
  | waiting =>
    have single := balanced.2.2
    omega
  | replying | done =>
    have silent := balanced.1
    omega

end

/-! ### What a step of the connection does -/

/-- No Start hears of it. -/
structure SameStarts (before after : Flow) : Prop where
  starts : after.starts = before.starts
  queued : after.queued = before.queued
  asked : after.asked = before.asked
  waits : after.waits = before.waits

/-- The daemon decides on the request of the first Start. -/
structure Decides (before after : Flow) (accepts : Bool) : Prop where
  starts : after.starts = before.starts
  waits : after.waits = before.waits
  asked : after.asked + 1 = before.asked
  queued : after.queued = before.queued + if accepts then 1 else 0
  agrees : before.Agrees (.start 0) accepts

/-- The first Start is told about its request. -/
structure Resolves (before after : Flow) (response : DownloadResponse) : Prop where
  starts : after.starts = before.starts.modify 0 (StartStage.resolve response)
  queued : after.queued = before.queued
  asked : after.asked = before.asked
  waits : after.waits < before.waits
  sound : if response = .queued then before.queued = 1 ∨ 0 < before.asked else before.queued = 0

theorem Flow.resolve_own (own : waiter = .other ∨ waiter = .start 0) :
    flow.resolve waiter response =
      { flow with
        starts := if waiter.isStart then flow.starts.modify 0 (StartStage.resolve response)
          else flow.starts } := by
  obtain rfl | rfl := own
  · rfl
  · rfl

theorem resolve_all {waiters : List Waiter}
    (own : ∀ waiter ∈ waiters, waiter = .other ∨ waiter = .start 0) :
    waiters.foldl (fun flow waiter => flow.resolve waiter response) flow =
      { flow with
        starts := if waiters.any Waiter.isStart then
          flow.starts.modify 0 (StartStage.resolve response) else flow.starts } := by
  induction waiters generalizing flow with
  | nil => rfl
  | cons waiter waiters ih =>
    rw [List.foldl_cons, List.any_cons, Flow.resolve_own (own waiter List.mem_cons_self),
      ih fun later member => own later (List.mem_cons_of_mem _ member)]
    have twice : (flow.starts.modify 0 (.resolve response)).modify 0
        (.resolve response) = flow.starts.modify 0 (.resolve response) := by
      rw [List.modify_modify_eq]
      exact congrArg _ (funext StartStage.resolve_resolve)
    cases waiter.isStart with
    | false => rfl
    | true =>
      simp only [if_pos, twice, ite_self, Bool.true_or]

theorem eraseIdx_countP {list : List Waiter} {place : Nat} (found : list[place]? = some waiter) :
    list.countP Waiter.isStart =
      (list.eraseIdx place).countP Waiter.isStart + if waiter.isStart then 1 else 0 := by
  obtain ⟨inside, at_⟩ := List.getElem?_eq_some_iff.mp found
  rw [← (List.getElem_cons_eraseIdx_perm inside).countP_eq, List.countP_cons, at_]

theorem countP_any {list : List Waiter} :
    list.any Waiter.isStart = true ↔ 0 < list.countP Waiter.isStart := by
  rw [List.any_eq_true, List.countP_pos_iff]

/-- The requests of the flow stay its own, and the first Start at most hears of its one. -/
theorem connection_cases (own : ∀ waiter ∈ flow.requests, waiter = .other ∨ waiter = .start 0)
    (on : action.onConnection = true) (orderly : Orderly flow action)
    (h : flow.step action = some next) :
    (∀ waiter ∈ next.requests, waiter = .other ∨ waiter ∈ flow.requests) ∧ SameSides flow next ∧
      (SameStarts flow next ∨ (∃ accepts, Decides flow next accepts) ∨
        ∃ response, Resolves flow next response) := by
  have own := fun waiter member => own waiter (mem_requests.mpr member)
  have decided : ∀ (left : Flow) {waiter accepts}, left.starts = flow.starts →
      left.queued = flow.queued → left.waits = flow.waits → SameSides flow left →
      flow.asked = left.asked + (if waiter.isStart then 1 else 0) →
      (waiter = .other ∨ waiter = .start 0) → flow.Agrees waiter accepts →
      (left.decided waiter accepts).requests = left.requests ∧
      SameSides flow (left.decided waiter accepts) ∧
        (SameStarts flow (left.decided waiter accepts) ∨
          (∃ accepts_, Decides flow (left.decided waiter accepts) accepts_) ∨
          ∃ response, Resolves flow (left.decided waiter accepts) response) := by
    intro left waiter accepts starts queued waits sides asked known agrees
    obtain rfl | rfl := known
    · rw [Flow.decided_other]
      exact ⟨rfl, sides, .inl ⟨starts, queued, asked.symm, waits⟩⟩
    · rw [Flow.decided_start]
      exact ⟨rfl, ⟨sides.prompt, sides.window, sides.keeps, sides.restarted⟩,
        .inr (.inl ⟨accepts, starts, waits, asked.symm, congrArg (· + _) queued, agrees⟩)⟩
  cases action with
  | openConnection =>
    simp only [Flow.step] at h
    split at h
    · cases h
    · cases h
      exact ⟨fun _ => .inr, ⟨rfl, rfl, rfl, rfl⟩, .inl ⟨rfl, rfl, rfl, rfl⟩⟩
  | closeConnection =>
    simp only [Flow.step] at h
    split at h
    · cases h
      unfold Flow.close
      rw [resolve_all fun waiter member => own waiter (.inl member)]
      have asked : (flow.stranded ++ flow.sent).countP Waiter.isStart = flow.asked := by
        unfold Flow.asked
        rw [List.countP_append, List.countP_append, Nat.add_comm]
      refine ⟨fun waiter member => ?_, ⟨rfl, rfl, rfl, rfl⟩, ?_⟩
      · rw [mem_requests] at member ⊢
        simp only [List.not_mem_nil, false_or, List.mem_append] at member
        exact .inr (.inr member.symm)
      · by_cases waited : flow.downloadRequests.any Waiter.isStart = true
        · have positive : 0 < flow.waits := countP_any.mp waited
          refine .inr (.inr ⟨.unavailable .connectionClosed, if_pos waited, rfl, asked, positive,
            ?_⟩)
          rw [if_neg (by simp)]
          exact orderly positive
        · have silent : flow.waits = 0 := by
            have none_ := mt countP_any.mpr waited
            unfold Flow.waits
            omega
          exact .inl ⟨if_neg waited, rfl, asked, silent.symm⟩
    · cases h
  | otherRequest =>
    simp only [Flow.step] at h
    split at h
    · cases h
      refine ⟨fun waiter member => ?_, ⟨rfl, rfl, rfl, rfl⟩, .inl ⟨rfl, rfl, ?_, ?_⟩⟩
      · rw [mem_requests] at member ⊢
        simp only [List.mem_append, List.mem_singleton] at member
        obtain (waits | new) | (sent | new) | stranded := member
        · exact .inr (.inl waits)
        · exact .inl new
        · exact .inr (.inr (.inl sent))
        · exact .inl new
        · exact .inr (.inr (.inr stranded))
      · simp [Flow.asked, Waiter.isStart]
      · simp [Flow.waits, Waiter.isStart]
    · cases h
  | decide accepts =>
    simp only [Flow.step] at h
    split at h
    · rename_i waiter rest sent
      cases h
      have counted : flow.asked = Flow.asked { flow with sent := rest } +
          if waiter.isStart then 1 else 0 := by
        simp only [Flow.asked, sent, List.cons_append, List.countP_cons]
      obtain ⟨requests, does⟩ := decided
        { flow with sent := rest, answers := flow.answers ++ [accepts] } rfl rfl rfl
        ⟨rfl, rfl, rfl, rfl⟩ counted (own waiter (.inr (.inl (by simp [sent]))))
        (orderly waiter (by rw [sent]; rfl))
      refine ⟨fun kept member => ?_, does⟩
      rw [requests, mem_requests] at member
      rw [mem_requests, sent, List.mem_cons]
      obtain waits | later | stranded := member
      · exact .inr (.inl waits)
      · exact .inr (.inr (.inl (.inr later)))
      · exact .inr (.inr (.inr stranded))
    · cases h
  | decideStranded place accepts =>
    simp only [Flow.step] at h
    split at h
    · rename_i waiter found
      cases h
      have counted : flow.asked = Flow.asked { flow with stranded := flow.stranded.eraseIdx place } +
          if waiter.isStart then 1 else 0 := by
        simp only [Flow.asked, List.countP_append, eraseIdx_countP found, Nat.add_assoc]
      obtain ⟨requests, does⟩ := decided
        { flow with stranded := flow.stranded.eraseIdx place } rfl rfl rfl ⟨rfl, rfl, rfl, rfl⟩ counted
        (own waiter (.inr (.inr (List.mem_of_getElem? found)))) (orderly waiter found)
      refine ⟨fun kept member => ?_, does⟩
      rw [requests, mem_requests] at member
      rw [mem_requests]
      exact .inr (member.imp_right (.imp_right List.mem_of_mem_eraseIdx))
    · cases h
  | answer =>
    simp only [Flow.step] at h
    split at h
    · rename_i accepted answers waiter requests answered waiting
      cases h
      rw [Flow.resolve_own (own waiter (.inl (by simp [waiting])))]
      have counted : flow.waits =
          requests.countP Waiter.isStart + if waiter.isStart then 1 else 0 := by
        unfold Flow.waits
        rw [waiting, List.countP_cons]
      refine ⟨fun kept member => ?_, ⟨rfl, rfl, rfl, rfl⟩, ?_⟩
      · rw [mem_requests] at member
        rw [mem_requests, waiting, List.mem_cons]
        exact .inr (member.imp_left Or.inr)
      · by_cases start : waiter.isStart = true
        · have sound := orderly accepted (by rw [answered]; rfl) waiter (by rw [waiting]; rfl) start
          refine .inr (.inr ⟨_, if_pos start, rfl, rfl, ?_, ?_⟩)
          · rw [if_pos start] at counted
            exact Nat.lt_of_succ_le (Nat.le_of_eq counted.symm)
          · cases accepted <;> exact sound
        · rw [if_neg start] at counted
          exact .inl ⟨if_neg start, rfl, rfl, counted.symm⟩
    · cases h
      exact ⟨fun _ => .inr, ⟨rfl, rfl, rfl, rfl⟩, .inl ⟨rfl, rfl, rfl, rfl⟩⟩
    · cases h
  | timeout place =>
    simp only [Flow.step] at h
    split at h
    · rename_i waiter found
      cases h
      rw [Flow.resolve_own (own waiter (.inl (List.mem_of_getElem? found)))]
      have counted : flow.waits = (flow.downloadRequests.eraseIdx place).countP Waiter.isStart +
          if waiter.isStart then 1 else 0 := eraseIdx_countP found
      refine ⟨fun kept member => ?_, ⟨rfl, rfl, rfl, rfl⟩, ?_⟩
      · rw [mem_requests] at member ⊢
        exact .inr (member.imp_left List.mem_of_mem_eraseIdx)
      · by_cases start : waiter.isStart = true
        · refine .inr (.inr ⟨.unavailable .timeout, if_pos start, rfl, rfl, ?_, ?_⟩)
          · rw [if_pos start] at counted
            exact Nat.lt_of_succ_le (Nat.le_of_eq counted.symm)
          · rw [if_neg (by simp)]
            exact orderly waiter found start
        · rw [if_neg start] at counted
          exact .inl ⟨if_neg start, rfl, rfl, counted.symm⟩
    · cases h
  | _ => cases on

theorem Quiet.counts (quiet : Quiet flow) : flow.asked = 0 ∧ flow.waits = 0 := by
  have none_ : flow.requests.countP Waiter.isStart = 0 := by
    rw [List.countP_eq_zero]
    intro waiter member
    rw [quiet.others waiter member]
    decide
  unfold Flow.requests at none_
  rw [List.countP_append] at none_
  unfold Flow.asked Flow.waits
  omega

theorem quiet_step (quiet : Quiet flow) (on : action.onConnection = true)
    (orderly : Orderly flow action) (h : flow.step action = some next) :
    Quiet next ∧ SameSides flow next := by
  obtain ⟨requests, sides, does⟩ :=
    connection_cases (fun waiter member => .inl (quiet.others waiter member)) on orderly h
  obtain ⟨asked, waits⟩ := quiet.counts
  have same : SameStarts flow next := by
    obtain same | ⟨_, decides⟩ | ⟨_, resolves⟩ := does
    · exact same
    · have one := decides.asked
      omega
    · have fewer := resolves.waits
      omega
  refine ⟨⟨same.starts.trans quiet.starts, same.queued.trans quiet.queued, ?_⟩, sides⟩
  exact fun waiter member => (requests waiter member).elim id (quiet.others waiter)

/-- Whatever comes over the connection keeps the balance of an orderly step. -/
theorem one_step (starts : flow.starts = [stage])
    (own : ∀ waiter ∈ flow.requests, waiter = .other ∨ waiter = .start 0)
    (balanced : stage.Balanced flow) (on : action.onConnection = true)
    (orderly : Orderly flow action) (h : flow.step action = some next) :
    ∃ later : StartStage, next.starts = [later] ∧
      (∀ waiter ∈ next.requests, waiter = .other ∨ waiter = .start 0) ∧ later.Balanced next ∧
      SameSides flow next := by
  obtain ⟨requests, sides, does⟩ := connection_cases own on orderly h
  have kept : ∀ waiter ∈ next.requests, waiter = .other ∨ waiter = .start 0 :=
    fun waiter member => (requests waiter member).elim Or.inl (own waiter)
  obtain same | ⟨accepts, decides⟩ | ⟨response, resolves⟩ := does
  · exact ⟨stage, same.starts.trans starts, kept,
      balanced.same same.waits same.asked sides.restarted same.queued, sides⟩
  · refine ⟨stage, decides.starts.trans starts, kept, ?_, sides⟩
    exact balanced.decided decides.asked decides.waits sides.restarted decides.queued
      (decides.agrees stage (by rw [starts]; rfl))
  · refine ⟨stage.resolve response, ?_, kept, ?_, sides⟩
    · rw [resolves.starts, starts]
      rfl
    · have fewer := resolves.waits
      have most := balanced.waits_le
      exact balanced.resolved (by omega) (by omega) resolves.asked sides.restarted resolves.queued
        resolves.sound

/-! ## Every step -/

theorem Quiet.frame (quiet : Quiet flow) (starts : next.starts = flow.starts)
    (queued : next.queued = flow.queued) (requests : next.requests = flow.requests) :
    Quiet next where
  starts := starts.trans quiet.starts
  queued := queued.trans quiet.queued
  others := by
    rw [requests]
    exact quiet.others

section

variable (owned : Owned flow)
include owned

theorem owned_of_connection (orderly : Orderly flow action)
    (on : action.onConnection = true) (h : flow.step action = some next) : Owned next := by
  cases owned with
  | undecided quiet keeps restarted window =>
    obtain ⟨later, sides⟩ := quiet_step quiet on orderly h
    refine .undecided later (sides.keeps.trans keeps) (sides.restarted.trans restarted) ?_
    rw [sides.prompt, sides.window]
    exact window
  | returned quiet keeps restarted prompt window =>
    obtain ⟨later, sides⟩ := quiet_step quiet on orderly h
    exact .returned later (sides.keeps.trans keeps) (sides.restarted.trans restarted)
      (sides.prompt.trans prompt) (sides.window.trans window)
  | kept stage quiet keeps prompt restarted =>
    obtain ⟨later, sides⟩ := quiet_step quiet on orderly h
    exact .kept stage later (sides.keeps.trans keeps) (sides.prompt.trans prompt)
      (sides.restarted.trans restarted)
  | started stage starts keeps prompt own balanced =>
    obtain ⟨later, one, own, kept, sides⟩ := one_step starts own balanced on orderly h
    exact .started later one (sides.keeps.trans keeps) (sides.prompt.trans prompt) own kept

/-- The prompt is prepared and opened, or the browser restarts the download. -/
theorem owned_of_prompt (on : action matches .prepared _ | .opened _ | .restorePrompt)
    (h : flow.step action = some next) : Owned next := by
  have running : flow.prompt ≠ .done := by
    intro done
    cases action with
    | prepared succeeds => simp [Flow.step, done] at h
    | opened succeeds => simp [Flow.step, done] at h
    | restorePrompt => simp [Flow.step, done] at h
    | _ => cases on
  cases owned with
  | undecided quiet keeps restarted window =>
    rw [if_neg running] at window
    cases action with
    | prepared succeeds =>
      simp only [Flow.step] at h
      split at h
      · cases h
        refine .undecided (quiet.frame rfl rfl rfl) keeps restarted ?_
        cases succeeds <;> exact window
      · cases h
    | opened succeeds =>
      simp only [Flow.step] at h
      split at h
      · cases succeeds with
        | true =>
          cases h
          exact .undecided (quiet.frame rfl rfl rfl) keeps restarted ⟨_, rfl, rfl⟩
        | false =>
          cases h
          exact .undecided (quiet.frame rfl rfl rfl) keeps restarted window
      · cases h
    | restorePrompt =>
      simp only [Flow.step] at h
      split at h
      · cases h
        exact .returned (quiet.frame rfl rfl rfl) keeps (congrArg (· + 1) restarted) rfl window
      · cases h
    | _ => cases on
  | returned quiet keeps restarted prompt window => exact absurd prompt running
  | kept stage quiet keeps prompt restarted => exact absurd prompt running
  | started stage starts keeps prompt own balanced => exact absurd prompt running

/-- The window is only there once the prompt is done. -/
theorem Owned.prompt_of_window {window : PromptWindow}
    (shown : flow.window = some window) : flow.prompt = .done := by
  cases owned with
  | undecided quiet keeps restarted prompt =>
    by_cases done : flow.prompt = .done
    · exact done
    · rw [if_neg done, shown] at prompt
      cases prompt
  | returned quiet keeps restarted prompt closed => exact prompt
  | kept stage quiet keeps prompt restarted => exact prompt
  | started stage starts keeps prompt own balanced => exact prompt

/-- Where nothing was pressed the flow is undecided, or the browser has the download. -/
theorem Owned.unpressed (starts : flow.starts = []) (keeps : flow.keeps = []) :
    Quiet flow ∧ (flow.restarted = 0 ∨ flow.window = none) := by
  cases owned with
  | undecided quiet _ restarted window => exact ⟨quiet, Or.inl restarted⟩
  | returned quiet _ restarted prompt window => exact ⟨quiet, Or.inr window⟩
  | kept stage quiet others prompt restarted =>
    rw [keeps] at others
    cases others
  | started stage others _ prompt own balanced =>
    rw [starts] at others
    cases others

/-- The first press decides who gets the download. -/
theorem owned_of_press (orderly : Orderly flow action)
    (on : action matches .pressStart | .pressCancel | .closeWindow)
    (h : flow.step action = some next) : Owned next := by
  cases action with
  | pressStart =>
    obtain ⟨starts, keeps⟩ := orderly
    obtain ⟨quiet, fresh⟩ := owned.unpressed starts keeps
    simp only [Flow.step] at h
    split at h
    · rename_i window shown
      split at h
      · cases h
        have restarted := fresh.resolve_right (by rw [shown]; simp)
        have counts := quiet.counts
        refine .started .connecting (by simp [starts]) keeps (owned.prompt_of_window shown)
          (fun waiter member => .inl (quiet.others waiter member)) ?_
        exact ⟨quiet.queued, restarted, counts.1, counts.2⟩
      · cases h
    · cases h
  | pressCancel =>
    obtain ⟨starts, keeps⟩ := orderly
    obtain ⟨quiet, fresh⟩ := owned.unpressed starts keeps
    simp only [Flow.step] at h
    split at h
    · rename_i window shown
      split at h
      · cases h
        have restarted := fresh.resolve_right (by rw [shown]; simp)
        exact .kept .restoring (quiet.frame rfl rfl rfl) (by simp [keeps])
          (owned.prompt_of_window shown) restarted
      · cases h
    · cases h
  | closeWindow =>
    simp only [Flow.step] at h
    split at h
    · cases h
      cases owned with
      | undecided quiet keeps restarted window =>
        exact absurd orderly (by simp [Orderly, quiet.starts, keeps])
      | returned quiet keeps restarted prompt window =>
        exact absurd orderly (by simp [Orderly, quiet.starts, keeps])
      | kept stage quiet keeps prompt restarted =>
        exact .kept stage (quiet.frame rfl rfl rfl) keeps prompt restarted
      | started stage starts keeps prompt own balanced =>
        exact .started stage starts keeps prompt own (balanced.same rfl rfl rfl rfl)
    · cases h
  | _ => cases on

/-- Only a flow with a Start has one to go on with. -/
theorem Owned.of_start {index : Nat} (found : flow.starts[index]? = some stage) :
    index = 0 ∧ flow.starts = [stage] ∧ flow.keeps = [] ∧ flow.prompt = .done ∧
      (∀ waiter ∈ flow.requests, waiter = .other ∨ waiter = .start 0) ∧ stage.Balanced flow := by
  cases owned with
  | undecided quiet keeps restarted window =>
    rw [quiet.starts] at found
    cases found
  | returned quiet keeps restarted prompt window =>
    rw [quiet.starts] at found
    cases found
  | kept stage quiet keeps prompt restarted =>
    rw [quiet.starts] at found
    cases found
  | started stage starts keeps prompt own balanced =>
    rw [starts] at found
    cases index with
    | zero =>
      cases found
      exact ⟨rfl, starts, keeps, prompt, own, balanced⟩
    | succ index => cases found

theorem owned_of_start (on : action matches .connect .. | .request .. | .restore _ | .reply _)
    (h : flow.step action = some next) : Owned next := by
  cases action with
  | connect index succeeds =>
    simp only [Flow.step] at h
    split at h
    · rename_i ready
      cases h
      obtain ⟨rfl, starts, keeps, prompt, own, balanced⟩ := owned.of_start ready.1
      obtain ⟨queued, restarted, asked, waits⟩ := balanced
      refine .started _ (by rw [Flow.setStart, starts]; rfl) keeps prompt own ?_
      cases succeeds with
      | true => exact ⟨queued, restarted, asked, waits⟩
      | false => exact ⟨queued, restarted, (show flow.asked ≤ 1 by omega), waits⟩
    · cases h
  | request index succeeds =>
    simp only [Flow.step] at h
    split at h
    · rename_i ready
      obtain ⟨rfl, starts, keeps, prompt, own, balanced⟩ := owned.of_start ready.1
      obtain ⟨queued, restarted, asked, waits⟩ := balanced
      cases succeeds with
      | true =>
        cases h
        refine .started .waiting (by simp [Flow.setStart, starts]) keeps prompt
          (fun waiter member => ?_) ⟨?_, restarted, ?_⟩
        · rw [mem_requests] at member
          simp only [Flow.setStart, List.mem_append, List.mem_singleton] at member
          obtain (old | new) | (old | new) | old := member
          · exact own waiter (mem_requests.mpr (.inl old))
          · exact .inr new
          · exact own waiter (mem_requests.mpr (.inr (.inl old)))
          · exact .inr new
          · exact own waiter (mem_requests.mpr (.inr (.inr old)))
        · have one : Flow.asked { flow.setStart 0 .waiting with
              downloadRequests := flow.downloadRequests ++ [.start 0]
              sent := flow.sent ++ [.start 0] } = flow.asked + 1 := by
            simp only [Flow.asked, Flow.setStart, List.countP_append, List.countP_cons,
              List.countP_nil, Waiter.isStart, if_pos]
            omega
          rw [one]
          change flow.queued + _ ≤ 1
          omega
        · unfold Flow.waits at waits ⊢
          simp [waits, Waiter.isStart]
      | false =>
        cases h
        refine .started _ (by rw [Flow.setStart, starts]; rfl) keeps prompt own ?_
        exact ⟨queued, restarted, (show flow.asked ≤ 1 by omega), waits⟩
    · cases h
  | restore index =>
    simp only [Flow.step] at h
    split at h
    · rename_i reason found
      cases h
      obtain ⟨rfl, starts, keeps, prompt, own, balanced⟩ := owned.of_start found
      obtain ⟨queued, restarted, asked, waits⟩ := balanced
      refine .started (.replying (.unavailable reason)) ?_ keeps prompt own ⟨waits, asked, ?_⟩
      · rw [Flow.setStart, Flow.restart, starts]
        rfl
      · rw [if_neg (by simp)]
        exact ⟨queued, congrArg (· + 1) restarted⟩
    · cases h
  | reply index =>
    simp only [Flow.step] at h
    split at h
    · rename_i response found
      cases h
      obtain ⟨rfl, starts, keeps, prompt, own, balanced⟩ := owned.of_start found
      refine .started (.done response) ?_ keeps prompt own balanced
      rw [Flow.setStart, starts]
      rfl
    · cases h
  | _ => cases on

theorem owned_of_keep (on : action matches .keep _ | .replyKept _)
    (h : flow.step action = some next) :
    Owned next := by
  have kept {index : Nat} {stage : KeepStage} (found : flow.keeps[index]? = some stage) :
      index = 0 ∧ Quiet flow ∧ flow.keeps = [stage] ∧ flow.prompt = .done ∧
        flow.restarted = if stage = .restoring then 0 else 1 := by
    cases owned with
    | undecided quiet keeps restarted window =>
      rw [keeps] at found
      cases found
    | returned quiet keeps restarted prompt window =>
      rw [keeps] at found
      cases found
    | kept stage quiet keeps prompt restarted =>
      rw [keeps] at found
      cases index with
      | zero =>
        cases found
        exact ⟨rfl, quiet, keeps, prompt, restarted⟩
      | succ index => cases found
    | started stage starts keeps prompt own balanced =>
      rw [keeps] at found
      cases found
  cases action with
  | keep index =>
    simp only [Flow.step] at h
    split at h
    · rename_i found
      cases h
      obtain ⟨rfl, quiet, keeps, prompt, restarted⟩ := kept found
      refine .kept .replying (quiet.frame rfl rfl rfl) ?_ prompt (congrArg (· + 1) restarted)
      rw [Flow.setKeep, Flow.restart, keeps]
      rfl
    · cases h
  | replyKept index =>
    simp only [Flow.step] at h
    split at h
    · rename_i found
      cases h
      obtain ⟨rfl, quiet, keeps, prompt, restarted⟩ := kept found
      refine .kept .done (quiet.frame rfl rfl rfl) ?_ prompt restarted
      rw [Flow.setKeep, keeps]
      rfl
    · cases h
  | _ => cases on

theorem owned_step (orderly : Orderly flow action)
    (h : flow.step action = some next) : Owned next := by
  cases action with
  | openConnection | closeConnection | otherRequest | decide | decideStranded | answer | timeout =>
    exact owned_of_connection owned orderly rfl h
  | prepared | opened | restorePrompt => exact owned_of_prompt owned rfl h
  | pressStart | pressCancel | closeWindow => exact owned_of_press owned orderly rfl h
  | connect | request | restore | reply => exact owned_of_start owned rfl h
  | keep | replyKept => exact owned_of_keep owned rfl h

end

end

/-- Once an orderly run has settled, either Gunda has one download and the browser did not
restart, or the browser restarted once and Gunda has none. -/
theorem exactly_one_owner {begins final : Flow} {actions : List Action} (start : Begins begins)
    (orderly : Machine.Meets Flow.step Orderly begins actions)
    (ran : Machine.run Flow.step begins actions = some final) (settled : Settled final) :
    OneOwner final :=
  oneOwner_of_settled
    (Machine.invariant_of_meets (fun _ _ _ owned => owned_step owned) (owned_of_begins start)
      orderly ran) settled

/-! ### One Start, and a second one -/

def cancelledDownload : Flow :=
  ⟨.preparing, none, [], [], true, [], [], [], [], 0, 0⟩

theorem cancelledDownload_begins : Begins cancelledDownload where
  prompt := rfl
  window := rfl
  starts := rfl
  keeps := rfl
  others := by simp [cancelledDownload]
  queued := rfl
  restarted := rfl

/-- Start, and a daemon that queues the download. -/
def startedOnce : List Action :=
  [.prepared true, .opened true, .pressStart, .connect 0 true, .request 0 true, .decide true,
    .answer, .reply 0]

theorem settled_of {flow : Flow} (prompt : flow.prompt = .done)
    (window : flow.window.all (·.progress) = true)
    (starts : flow.starts.all (fun stage => stage matches .done _) = true)
    (keeps : flow.keeps.all (fun stage => stage matches .done) = true)
    (asked : (flow.sent ++ flow.stranded).any Waiter.isStart = false) : Settled flow := by
  refine ⟨prompt, ?_, ?_, ?_, asked⟩
  · intro open_ shown
    rw [shown] at window
    exact window
  · intro stage member
    have ended := List.all_eq_true.mp starts stage member
    cases stage with
    | done response => exact ⟨response, rfl⟩
    | _ => cases ended
  · intro stage member
    have ended := List.all_eq_true.mp keeps stage member
    cases stage with
    | done => rfl
    | _ => cases ended

theorem startedOnce_one_owner : ∃ final,
    Machine.run Flow.step cancelledDownload startedOnce = some final ∧ OneOwner final := by
  have orderly : Machine.Meets Flow.step Orderly cancelledDownload startedOnce := by decide
  exact ⟨_, rfl, exactly_one_owner cancelledDownload_begins orderly rfl
    (settled_of rfl rfl rfl rfl rfl)⟩

/-- The daemon cannot be reached, so the browser restarts the download; Start is enabled
again, and pressed again. -/
def startedAgain : List Action :=
  [.prepared true, .opened true, .pressStart, .closeConnection, .connect 0 false, .restore 0,
    .reply 0, .openConnection, .pressStart, .connect 1 true, .request 1 true, .decide true, .answer,
    .reply 1]

theorem fetched_by_both : ¬ ∀ begins final actions, Begins begins →
    Machine.run Flow.step begins actions = some final → Settled final → OneOwner final := by
  intro claimed
  have owner := claimed cancelledDownload _ startedAgain cancelledDownload_begins rfl
    (settled_of rfl rfl rfl rfl rfl)
  rcases owner with ⟨_, restarted⟩ | ⟨queued, _⟩
  · cases restarted
  · cases queued

end Gunda.Extension

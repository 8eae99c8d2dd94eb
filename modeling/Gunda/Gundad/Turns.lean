import Gunda.Core.OneJob
import Gunda.Core.Serialized
import Gunda.Gundad.Loop

/-!
# What the daemon's tasks may rely on

A worker works on one job and sees its entry of the manager's map; the main task works
on the jobs no worker runs and sees theirs. Neither sees a move of the other. The terms
of both, and that the source's programs keep them.
-/
namespace Gunda.Gundad

open Gunda.Lib Gunda.Lib.Text
open Fallible (andThen andThen_ok wp wp_adapt wp_bind wp_map wp_mono)
open Gunda.Core

variable {urls : UrlCrate}
variable {since : DownloadId → Record → Bool} {record : Record} {history : List Record}
    {task : Nat} {choice : ServiceChoice} {served after : ServedWorld}

/-! ## Executions of a run -/

namespace Record

def executes (id : DownloadId) : Record → Bool
  | .called (.execute other) => other = id
  | _ => false

/-- A new process or a new worker for the job. -/
def launches (id : DownloadId) : Record → Bool
  | .launched job _ => job.id = id
  | .started => true
  | _ => false

/-- A new process, a command for the job or its creation. -/
def commands (id : DownloadId) : Record → Bool
  | .commanded other | .created other _ => other = id
  | .started => true
  | _ => false

end Record

/-- The executions of a job since the newest of these records. -/
def executionsSince (since : DownloadId → Record → Bool) (history : List Record)
    (id : DownloadId) : Nat :=
  (history.takeWhile fun record => !since id record).countP (·.executes id)

variable {id : DownloadId}

theorem executionsSince_of_since (h : since id record = true) :
    executionsSince since (record :: history) id = 0 := by
  simp [executionsSince, h]

theorem executionsSince_of_quiet (new : since id record = false)
    (quiet : record.executes id = false) :
    executionsSince since (record :: history) id = executionsSince since history id := by
  simp [executionsSince, new, quiet]

theorem executionsSince_of_executes (new : since id record = false)
    (executes : record.executes id = true) :
    executionsSince since (record :: history) id = executionsSince since history id + 1 := by
  simp [executionsSince, new, executes]

namespace Loop

def sinceLaunch (loop : Loop urls) (id : DownloadId) : Nat :=
  executionsSince Record.launches loop.history id

def sinceCommand (loop : Loop urls) (id : DownloadId) : Nat :=
  executionsSince Record.commands loop.history id

/-! ## The manager's map -/

/-- The entry of a job in the manager's map. -/
def shown (loop : Loop urls) (id : DownloadId) : Option DownloadJob := loop.served.world.jobs id

end Loop

/-- What an operation leaves in the manager's map. -/
def shownAfter (jobs : DownloadId → Option DownloadJob) : ServiceOp →
    DownloadId → Option DownloadJob
  | .expose listed => fun id => listed.find? (·.id = id)
  | .managed (.insert id job) => upsert jobs id job
  | _ => jobs

/-- The map after an operation; no operation but a creation adds or removes a row. -/
theorem serveAs_world {op : ServiceOp} {answer : op.Answer}
    (h : serveAs task op choice served = some (answer, after)) :
    after.world.jobs = shownAfter served.world.jobs op ∧
      ((∀ download createdAt, op ≠ .createRow download createdAt) →
        ∀ id, after.world.rows id = none ↔ served.world.rows id = none) := by
  cases op with
  | list =>
    cases choice with
    | listed failure => cases failure <;> cases h <;> exact ⟨rfl, fun _ _ => Iff.rfl⟩
    | _ => cases h
  | expose jobs =>
    cases choice with
    | settled =>
      cases h
      exact ⟨rfl, fun _ _ => Iff.rfl⟩
    | _ => cases h
  | createRow download createdAt =>
    cases choice with
    | created result =>
      cases result with
      | error error =>
        cases h
        exact ⟨rfl, fun _ _ => Iff.rfl⟩
      | ok row =>
        simp only [serveAs, serve] at h
        split at h
        · cases h
          exact ⟨rfl, fun known => absurd rfl (known download createdAt)⟩
        · cases h
    | _ => cases h
  | managed op =>
    cases choice with
    | managed choice =>
      obtain ⟨⟨given, world⟩, responded, same⟩ := Option.map_eq_some_iff.mp h
      cases same
      cases op with
      | save candidate =>
        cases choice with
        | stored result =>
          cases result with
          | error error =>
            cases responded
            exact ⟨rfl, fun _ _ => Iff.rfl⟩
          | ok updatedAt =>
            obtain ⟨⟨persisted, saved⟩, kept, same⟩ := Option.map_eq_some_iff.mp responded
            cases same
            obtain ⟨previous, found, _, rfl⟩ := World.save_eq_some kept
            refine ⟨rfl, fun _ id => ?_⟩
            dsimp only
            by_cases own : id = candidate.id
            · simp [own, upsert_self, found]
            · rw [upsert_of_ne _ _ own]
        | _ => cases responded
      | lockWrites | unlockWrites =>
        cases choice with
        | settled =>
          simp only [respond] at responded
          split at responded
          · cases responded
            exact ⟨rfl, fun _ _ => Iff.rfl⟩
          · cases responded
        | _ => cases responded
      | _ =>
        cases choice <;> cases responded
        exact ⟨rfl, fun _ _ => Iff.rfl⟩
    | _ => cases h

theorem serveAs_job {answer : Option DownloadJob}
    (h : serveAs task (.managed (.job id)) choice served = some (answer, after)) :
    answer = served.world.jobs id := by
  cases choice with
  | managed choice =>
    obtain ⟨⟨given, world⟩, responded, same⟩ := Option.map_eq_some_iff.mp h
    cases same
    cases choice <;> cases responded
    rfl
  | _ => cases h

/-- A failing save over a queued job. -/
def LosesQueued (jobs : DownloadId → Option DownloadJob) : ServiceOp → ServiceChoice → Prop
  | .managed (.save candidate), .managed (.stored (.error _)) => Queued (jobs candidate.id)
  | _, _ => False

theorem serveAs_save {candidate : DownloadJob} {answer : Except RepositoryError DownloadJob}
    (h : serveAs task (.managed (.save candidate)) choice served = some (answer, after)) :
    (∀ persisted, answer = .ok persisted → Stamped candidate persisted) ∧
      (¬ LosesQueued served.world.jobs (.managed (.save candidate)) choice →
        Queued (served.world.jobs candidate.id) → answer.isOk = true) := by
  cases choice with
  | managed choice =>
    obtain ⟨⟨given, world⟩, responded, same⟩ := Option.map_eq_some_iff.mp h
    cases same
    cases choice with
    | stored result =>
      cases result with
      | error error =>
        cases responded
        exact ⟨fun persisted ok => (nomatch ok), fun kept queued => absurd queued kept⟩
      | ok updatedAt =>
        obtain ⟨⟨persisted, saved⟩, kept, same⟩ := Option.map_eq_some_iff.mp responded
        cases same
        obtain ⟨_, _, rfl, _⟩ := World.save_eq_some kept
        refine ⟨fun other ok => ?_, fun _ _ => rfl⟩
        cases ok
        rfl
    | _ => cases responded
  | _ => cases h

/-! ## Workers -/

/-- A worker sees the entry of its job and counts its executions. -/
abbrev WorkerView : Type := Option DownloadJob × Nat

def workerTerms (id : DownloadId) (reliable : Prop) : Terms WorkerOp WorkerOp.Answer WorkerView where
  service := (managedSpec (oneJob id reliable)).beside Nat
  own :=
    { requires := fun op _ => match op with
        | .send (.finished _ _) => False
        | _ => True
      ensures := fun _ s _ t => t = s }
  begins operation s :=
    (operation = .execute id ∧ s.2 < maxAutomaticAttempts) ∨ operation = .retry id
  begun operation s := match operation with
    | .execute _ => (s.1, s.2 + 1)
    | _ => s

def UnpersistedCall : CallResult → Prop
  | .error (.manager error) => error.Unpersisted
  | _ => False

/-- What a worker leaves: its job left the queue, unless a save failed that took it out,
and an output that awaits its record belongs to a finalizing job. -/
structure Delivers (reliable : Prop) (result : CallResult) (shown : Option DownloadJob) : Prop where
  unqueued : Queued shown → ¬ reliable
  awaits : UnpersistedCall result → Finalizing shown

section

variable {id : DownloadId} {reliable : Prop}

theorem wp_manage_one {ε α : Type} {p : Managed ε α} {count : Nat}
    {Q : Except ε α → Option DownloadJob → Prop} {s : Option DownloadJob}
    (h : wp (oneJob id reliable) p Q s) :
    wp (workerTerms id reliable).service (manage p)
      (fun result t => Q result t.1 ∧ t.2 = count) (s, count) :=
  Program.wp_beside (wp_managedSpec h)

theorem execute_safe (s : Option DownloadJob) (count : Nat) :
    Program.wp (workerTerms id reliable).service (Operation.execute id).program.run
      (fun result t => Delivers reliable result t.1 ∧ t.2 = count) (s, count) := by
  change wp _ (Operation.execute id).program _ _
  unfold Operation.program
  rw [wp_adapt, wp_bind]
  apply wp_mono (wp_manage_one (executeInner_one s))
  rintro (error | report) t ⟨⟨left_, awaits⟩, counted⟩
  · exact ⟨⟨left_, awaits⟩, counted⟩
  · exact ⟨⟨left_, False.elim⟩, counted⟩

theorem retry_safe (s : Option DownloadJob) (count : Nat) :
    Program.wp (workerTerms id reliable).service (Operation.retry id).program.run
      (fun result t => (∀ error, result = .error error → ¬ UnpersistedCall result ∧ t.1 = s) ∧
        t.2 = count) (s, count) := by
  change wp _ (Operation.retry id).program _ _
  unfold Operation.program
  rw [wp_adapt, wp_map]
  apply wp_mono (wp_manage_one (changeIdleState_one .retry s))
  rintro (error | event) t ⟨ended, counted⟩
  · exact ⟨fun _ _ => ended, counted⟩
  · exact ⟨fun _ failed => (nomatch failed), counted⟩

/-- The attempts of a worker: each is counted, and what the last one leaves is delivered. -/
theorem attempts_safe (more : Nat) {s : Option DownloadJob} {count : Nat}
    (room : count + more < maxAutomaticAttempts) :
    Program.wp (workerTerms id reliable).spec (attempts id more)
      (fun result t => Delivers reliable result t.1) (s, count) := by
  induction more generalizing s count with
  | zero =>
    apply wp_call
    · exact .inl ⟨rfl, room⟩
    · exact Program.wp_mono (execute_safe s (count + 1)) fun result t ended => ended.1
  | succ more ih =>
    unfold attempts
    rw [Program.wp_bind]
    apply wp_call
    · exact .inl ⟨rfl, by omega⟩
    apply Program.wp_mono (execute_safe s (count + 1))
    rintro result ⟨t, counted⟩ ⟨delivers, rfl⟩
    split
    · rw [Program.wp_bind]
      apply wp_call
      · exact .inr rfl
      apply Program.wp_mono (retry_safe t (count + 1))
      rintro (error | event) ⟨u, counted⟩ ⟨failed, rfl⟩
      · obtain ⟨plain, same⟩ := failed error rfl
        rw [show u = t from same]
        exact ⟨delivers.unqueued, fun lost => absurd lost plain⟩
      · refine ⟨trivial, ?_⟩
        rintro _ _ rfl
        refine ⟨trivial, ?_⟩
        rintro _ _ rfl
        refine ⟨trivial, ?_⟩
        rintro _ _ rfl
        exact ih (by omega)
    · exact delivers

theorem executeJob_safe (s : Option DownloadJob) :
    Program.wp (workerTerms id reliable).spec (executeJob id)
      (fun result t => Delivers reliable result t.1) (s, 0) :=
  attempts_safe _ (by decide)

end

/-! ## The main task -/

/-- What the main task sees: the jobs no worker runs, the outputs that await their
record, and the jobs that were not executed since their last command. -/
structure Idle where
  active : List DownloadId
  shown : DownloadId → Option DownloadJob
  outputs : DownloadId → Option ExecutionOutput
  fresh : DownloadId → Prop

namespace Idle

def show_ (view : Idle) (id : DownloadId) (job : Option DownloadJob) : Idle :=
  { view with shown := fun other => if other = id then job else view.shown other }

theorem show_shown (view : Idle) (id : DownloadId) : view.show_ id (view.shown id) = view := by
  have same : (fun other => if other = id then view.shown id else view.shown other) =
      view.shown := by
    funext other
    split
    · rename_i here
      rw [here]
    · rfl
  rw [show_, same]

@[simp] theorem show_shown_self (view : Idle) (id : DownloadId) (job : Option DownloadJob) :
    (view.show_ id job).shown id = job := if_pos rfl

theorem show_shown_of_ne (view : Idle) {other : DownloadId} (job : Option DownloadJob)
    (h : other ≠ id) : (view.show_ id job).shown other = view.shown other := if_neg h

theorem show_show (view : Idle) (id : DownloadId) (job later : Option DownloadJob) :
    (view.show_ id job).show_ id later = view.show_ id later := by
  unfold show_
  congr 1
  funext other
  dsimp only
  split <;> rfl

/-- Between commands: an output awaits the record of a finalizing job, and a queued job
was not executed since its last command. -/
structure Settled (reliable : Prop) (view : Idle) : Prop where
  outputs : ∀ id, view.outputs id ≠ none → id ∉ view.active ∧ Finalizing (view.shown id)
  queued : reliable → ∀ id, Queued (view.shown id) → view.fresh id

/-- A call on a job that is not active. -/
def spec : Spec ServiceOp ServiceOp.Answer Idle where
  requires
    | .managed (.insert key job), v =>
        key ∉ v.active ∧ job.id = key ∧ v.fresh key
    | .expose _, v => v.active = [] ∧ ∀ id, v.fresh id
    | _, _ => True
  ensures
    | .managed (.job key), v, answer, t => t = v ∧ (∀ job, answer = some job → job.id = key) ∧
        (key ∉ v.active → answer = v.shown key) ∧ (answer = none → key ∉ v.active ∧ v.fresh key)
    | .managed (.insert key job), v, _, t => t = v.show_ key (some job)
    | .managed (.save candidate), v, answer, t =>
        t = v ∧ ∀ persisted, answer = .ok persisted → Stamped candidate persisted
    | .expose _, v, _, t => t.active = v.active ∧ t.outputs = v.outputs ∧ t.fresh = v.fresh
    | _, v, _, t => t = v

/-- A program on one job, as the main task runs it. -/
theorem wp_one {α : Type} {p : Program ManagerOp ManagerOp.Answer α}
    {Q : α → Option DownloadJob → Prop} {view : Idle} {s : Option DownloadJob}
    (idle : id ∉ view.active) (fresh : view.fresh id) (h : Program.wp (oneJob id False) p Q s) :
    Program.wp spec (managed p) (fun result t => ∃ job, t = view.show_ id job ∧ Q result job)
      (view.show_ id s) := by
  induction p generalizing s with
  | done value => exact ⟨s, rfl, h⟩
  | step op next ih =>
    cases op with
    | job key =>
      refine ⟨trivial, ?_⟩
      rintro answer t ⟨rfl, keyed, shown, _⟩
      refine ih answer (h.2 answer s ⟨rfl, ?_, keyed⟩)
      rintro rfl
      rw [shown idle, show_shown_self]
    | insert key job =>
      obtain ⟨rfl, named⟩ := h.1
      refine ⟨⟨idle, named, fresh⟩, ?_⟩
      rintro answer t rfl
      rw [show_show]
      exact ih answer (h.2 answer (some job) rfl)
    | save candidate =>
      refine ⟨trivial, ?_⟩
      rintro answer t ⟨rfl, stamped⟩
      exact ih answer (h.2 answer s ⟨rfl, stamped, False.elim⟩)
    | _ =>
      refine ⟨trivial, ?_⟩
      rintro answer t rfl
      exact ih answer (h.2 answer s rfl)

theorem wp_manage {ε α : Type} {p : Managed ε α} {Q : Except ε α → Option DownloadJob → Prop}
    {view : Idle} (idle : id ∉ view.active) (fresh : view.fresh id)
    (h : wp (oneJob id False) p Q (view.shown id)) :
    wp spec (manage p) (fun result t => ∃ job, t = view.show_ id job ∧ Q result job)
      view := by
  have shown := wp_one idle fresh h
  rw [show_shown] at shown
  exact shown

/-- What a call leaves of a settled view. -/
structure Keeps (reliable : Prop) (before after : Idle) : Prop where
  settled : after.Settled reliable
  active : after.active = before.active
  fresh : after.fresh = before.fresh

theorem Settled.show_ {reliable : Prop} {view : Idle} {job : Option DownloadJob}
    (settled : view.Settled reliable) (fresh : view.fresh id)
    (kept : view.outputs id ≠ none → Finalizing job) : (view.show_ id job).Settled reliable := by
  constructor
  · intro other waits
    by_cases same : other = id
    · subst same
      rw [show_shown_self]
      exact ⟨(settled.outputs other waits).1, kept waits⟩
    · rw [show_shown_of_ne view job same]
      exact settled.outputs other waits
  · intro holds other queued
    by_cases same : other = id
    · rw [same]
      exact fresh
    · rw [show_shown_of_ne view job same] at queued
      exact settled.queued holds other queued

end Idle

/-- The job a call is about. -/
def callTarget : Operation → Option DownloadId
  | .pause id | .resume id | .cancel id | .retry id | .restart id | .execute id
  | .confirmPublishedOutput id _ => some id
  | .start | .create _ => none

def mainTerms (urls : UrlCrate) : Terms (CommandOp urls) CommandOp.Answer Idle where
  service := Idle.spec
  own :=
    { requires := fun _ _ => True
      ensures := fun op v answer t => match op, answer with
        | .isActive id, answer => t = v ∧ answer = decide (id ∈ v.active)
        | .pendingOutput id, answer => t = v ∧ answer = v.outputs id
        | .removeOutput id, _ => t = { v with
            outputs := fun other => if other = id then none else v.outputs other }
        | .queueCreated id _, _ => t = { v with fresh := fun other => other = id ∨ v.fresh other }
        | _, _ => t = v }
  begins operation v :=
    (∀ id, operation ≠ .execute id) ∧ ∀ id ∈ callTarget operation, id ∉ v.active
  begun _ v := v

section

variable {reliable : Prop} {view : Idle} {id : DownloadId}
variable {α : Type} {operation : Operation} {op : CommandOp urls}

theorem wp_own {Q : Except String op.Answer → Idle → Prop}
    (h : ∀ answer t, (mainTerms urls).own.ensures op view answer t → Q (.ok answer) t) :
    wp (mainTerms urls).spec (Handler.own op) Q view :=
  ⟨trivial, h⟩

/-- Operations of the main task that change nothing it sees. -/
def CommandOp.Unseen : CommandOp urls → Prop
  | .isActive _ | .pendingOutput _ | .removeOutput _ | .queueCreated _ _ => False
  | _ => True

theorem wp_unseen {Q : Except String op.Answer → Idle → Prop} (unseen : op.Unseen)
    (h : ∀ answer, Q (.ok answer) view) :
    wp (mainTerms urls).spec (Handler.own op) Q view := by
  apply wp_own
  intro answer t ensured
  cases op with
  | isActive _ | pendingOutput _ | removeOutput _ | queueCreated _ _ => exact unseen.elim
  | _ =>
    rw [show t = view from ensured]
    exact h answer

theorem wp_unseen_bind {next : op.Answer → Handler urls α} {Q : Except String α → Idle → Prop}
    (unseen : op.Unseen) (h : ∀ answer, wp (mainTerms urls).spec (next answer) Q view) :
    wp (mainTerms urls).spec (Handler.own op >>= next) Q view := by
  rw [wp_bind]
  exact wp_unseen unseen h

/-- A handler asks first whether its job is active. -/
theorem wp_isActive {next : Bool → Handler urls Unit} {Q : Except String Unit → Idle → Prop}
    (active : wp (mainTerms urls).spec (next true) Q view)
    (idle : id ∉ view.active → wp (mainTerms urls).spec (next false) Q view) :
    wp (mainTerms urls).spec (Handler.own (.isActive id) >>= next) Q view := by
  rw [wp_bind]
  apply wp_own
  rintro answer t ⟨rfl, rfl⟩
  rw [andThen_ok]
  by_cases member : id ∈ t.active
  · rw [decide_eq_true member]
    exact active
  · rw [decide_eq_false member]
    exact idle member

theorem wp_ofExcept {result : Except String α} {Q : Except String α → Idle → Prop}
    (h : Q result view) : wp (mainTerms urls).spec (Handler.ofExcept result) Q view := h

/-! ## Commands -/

section

variable (settled : view.Settled reliable)
include settled

theorem Idle.Keeps.refl : Idle.Keeps reliable view view :=
  ⟨settled, rfl, rfl⟩

omit settled in
/-- Job control of a job that is not active. -/
theorem wp_control {command : DownloadCommandKind} (same : operation.program =
      ExceptT.adapt .manager (some <$> manage (changeIdleState id command)))
    (settled : view.Settled reliable) (idle : id ∉ view.active) (fresh : view.fresh id) :
    Program.wp Idle.spec operation.program.run (fun _ t => Idle.Keeps reliable view t) view := by
  change wp Idle.spec operation.program _ _
  rw [same, wp_adapt, wp_map]
  apply wp_mono (Idle.wp_manage idle fresh (changeIdleState_one command _))
  rintro (error | event) t ⟨job, rfl, ended⟩
  · rw [ended.2, Idle.show_shown]
    exact .refl settled
  · exact ⟨settled.show_ fresh fun waits => absurd (settled.outputs id waits).2 ended, rfl, rfl⟩

omit settled in
/-- A call of job control, and what its handler does next. -/
theorem wp_controlled {command : DownloadCommandKind} {message : String}
    {next : Option DownloadEvent → Handler urls Unit} (same : operation.program =
      ExceptT.adapt .manager (some <$> manage (changeIdleState id command)))
    (unexecuted : ∀ other, operation ≠ .execute other) (target : callTarget operation = some id)
    (settled : view.Settled reliable) (idle : id ∉ view.active) (fresh : view.fresh id)
    (after : ∀ event t, t.Settled reliable →
      wp (mainTerms urls).spec (next event) (fun _ t => t.Settled reliable) t) :
    wp (mainTerms urls).spec (Handler.manager operation message >>= next)
      (fun _ t => t.Settled reliable) view := by
  rw [wp_bind]
  apply wp_manager (R := fun _ t => Idle.Keeps reliable view t)
  · refine ⟨unexecuted, ?_⟩
    rw [target]
    rintro _ ⟨⟩
    exact idle
  · exact wp_control same settled idle fresh
  · rintro (error | event) t kept
    · exact kept.settled
    · exact after event t kept.settled

theorem queueAgain_settles {engine : JobEngine} :
    wp (mainTerms urls).spec (Handler.own (.queueAgain id engine))
      (fun _ t => t.Settled reliable) view :=
  wp_unseen trivial fun _ => settled

section

variable (fresh : view.fresh id)
include fresh

theorem pause_settles :
    wp (mainTerms urls).spec (Handler.pause id) (fun _ t => t.Settled reliable) view := by
  unfold Handler.pause
  apply wp_isActive
  · apply wp_unseen_bind
    · trivial
    intro accepted
    cases accepted <;> exact settled
  · intro idle
    exact wp_controlled rfl nofun rfl settled idle fresh fun _ _ kept => kept

theorem resume_settles :
    wp (mainTerms urls).spec (Handler.resume id) (fun _ t => t.Settled reliable) view := by
  unfold Handler.resume
  refine wp_isActive settled fun idle => ?_
  apply wp_unseen_bind
  · trivial
  intro engine
  apply wp_unseen_bind
  · trivial
  intro job
  split
  · exact settled
  apply wp_unseen_bind
  · trivial
  intro checked
  split
  · exact settled
  · exact settled
  · exact wp_controlled rfl nofun rfl settled idle fresh fun _ _ kept => queueAgain_settles kept

theorem retry_settles :
    wp (mainTerms urls).spec (Handler.retry id) (fun _ t => t.Settled reliable) view := by
  unfold Handler.retry
  refine wp_isActive settled fun idle => ?_
  apply wp_unseen_bind
  · trivial
  intro engine
  exact wp_controlled rfl nofun rfl settled idle fresh fun _ _ kept => queueAgain_settles kept

theorem restart_settles :
    wp (mainTerms urls).spec (Handler.restart id) (fun _ t => t.Settled reliable) view := by
  unfold Handler.restart
  refine wp_isActive settled fun idle => ?_
  apply wp_unseen_bind
  · trivial
  intro engine
  apply wp_unseen_bind
  · trivial
  intro job
  split
  · exact settled
  apply wp_unseen_bind
  · trivial
  intro reset
  split
  · exact settled
  · exact wp_controlled rfl nofun rfl settled idle fresh fun _ _ kept => queueAgain_settles kept

theorem cancel_settles :
    wp (mainTerms urls).spec (Handler.cancel id) (fun _ t => t.Settled reliable) view := by
  unfold Handler.cancel
  apply wp_isActive
  · exact wp_unseen trivial fun _ => settled
  · intro idle
    exact wp_controlled rfl nofun rfl settled idle fresh fun _ _ kept => kept

/-- Only an output that awaits its record is confirmed: its job is not active. -/
theorem saveStatus_settles :
    wp (mainTerms urls).spec (Handler.saveStatus id) (fun _ t => t.Settled reliable)
      view := by
  unfold Handler.saveStatus
  rw [wp_bind]
  apply wp_own
  rintro output t ⟨rfl, pending⟩
  rw [andThen_ok]
  cases output with
  | none => exact settled
  | some output =>
    have waits : t.outputs id ≠ none := by
      rw [← pending]
      nofun
    obtain ⟨idle, finalizing⟩ := settled.outputs id waits
    rw [wp_bind]
    apply wp_manager (R := fun result later => ∃ job, later = t.show_ id job ∧
      ((∃ error, result = .error error ∧ job = t.shown id) ∨ ∃ event, result = .ok event))
    · refine ⟨nofun, ?_⟩
      rintro _ ⟨⟩
      exact idle
    · change wp Idle.spec (Operation.confirmPublishedOutput id output).program _ _
      unfold Operation.program
      rw [wp_adapt, wp_map]
      apply wp_mono (Idle.wp_manage idle fresh (confirmPublishedOutput_one output _))
      rintro (error | event) later ⟨job, rfl, ended⟩
      · exact ⟨job, rfl, .inl ⟨_, rfl, ended⟩⟩
      · exact ⟨job, rfl, .inr ⟨_, rfl⟩⟩
    · rintro result later ⟨job, rfl, ⟨error, rfl, rfl⟩ | ⟨event, rfl⟩⟩
      · change (t.show_ id (t.shown id)).Settled reliable
        rw [Idle.show_shown]
        exact settled
      · change wp (mainTerms urls).spec (Handler.own (.removeOutput id)) _ _
        apply wp_own
        rintro answer u rfl
        constructor
        · intro other left_
          by_cases same : other = id
          · exact absurd (if_pos same) left_
          · change (if other = id then none else t.outputs other) ≠ none at left_
            rw [if_neg same] at left_
            change other ∉ t.active ∧ Finalizing ((t.show_ id job).shown other)
            rw [Idle.show_shown_of_ne t job same]
            exact settled.outputs other left_
        · intro holds other queued
          by_cases same : other = id
          · rw [same]
            exact fresh
          · change Queued ((t.show_ id job).shown other) at queued
            rw [Idle.show_shown_of_ne t job same] at queued
            exact settled.queued holds other queued

end

end

theorem wp_managed {ε : Type} (op : ManagerOp) (Q : Except ε op.Answer → Idle → Prop) :
    wp Idle.spec (manage (perform op)) Q view ↔
      Idle.spec.requires (.managed op) view ∧
        ∀ answer t, Idle.spec.ensures (.managed op) view answer t → Q (.ok answer) t := Iff.rfl

/-- A new job has an identifier the manager does not know. -/
theorem create_keeps (download : NewDownload) (settled : view.Settled reliable) :
    Program.wp Idle.spec (Operation.create download).program.run
      (fun _ t => Idle.Keeps reliable view t) view := by
  change wp Idle.spec (Operation.create download).program _ _
  unfold Operation.program Core.create
  rw [wp_adapt, wp_map]
  apply wp_withServiceLock (fun _ => ⟨trivial, fun _ _ same => same⟩)
    fun _ => ⟨trivial, fun _ _ same => same⟩
  rw [wp_bind, wp_managed]
  refine ⟨trivial, ?_⟩
  intro createdAt t (same : t = view)
  rw [same, andThen_ok, wp_bind]
  refine ⟨trivial, ?_⟩
  intro row t (same : t = view)
  rw [same]
  cases row with
  | error error => exact .refl settled
  | ok job =>
    change andThen _ _ (.ok job) _
    rw [andThen_ok, wp_bind, wp_managed]
    refine ⟨trivial, ?_⟩
    intro known t answered
    obtain ⟨same, _, shown, missing⟩ := answered
    rw [same, andThen_ok]
    split
    · exact .refl settled
    rename_i unknown
    have absent : known = none := Option.not_isSome_iff_eq_none.mp unknown
    obtain ⟨idle, fresh⟩ := missing absent
    rw [wp_bind, wp_managed]
    refine ⟨⟨idle, rfl, fresh⟩, ?_⟩
    intro _ t (same : t = view.show_ job.id (some job))
    rw [same]
    refine ⟨settled.show_ fresh fun waits => ?_, rfl, rfl⟩
    obtain ⟨_, other, found, _⟩ := settled.outputs job.id waits
    rw [← shown idle, absent] at found
    cases found

theorem queueNew_settles (download : NewDownload) (engine : JobEngine)
    (settled : view.Settled reliable) :
    wp (mainTerms urls).spec (Handler.queueNew download engine)
      (fun _ t => t.Settled reliable) view := by
  unfold Handler.queueNew
  rw [wp_bind]
  apply wp_manager (R := fun _ t => Idle.Keeps reliable view t)
  · exact ⟨nofun, nofun⟩
  · exact create_keeps download settled
  rintro (error | event) t kept
  · exact kept.settled
  change wp (mainTerms urls).spec _ _ _
  split
  · apply wp_own
    intro answer u (same : u = _)
    rw [same]
    exact ⟨kept.settled.outputs, fun holds other queued => .inr (kept.settled.queued holds other queued)⟩
  · exact kept.settled

theorem captured_settles (candidate : CandidateId) (settled : view.Settled reliable) :
    wp (mainTerms urls).spec (Handler.captured candidate)
      (fun _ t => t.Settled reliable) view := by
  unfold Handler.captured
  rw [wp_bind]
  apply wp_unseen
  · trivial
  intro catalog
  rw [andThen_ok]
  split
  · exact settled
  split
  · exact settled
  rw [wp_bind]
  apply wp_ofExcept
  rename_i found _
  cases captureEngine found <;> exact settled

theorem downloadCapture_settles (wording : Wording urls) (candidate : CandidateId)
    (directory : String) (track : Option CaptureTrackChoice) (settled : view.Settled reliable) :
    wp (mainTerms urls).spec (Handler.downloadCapture wording candidate directory track)
      (fun _ t => t.Settled reliable) view := by
  unfold Handler.downloadCapture
  rw [wp_bind]
  apply wp_mono (captured_settles candidate settled)
  rintro (error | ⟨found, engine⟩) t kept
  · exact kept
  rw [andThen_ok]
  rw [wp_bind]
  apply wp_ofExcept
  cases Daemon.chosenTrack found track with
  | error error => exact kept
  | ok chosen =>
    rw [andThen_ok, wp_bind]
    apply wp_mono (queueNew_settles _ engine kept)
    rintro (error | queued) u later
    · exact later
    · exact wp_unseen trivial fun _ => later

theorem downloadRequested_settles (wording : Wording urls) (request : DownloadRequest urls)
    (settled : view.Settled reliable) :
    wp (mainTerms urls).spec (Handler.downloadRequested wording request)
      (fun _ t => t.Settled reliable) view := by
  unfold Handler.downloadRequested
  rw [wp_bind]
  apply wp_unseen
  · trivial
  intro directory
  rw [andThen_ok]
  split
  · exact settled
  rw [wp_bind]
  apply wp_ofExcept
  cases captureChoice request.candidate request.format request.filename with
  | error error => exact settled
  | ok choice =>
    rw [andThen_ok, wp_bind]
    apply wp_unseen
    · trivial
    intro jobs
    rw [andThen_ok]
    split
    · exact settled
    · exact downloadCapture_settles wording _ _ _ settled

theorem noticing_settles {handler : Handler urls Unit}
    (h : wp (mainTerms urls).spec handler (fun _ t => t.Settled reliable) view) :
    wp (mainTerms urls).spec (Handler.noticing handler) (fun _ t => t.Settled reliable)
      view := by
  change Program.wp _ (handler.run >>= _) _ _
  rw [Program.wp_bind]
  apply Program.wp_mono h
  rintro (error | done) t kept
  · exact wp_unseen trivial fun _ => kept
  · exact kept

theorem withId_settles {value : Int} {handler : DownloadId → Handler urls Unit}
    (fresh : ∀ id ∈ (Command.downloadId value).toOption, view.fresh id)
    (settled : view.Settled reliable)
    (h : ∀ id, view.fresh id → wp (mainTerms urls).spec (handler id)
      (fun _ t => t.Settled reliable) view) :
    wp (mainTerms urls).spec (Command.withId value handler)
      (fun _ t => t.Settled reliable) view := by
  unfold Command.withId
  rw [wp_bind]
  apply wp_ofExcept
  cases named : Command.downloadId value with
  | error error => exact settled
  | ok id =>
    rw [named] at fresh
    exact h id (fresh id rfl)

/-- A command leaves what it found settled; the job it names was not executed since. -/
theorem handle_settles (wording : Wording urls) (command : Command)
    (fresh : ∀ id ∈ command.target, view.fresh id) (settled : view.Settled reliable) :
    wp (mainTerms urls).spec (command.handle wording) (fun _ t => t.Settled reliable)
      view := by
  cases command with
  | create input =>
    unfold Command.handle
    rw [wp_bind]
    apply wp_ofExcept
    cases input.read urls with
    | error error => exact settled
    | ok created => exact queueNew_settles created.1 created.2 settled
  | pause value => exact withId_settles fresh settled fun _ => pause_settles settled
  | resume value => exact withId_settles fresh settled fun _ => resume_settles settled
  | retry value => exact withId_settles fresh settled fun _ => retry_settles settled
  | restart value => exact withId_settles fresh settled fun _ => restart_settles settled
  | cancel value => exact withId_settles fresh settled fun _ => cancel_settles settled
  | saveStatus value => exact withId_settles fresh settled fun _ => saveStatus_settles settled
  | downloadCapture candidate directory track =>
    exact downloadCapture_settles wording candidate directory track settled
  | captures =>
    unfold Command.handle
    rw [wp_bind]
    apply wp_unseen
    · trivial
    exact fun changed => settled

/-! ## Starting -/

/-- The operations of the running manager, as the main task sees them. -/
def Idle.managerSpec : Spec ManagerOp ManagerOp.Answer Idle where
  requires op := Idle.spec.requires (.managed op)
  ensures op := Idle.spec.ensures (.managed op)

theorem wp_managerSpec {p : Program ManagerOp ManagerOp.Answer α} {Q : α → Idle → Prop}
    {view : Idle} (h : Program.wp Idle.managerSpec p Q view) :
    Program.wp Idle.spec (managed p) Q view := by
  induction p generalizing view with
  | done value => exact h
  | step op next ih => exact ⟨h.1, fun answer t answered => ih answer (h.2 answer t answered)⟩

/-- No worker runs, and nothing was executed yet. -/
structure Idle.Alone (view : Idle) : Prop where
  active : view.active = []
  fresh : ∀ id, view.fresh id

theorem commitJob_safe {candidate : DownloadJob}
    {Q : Except RepositoryError DownloadJob → Idle → Prop} {view : Idle} (alone : view.Alone)
    (h : ∀ result t, t.Alone → Q result t) :
    wp Idle.managerSpec (commitJob candidate) Q view := by
  have unlocked : ∀ (result : Except RepositoryError DownloadJob) (t : Idle), t.Alone →
      Idle.managerSpec.requires .unlockWrites t ∧
        ∀ v, Idle.managerSpec.ensures .unlockWrites t () v → Q result v := by
    intro result t still
    refine ⟨trivial, ?_⟩
    intro v (same : v = t)
    rw [same]
    exact h result t still
  unfold commitJob
  rw [wp_withWriteLock]
  refine ⟨trivial, ?_⟩
  intro locked (same : locked = view)
  rw [same, wp_saveJobLocked]
  refine ⟨trivial, ?_⟩
  intro answer saved stored
  obtain ⟨same, stamps⟩ := stored
  rw [same]
  refine ⟨fun error _ => unlocked _ view alone, fun persisted kept => ?_⟩
  have stamped := stamps persisted kept
  refine ⟨fun unlike => absurd stamped unlike, fun _ => ⟨⟨?_, stamped.id_eq, alone.fresh _⟩, ?_⟩⟩
  · rw [alone.active]
    exact List.not_mem_nil
  · intro t (same : t = view.show_ candidate.id (some persisted))
    rw [same]
    exact unlocked _ _ ⟨alone.active, alone.fresh⟩

theorem recoverJobs_safe {recoveredAt : OffsetDateTime} {jobs : List DownloadJob} {view : Idle}
    (alone : view.Alone) :
    wp Idle.managerSpec (recoverJobs recoveredAt jobs) (fun _ _ => True) view := by
  induction jobs generalizing view with
  | nil => trivial
  | cons job rest ih =>
    unfold recoverJobs recoverJob
    rw [wp_bind]
    rw [wp_bind, wp_orElse]
    refine ⟨fun _ _ => trivial, fun interrupted _ => ?_⟩
    rw [andThen_ok, wp_bind]
    apply commitJob_safe alone
    rintro (error | persisted) t still
    · trivial
    · exact ih still

/-- A start touches no job that a worker runs: there are none. -/
theorem start_safe (alone : view.Alone) :
    Program.wp Idle.spec Core.start.run (fun _ _ => True) view := by
  change wp Idle.spec Core.start _ _
  unfold Core.start
  rw [wp_bind]
  refine ⟨trivial, ?_⟩
  intro listed t (same : t = view)
  rw [same]
  cases listed with
  | error error => trivial
  | ok persisted =>
    change andThen _ _ (.ok persisted) _
    rw [andThen_ok]
    split
    · trivial
    rw [wp_bind]
    refine ⟨⟨alone.active, alone.fresh⟩, ?_⟩
    intro _ exposed kept
    obtain ⟨active, _, fresh⟩ := kept
    have still : exposed.Alone := ⟨active.trans alone.active, fun id => fresh ▸ alone.fresh id⟩
    change Program.wp Idle.spec (managed _) _ _
    apply wp_managerSpec
    change wp Idle.managerSpec _ _ _
    rw [wp_bind]
    refine ⟨trivial, ?_⟩
    intro recoveredAt u (same : u = exposed)
    rw [same]
    exact recoverJobs_safe still

end

end Gunda.Gundad

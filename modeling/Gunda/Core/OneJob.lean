import Gunda.Core.Calls
import Gunda.Core.Course

/-!
# Operations on one job

What a call does to the entry of its job in the manager's map, whatever other tasks do to
other entries. With reliable storage every save over a queued job succeeds; an execution
then takes its job out of the queue.
-/
namespace Gunda.Core

open Gunda.Lib
open Fallible (andThen_ok wp wp_bind wp_mono)

def Queued (shown : Option DownloadJob) : Prop := ∃ job, shown = some job ∧ job.state = .queued

def Finalizing (shown : Option DownloadJob) : Prop :=
  ∃ job, shown = some job ∧ job.state = .finalizing

/-- The entry of one job under calls on that job. -/
def oneJob (id : DownloadId) (reliable : Prop) :
    Spec ManagerOp ManagerOp.Answer (Option DownloadJob) where
  requires
    | .insert key job, _ => key = id ∧ job.id = id
    | .save candidate, _ => candidate.id = id
    | _, _ => True
  ensures
    | .job key, s, answer, t =>
        t = s ∧ (key = id → answer = s) ∧ ∀ job, answer = some job → job.id = key
    | .insert _ job, _, _, t => t = some job
    | .save candidate, s, answer, t =>
        t = s ∧ (∀ persisted, answer = .ok persisted → Stamped candidate persisted) ∧
          (reliable → Queued s → answer.isOk = true)
    | _, s, _, t => t = s

/-- A running manager performs no operation of a service. -/
def managedSpec {σ : Type} (S : Spec ManagerOp ManagerOp.Answer σ) :
    Spec ServiceOp ServiceOp.Answer σ where
  requires
    | .managed op, s => S.requires op s
    | _, _ => False
  ensures
    | .managed op, s, answer, t => S.ensures op s answer t
    | _, _, _, _ => True

theorem wp_managedSpec {σ α : Type} {S : Spec ManagerOp ManagerOp.Answer σ}
    {p : Program ManagerOp ManagerOp.Answer α} {Q : α → σ → Prop} {s : σ}
    (h : Program.wp S p Q s) : Program.wp (managedSpec S) (managed p) Q s := by
  induction p generalizing s with
  | done value => exact h
  | step op next ih => exact ⟨h.1, fun answer t answered => ih answer (h.2 answer t answered)⟩

/-- What neither shows nor saves a job leaves the entry alone. -/
def ManagerOp.Plain : ManagerOp → Prop
  | .job _ | .save _ | .insert _ _ => False
  | _ => True

/-- A published output whose record could not be saved. -/
def DownloadManagerError.Unpersisted : DownloadManagerError → Prop
  | .completionNotPersisted _ _ _ _ _ => True
  | _ => False

def Unpersisted {α : Type} : Except DownloadManagerError α → Prop
  | .error error => error.Unpersisted
  | .ok _ => False

section Parts

variable {id : DownloadId} {reliable : Prop} {ε α : Type}
variable {s : Option DownloadJob} {candidate job : DownloadJob} {totalIsEstimated : Bool}
    {prepared : PreparedTransfer}

theorem ask_one {op : ManagerOp} {Q : Except ε op.Answer → Option DownloadJob → Prop}
    (plain : op.Plain) (h : ∀ answer, Q (.ok answer) s) :
    wp (oneJob id reliable) (perform op) Q s := by
  rw [wp_perform]
  cases op with
  | job _ | save _ | insert _ _ => exact plain.elim
  | _ =>
    refine ⟨trivial, ?_⟩
    rintro answer t rfl
    exact h answer

theorem job_one {Q : Except ε (Option DownloadJob) → Option DownloadJob → Prop}
    (h : (∀ job, s = some job → job.id = id) → Q (.ok s) s) :
    wp (oneJob id reliable) (perform (.job id)) Q s := by
  rw [wp_perform]
  refine ⟨trivial, ?_⟩
  rintro answer t ⟨rfl, same, keyed⟩
  rw [same rfl] at keyed ⊢
  exact h keyed

variable {Q : Except RepositoryError DownloadJob → Option DownloadJob → Prop}

theorem saveJobLocked_one (key : candidate.id = id)
    (failed : ∀ error, ¬ (reliable ∧ Queued s) → Q (.error error) s)
    (saved : ∀ persisted, Stamped candidate persisted → Q (.ok persisted) (some persisted)) :
    wp (oneJob id reliable) (saveJobLocked candidate) Q s := by
  rw [wp_saveJobLocked]
  refine ⟨key, ?_⟩
  rintro answer t ⟨rfl, stamps, kept⟩
  constructor
  · rintro error rfl
    apply failed
    intro both
    cases kept both.1 both.2
  · intro persisted same
    have stamped := stamps persisted same
    refine ⟨fun unlike => absurd stamped unlike, fun _ => ⟨⟨key, ?_⟩, ?_⟩⟩
    · rw [stamped]
      exact key
    · rintro u rfl
      exact saved persisted stamped

/-- The lock shows nothing and saves nothing. -/
theorem withWriteLock_one {p : Managed ε α} {Q : Except ε α → Option DownloadJob → Prop}
    (h : wp (oneJob id reliable) p Q s) :
    wp (oneJob id reliable) (withWriteLock p) Q s := by
  rw [wp_withWriteLock]
  refine ⟨trivial, ?_⟩
  rintro t rfl
  refine Program.wp_mono h fun result u holds => ⟨trivial, ?_⟩
  rintro v rfl
  exact holds

theorem commitJob_one (key : candidate.id = id)
    (failed : ∀ error, ¬ (reliable ∧ Queued s) → Q (.error error) s)
    (saved : ∀ persisted, Stamped candidate persisted → Q (.ok persisted) (some persisted)) :
    wp (oneJob id reliable) (commitJob candidate) Q s :=
  withWriteLock_one (saveJobLocked_one key failed saved)

theorem not_queued_none : ¬ Queued none := by
  rintro ⟨_, same, _⟩
  cases same

theorem not_queued_some (h : job.state ≠ .queued) : ¬ Queued (some job) := by
  rintro ⟨other, same, state⟩
  cases same
  exact h state

theorem Stamped.state_eq {persisted : DownloadJob} (h : Stamped candidate persisted) :
    persisted.state = candidate.state := by rw [h]

theorem Stamped.id_eq {persisted : DownloadJob} (h : Stamped candidate persisted) :
    persisted.id = candidate.id := by rw [h]

/-! ## Job control -/

/-- The restart of the source is a transition of its own. -/
theorem controlled_id {command : DownloadCommandKind} {current : DownloadJob}
    {next : DownloadState} {updatedAt : OffsetDateTime}
    (h : (if command = .restart then current.restart updatedAt
      else current.transitionTo next updatedAt) = .ok candidate) : candidate.id = current.id := by
  split at h
  · exact (DownloadJob.restart_ok h).2.2
  · obtain ⟨_, rfl⟩ := DownloadJob.transitionTo_ok h
    rfl

theorem idleTarget_finalizing {command : DownloadCommandKind} (h : job.state = .finalizing) :
    idleTarget command job = none := by
  cases command <;> simp [idleTarget, h, DownloadState.canRestart]

/-- Job control that fails leaves the entry alone, and a finalizing job refuses it. -/
theorem changeIdleState_one (command : DownloadCommandKind) (s : Option DownloadJob) :
    wp (oneJob id reliable) (changeIdleState id command)
      (fun result t => match result with
        | .error error => ¬ error.Unpersisted ∧ t = s
        | .ok _ => ¬ Finalizing s) s := by
  unfold changeIdleState
  apply withWriteLock_one
  rw [wp_bind]
  apply job_one
  intro keyed
  rw [andThen_ok, wp_bind, wp_okOr]
  refine ⟨fun _ => ⟨not_false, rfl⟩, ?_⟩
  rintro current rfl
  rw [andThen_ok]
  rw [wp_bind, wp_okOr]
  refine ⟨fun _ => ⟨not_false, rfl⟩, fun next target => ?_⟩
  have other : ¬ Finalizing (some current) := by
    rintro ⟨job, same, state⟩
    cases same
    rw [idleTarget_finalizing state] at target
    cases target
  rw [andThen_ok, wp_bind]
  apply ask_one
  · trivial
  intro updatedAt
  rw [andThen_ok, wp_bind, wp_orElse]
  refine ⟨fun _ _ => ⟨not_false, rfl⟩, fun candidate moved => ?_⟩
  rw [andThen_ok, wp_bind, wp_repositoryFailure]
  apply saveJobLocked_one
  · exact (controlled_id moved).trans (keyed current rfl)
  · exact fun error _ => ⟨not_false, rfl⟩
  · exact fun persisted _ => other

/-- A record that is not confirmed leaves the entry alone. -/
theorem confirmPublishedOutput_one (output : ExecutionOutput) (s : Option DownloadJob) :
    wp (oneJob id reliable) (confirmPublishedOutput id output)
      (fun result t => match result with
        | .error _ => t = s
        | .ok _ => ¬ Queued t) s := by
  unfold confirmPublishedOutput
  rw [wp_bind]
  apply job_one
  intro keyed
  rw [andThen_ok, wp_bind, wp_okOr]
  refine ⟨fun _ => rfl, ?_⟩
  rintro job rfl
  rw [andThen_ok]
  split
  · rw [wp_bind, Fallible.wp_throw, Fallible.andThen_error]
  rw [wp_bind]
  apply ask_one
  · trivial
  intro updatedAt
  rw [andThen_ok, wp_bind, wp_orElse]
  refine ⟨fun _ _ => rfl, fun completed moved => ?_⟩
  obtain ⟨_, rfl⟩ := DownloadJob.transitionTo_ok moved
  rw [andThen_ok, wp_bind]
  apply commitJob_one
  · exact keyed job rfl
  · exact fun error _ => rfl
  · intro persisted stamped
    apply not_queued_some
    rw [stamped.state_eq]
    nofun

/-! ## Execution -/

/-- The entry of the job is the job worked on. -/
structure Entered (id : DownloadId) (reliable : Prop) (course : Course) (s : Option DownloadJob) :
    Prop where
  entry : course.job = s
  shown : course.shown = s
  keyed : ∀ job, s = some job → job.id = id
  refused : course.refused ≠ none → ¬ (reliable ∧ Queued s)

variable {course : Course}

theorem Commits.key (commits : Commits course candidate) (entered : Entered id reliable course s) :
    candidate.id = id := by
  obtain ⟨job, worked, same⟩ := commits.job (entered.shown.trans entered.entry.symm)
  exact same.trans (entered.keyed job (entered.entry.symm.trans worked))

theorem handles_one : Handles (oneJob id reliable) id (Entered id reliable) where
  ask := by
    rintro course op s entered _ _ asks
    cases op with
    | job key =>
      refine ⟨trivial, ?_⟩
      rintro answer _ ⟨rfl, same, _⟩
      obtain ⟨job, worked, named⟩ := asks
      have key_eq := named.elim (fun same => same) fun same =>
        same.trans (entered.keyed job (entered.entry.symm.trans worked))
      exact ⟨entered.entry, same key_eq, entered.keyed, entered.refused⟩
    | save | insert | lockWrites | unlockWrites => exact asks.elim
    | onProgress event row =>
      refine ⟨trivial, ?_⟩
      rintro answer _ rfl
      cases event <;> exact { entered with }
    | _ =>
      refine ⟨trivial, ?_⟩
      rintro answer _ rfl
      exact { entered with }
  commit := by
    rintro course candidate s entered _ goes commits
    apply commitJob_one (commits.key entered)
    · exact fun error unreliable => { entered with refused := fun _ => unreliable }
    · intro persisted stamped
      refine ⟨stamped, rfl, rfl, ?_, fun refused => absurd goes.1 refused⟩
      rintro _ ⟨⟩
      rw [stamped]
      exact commits.key entered

theorem Entered.working {state : DownloadState} (entered : Entered id reliable course s)
    (works : course.Works state job) (left_ : state ≠ .queued) : ¬ Queued s := by
  rw [← entered.entry, works.1]
  exact not_queued_some (works.2 ▸ left_)

/-- A fault leaves the job queued only where a save over a queued job may fail. -/
theorem Faults.queued {error : DownloadManagerError} (faults : Faults id course error)
    (entered : Entered id reliable course s) (sensible : course.Sensible) (queued : Queued s) :
    ¬ reliable := by
  have saved : course.persisted = true → ¬ reliable := by
    intro persisted
    obtain ⟨job, shown, state⟩ := queued
    exact absurd state (sensible.begun persisted job (entered.entry.trans shown))
  have working : ∀ {state row}, course.Works state row → state ≠ .queued → ¬ reliable :=
    fun works left_ => absurd queued (entered.working works left_)
  cases faults with
  | missing lost =>
    rw [← entered.shown, lost] at queued
    exact absurd queued not_queued_none
  | unqueued worked _ busy =>
    rw [← entered.entry, worked] at queued
    exact absurd queued (not_queued_some busy)
  | refused refused => exact fun holds => entered.refused (by simp [refused]) ⟨holds, queued⟩
  | dropped dropped => exact saved (sensible.prepared (by simp [dropped]))
  | beyond given => exact saved (sensible.prepared (by simp [given]))
  | unrequested ran => exact saved (sensible.saved (by simp [ran]))
  | miscounted transferred => exact working transferred.works nofun
  | rewound transferred => exact working transferred.works nofun
  | misfinished transferred => exact working transferred.works nofun
  | misstopped transferred => exact working transferred.works nofun
  | unfailing fails =>
    cases fails with
    | prepare works => exact working works nofun
    | transfer works => exact working works nofun
    | publish works => exact working works nofun
  | inconsistent _ works => exact working works nofun
  | unconfirmed _ works => exact working works nofun

/-- An execution leaves its job queued only where storage is not reliable. -/
theorem executeInner_one (s : Option DownloadJob) :
    wp (oneJob id reliable) (executeInner id)
      (fun result t => (Queued t → ¬ reliable) ∧ (Unpersisted result → Finalizing t)) s := by
  refine wp_mono (executeInner_course handles_one trivial ?_) ?_
  · rintro found _ ⟨rfl, same, keyed⟩
    rw [same rfl] at keyed ⊢
    exact ⟨rfl, rfl, keyed, absurd rfl⟩
  · rintro result t ⟨course, entered, sensible, results⟩
    cases results with
    | stopped works => exact ⟨fun queued => absurd queued
        (entered.working works (stopState_ne nofun nofun)), False.elim⟩
    | failed works => exact ⟨fun queued => absurd queued (entered.working works nofun), False.elim⟩
    | completed works =>
      exact ⟨fun queued => absurd queued (entered.working works nofun), False.elim⟩
    | fault faults =>
      refine ⟨faults.queued entered sensible, fun unpersisted => ?_⟩
      have finalizing : ∀ {row}, course.Works .finalizing row → Finalizing t := fun works =>
        ⟨_, entered.entry.symm.trans works.1, works.2⟩
      cases faults with
      | inconsistent _ works => exact finalizing works
      | unconfirmed _ works => exact finalizing works
      | _ => exact unpersisted.elim

end Parts

end Gunda.Core

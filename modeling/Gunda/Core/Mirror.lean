import Gunda.Core.Course
import Gunda.Core.Serialized
import Gunda.Core.Service

/-!
# Memory mirrors storage

Between two operations the manager's map is exactly the table of persisted rows, and
an event is returned or observed only when the rows already show its change. Every
part of an operation keeps `Tracks`: each row is the newest one saved or the one
the operation began with.
-/
namespace Gunda.Core

open Gunda.Lib
open Fallible (andThen andThen_ok wp wp_adapt wp_bind wp_map wp_mono)

/-- The rows show what an event announces. -/
def Announced (rows : DownloadId → Option DownloadJob) : DownloadEvent → Prop
  | .created id => ∃ job, rows id = some job ∧ job.state = .queued
  | .stateChanged id _ current => ∃ job, rows id = some job ∧ job.state = current
  | .progressChanged id progress => ∃ job, rows id = some job ∧ job.progress = progress
  | .completed id destination =>
      ∃ job, rows id = some job ∧ job.state = .completed ∧
        job.resolvedDestination = some destination
  | .failed id failure =>
      ∃ job, rows id = some job ∧ job.state = .failed ∧ job.lastFailure = some failure
  | .removed id => rows id = none

/-- An observer is told only of what is persisted. -/
def Persisted (op : ManagerOp) (world : World) : Prop :=
  match op with
  | .onProgress event job => world.rows job.id = some job ∧ Announced world.rows event
  | _ => True

def ServicePersisted (op : ServiceOp) (served : ServedWorld) : Prop :=
  match op with
  | .managed op => Persisted op served.world
  | _ => True

/-- The surroundings of a manager whose operations run one after another. -/
def alone : Spec ManagerOp ManagerOp.Answer World :=
  Surroundings.spec (respond 0) Persisted

/-- What every part of an operation keeps: the map shows the rows, and each row is the
newest one saved, of a job the operation is about, or the one it began with. -/
structure Tracks (start : DownloadId → Option DownloadJob) (mine : DownloadId → Prop)
    (holder : Option Nat) (world : World) : Prop where
  holder : world.holder = holder
  shown : world.jobs = world.rows
  keyed : ∀ id job, world.rows id = some job → job.id = id
  logged : ∀ id, world.rows id = ((lastSave world.saves id).map (·.saved)).or (start id)
  saved : ∀ save ∈ world.saves, mine save.saved.id
  known : ∀ id, world.rows id = none ↔ start id = none

section Parts

variable {start : DownloadId → Option DownloadJob} {mine : DownloadId → Prop} {ε : Type}
variable {world : World} {id : DownloadId} {candidate job : DownloadJob} {estimated : Bool}
    {prepared : PreparedTransfer}

theorem ask_alone {op : ManagerOp} {Q : Except ε op.Answer → World → Prop} (asks : Asks op)
    (persisted : Persisted op world) (after : ∀ answer, Q (.ok answer) world) :
    wp alone (perform op) Q world := by
  refine ⟨persisted, ?_⟩
  rintro answer later ⟨choice, answered⟩
  rw [respond_asks asks answered]
  exact after answer

/-- An unlocked read answers what the map shows. -/
theorem job_alone {Q : Except ε (Option DownloadJob) → World → Prop}
    (after : Q (.ok (world.jobs id)) world) :
    wp alone (perform (.job id)) Q world := by
  refine ⟨trivial, ?_⟩
  rintro answer later ⟨choice, answered⟩
  cases choice <;> cases answered
  exact after

/-- The world after a row was saved and shown. -/
def World.put (world : World) (previous persisted : DownloadJob) : World :=
  { world with
    rows := upsert world.rows persisted.id persisted
    jobs := upsert world.jobs persisted.id persisted
    saves := ⟨0, previous, persisted⟩ :: world.saves }

@[simp] theorem World.put_rows_self (world : World) (previous persisted : DownloadJob) :
    (world.put previous persisted).rows persisted.id = some persisted := upsert_self _ _ _

theorem Tracks.put {holder : Option Nat} (tracks : Tracks start mine holder world)
    {previous persisted : DownloadJob} (found : world.rows persisted.id = some previous)
    (about : mine persisted.id) :
    Tracks start mine holder (world.put previous persisted) where
  holder := tracks.holder
  shown := by rw [World.put, tracks.shown]
  keyed := World.Consistent.keyed_upsert tracks.keyed rfl
  logged id := by
    by_cases same : id = persisted.id
    · subst same
      simp [World.put, lastSave]
    · have earlier := tracks.logged id
      simp only [World.put, lastSave, List.find?_cons, upsert_of_ne _ _ same]
      rw [decide_eq_false (Ne.symm same)]
      exact earlier
  saved := by
    intro save member
    cases member with
    | head => exact about
    | tail _ older => exact tracks.saved save older
  known id := by
    rw [← tracks.known id]
    by_cases same : id = persisted.id
    · subst same
      simp [found]
    · simp only [World.put, upsert_of_ne _ _ same]

theorem saveJobLocked_alone {Q : Except RepositoryError DownloadJob → World → Prop}
    (refused : ∀ error, Q (.error error) world)
    (saved : ∀ previous persisted, world.rows candidate.id = some previous →
      Stamped candidate persisted → Q (.ok persisted) (world.put previous persisted)) :
    wp alone (saveJobLocked candidate) Q world := by
  rw [wp_saveJobLocked]
  refine ⟨trivial, ?_⟩
  rintro answer later ⟨choice, answered⟩
  cases choice with
  | stored result =>
    cases result with
    | error failure =>
      cases answered
      exact ⟨fun error same => refused error, fun _ ok => nomatch ok⟩
    | ok updatedAt =>
      obtain ⟨⟨persisted, next⟩, stored, same⟩ := Option.map_eq_some_iff.mp answered
      cases same
      obtain ⟨previous, found, stamped, rfl⟩ := World.save_eq_some stored
      refine ⟨by rintro _ ⟨⟩, ?_⟩
      rintro persisted' ⟨⟩
      have consistent : Stamped candidate persisted := by
        rw [stamped]
        rfl
      refine ⟨fun inconsistent => absurd consistent inconsistent, fun _ => ⟨trivial, ?_⟩⟩
      rintro last ⟨choice, inserted⟩
      have key : persisted.id = candidate.id := by rw [stamped]
      cases choice <;> cases inserted
      have put := saved previous persisted found consistent
      rw [World.put, key] at put
      exact put
  | _ => cases answered

/-- The guard is taken and dropped around a program that neither takes nor drops it. -/
theorem withWriteLock_alone {α : Type} {p : Managed ε α} {Q : Except ε α → World → Prop}
    (free : world.holder = none) (inside : wp alone p
      (fun result later => later.holder = some 0 ∧ Q result { later with holder := none })
      { world with holder := some 0 }) :
    wp alone (withWriteLock p) Q world := by
  rw [wp_withWriteLock]
  refine ⟨trivial, ?_⟩
  rintro locked ⟨choice, answered⟩
  cases choice with
  | settled =>
    simp only [respond, if_pos free] at answered
    cases answered
    refine wp_mono inside ?_
    rintro result later ⟨held, after⟩
    refine ⟨trivial, ?_⟩
    rintro dropped ⟨choice, answered⟩
    cases choice with
    | settled =>
      simp only [respond, if_pos held] at answered
      cases answered
      exact after
    | _ => cases answered
  | _ => cases answered

theorem commitJob_alone {Q : Except RepositoryError DownloadJob → World → Prop}
    (free : world.holder = none) (refused : ∀ error, Q (.error error) world)
    (saved : ∀ previous persisted, world.rows candidate.id = some previous →
      Stamped candidate persisted → Q (.ok persisted) (world.put previous persisted)) :
    wp alone (commitJob candidate) Q world := by
  have unlocked : { { world with holder := some 0 } with holder := none } = world := by
    rw [← free]
  apply withWriteLock_alone free
  apply saveJobLocked_alone
  · intro error
    refine ⟨rfl, ?_⟩
    rw [unlocked]
    exact refused error
  · intro previous persisted found stamped
    refine ⟨rfl, ?_⟩
    have put := saved previous persisted found stamped
    rw [← unlocked] at put
    exact put

/-- The end of a part: an event it returns is one the rows show. -/
def Settled (start : DownloadId → Option DownloadJob) (mine : DownloadId → Prop)
    (result : Except ε DownloadEvent) (world : World) : Prop :=
  Tracks start mine none world ∧ ∀ event, result = .ok event → Announced world.rows event

section

variable (tracks : Tracks start mine none world)
include tracks

theorem Settled.of_error {error : ε} :
    Settled start mine (.error error) world :=
  ⟨tracks, by rintro _ ⟨⟩⟩

theorem Settled.of_ok {event : DownloadEvent} (announced : Announced world.rows event) :
    Settled start mine (.ok event : Except ε DownloadEvent) world :=
  ⟨tracks, by rintro _ ⟨⟩; exact announced⟩

omit tracks in
/-- The job a control command saves is the one it read, in the target state. -/
theorem idleTarget_moved {command : DownloadCommandKind} {current : DownloadJob}
    {next : DownloadState} {now : OffsetDateTime}
    (allowed : idleTarget command current = some next)
    (moved : (if command = .restart then current.restart now
      else current.transitionTo next now) = .ok candidate) :
    candidate.id = current.id ∧ candidate.state = next := by
  split at moved
  · rename_i restarts
    subst restarts
    obtain ⟨restartable, queued, key⟩ := DownloadJob.restart_ok moved
    simp only [idleTarget, restartable, if_true] at allowed
    cases allowed
    exact ⟨key, queued⟩
  · obtain ⟨_, rfl⟩ := DownloadJob.transitionTo_ok moved
    exact ⟨rfl, rfl⟩

theorem changeIdleState_alone {command : DownloadCommandKind} (about : mine id) :
    wp alone (changeIdleState id command) (Settled start mine) world := by
  unfold changeIdleState
  apply withWriteLock_alone tracks.holder
  have unlocked : { { world with holder := some 0 } with holder := none } = world := by
    rw [← tracks.holder]
  have failed : ∀ error : DownloadManagerError,
      Settled start mine (.error error) { { world with holder := some 0 } with holder := none } := by
    intro error
    rw [unlocked]
    exact Settled.of_error tracks
  rw [wp_bind]
  apply job_alone
  rw [andThen_ok, wp_bind, wp_okOr]
  refine ⟨fun _ => ⟨rfl, failed _⟩, fun current found => ?_⟩
  have key : current.id = id := by
    apply tracks.keyed
    rw [← tracks.shown]
    exact found
  rw [andThen_ok]
  rw [wp_bind, wp_okOr]
  refine ⟨fun _ => ⟨rfl, failed _⟩, fun next allowed => ?_⟩
  rw [andThen_ok, wp_bind]
  apply ask_alone
  · trivial
  · trivial
  intro now
  rw [andThen_ok, wp_bind, wp_orElse]
  refine ⟨fun _ _ => ⟨rfl, failed _⟩, fun candidate moved => ?_⟩
  obtain ⟨same, state⟩ := idleTarget_moved allowed moved
  rw [andThen_ok, wp_bind, wp_repositoryFailure]
  apply saveJobLocked_alone
  · exact fun error => ⟨rfl, failed _⟩
  · intro previous persisted replaced stamped
    have unchanged : persisted.id = candidate.id := by rw [stamped]
    have named : persisted.id = id := by rw [unchanged, same, key]
    rw [← unchanged] at replaced
    refine ⟨rfl, ?_⟩
    change Settled start mine (.ok (.stateChanged id current.state next))
      (World.put { { world with holder := some 0 } with holder := none } previous persisted)
    rw [unlocked]
    apply Settled.of_ok
    · apply tracks.put replaced
      rw [named]
      exact about
    · refine ⟨persisted, ?_, ?_⟩
      · rw [← named]
        exact World.put_rows_self world previous persisted
      · rw [stamped]
        exact state

omit tracks in
theorem Tracks.id_of_jobs {holder : Option Nat} (tracks : Tracks start mine holder world)
    (found : world.jobs id = some job) : job.id = id := by
  apply tracks.keyed
  rw [← tracks.shown]
  exact found

theorem commitJob_tracks {Q : Except RepositoryError DownloadJob → World → Prop} (about : mine candidate.id)
    (refused : ∀ error, Q (.error error) world)
    (saved : ∀ persisted later, Stamped candidate persisted → Tracks start mine none later →
      later.rows persisted.id = some persisted → Q (.ok persisted) later) :
    wp alone (commitJob candidate) Q world := by
  apply commitJob_alone tracks.holder refused
  intro previous persisted found stamped
  have key : persisted.id = candidate.id := by rw [stamped]
  rw [← key] at found
  apply saved persisted _ stamped
  · apply tracks.put found
    rw [key]
    exact about
  · exact World.put_rows_self world previous persisted

/-- A confirmation completes the job, or fails and changes nothing. -/
def ConfirmedOr (start : DownloadId → Option DownloadJob) (mine : DownloadId → Prop)
    (before : World) (id : DownloadId) (output : ExecutionOutput)
    (result : Except RepositoryError DownloadEvent) (after : World) : Prop :=
  Settled start mine result after ∧
    ((∃ error, result = .error error ∧ after = before) ∨
      result = .ok (.completed id output.destination))

omit tracks in
theorem ConfirmedOr.of_error {before : World} {output : ExecutionOutput} {error : RepositoryError}
    (tracks : Tracks start mine none before) :
    ConfirmedOr start mine before id output (.error error) before :=
  ⟨Settled.of_error tracks, .inl ⟨error, rfl, rfl⟩⟩

theorem confirmPublishedOutput_alone {output : ExecutionOutput} (about : mine id) :
    wp alone (confirmPublishedOutput id output) (ConfirmedOr start mine world id output)
      world := by
  unfold confirmPublishedOutput
  rw [wp_bind]
  apply job_alone
  rw [andThen_ok, wp_bind, wp_okOr]
  refine ⟨fun _ => ConfirmedOr.of_error tracks, fun job found => ?_⟩
  have key := tracks.id_of_jobs found
  rw [andThen_ok]
  split
  · exact ConfirmedOr.of_error tracks
  rw [wp_bind]
  apply ask_alone
  · trivial
  · trivial
  intro now
  rw [andThen_ok, wp_bind, wp_orElse]
  refine ⟨fun _ _ => ConfirmedOr.of_error tracks, fun completed moved => ?_⟩
  obtain ⟨_, rfl⟩ := DownloadJob.transitionTo_ok moved
  rw [andThen_ok, wp_bind]
  apply commitJob_tracks tracks
  · rw [DownloadJob.resolveDestination_id, key]
    exact about
  · exact fun error => ConfirmedOr.of_error tracks
  · intro persisted later stamped tracks shown
    refine ⟨?_, .inr rfl⟩
    apply Settled.of_ok tracks
    have named : persisted.id = id := by
      rw [stamped]
      exact key
    rw [named] at shown
    refine ⟨persisted, shown, ?_, ?_⟩
    · rw [stamped]
    · rw [stamped]
      rfl

end

def inconsistentOutput : RepositoryError :=
  invalidRepositoryData "executor returned inconsistent published output"

/-- A completion that was not persisted leaves its job finalizing, with the published
count unless the executor contradicted itself. -/
def Unconfirmed (rows : DownloadId → Option DownloadJob) : DownloadManagerError → Prop
  | .completionNotPersisted id _ writtenBytes _ error =>
      ∃ row, rows id = some row ∧ row.state = .finalizing ∧
        (error ≠ inconsistentOutput → row.progress.downloadedBytes = writtenBytes)
  | _ => True

/-- An execution's report is judged by its event, a failure by what it left. -/
def Reported (start : DownloadId → Option DownloadJob) (mine : DownloadId → Prop)
    (result : Except DownloadManagerError ExecutionReport) (world : World) : Prop :=
  Settled start mine (result.map (·.event)) world ∧
    ∀ error, result = .error error → Unconfirmed world.rows error

/-- The world shows the course of an execution. -/
structure Mirrors (start : DownloadId → Option DownloadJob) (mine : DownloadId → Prop)
    (id : DownloadId) (course : Course) (world : World) : Prop where
  tracks : Tracks start mine none world
  row : course.job = world.rows id
  shown : course.shown = world.rows id

variable {course : Course}

theorem Mirrors.key (mirrors : Mirrors start mine id course world) (worked : course.job = some job) :
    job.id = id :=
  mirrors.tracks.keyed id job (mirrors.row.symm.trans worked)

/-- What is told is persisted. -/
theorem Tells.persisted {event : DownloadEvent} (tells : Tells id course event job)
    (mirrors : Mirrors start mine id course world) : Persisted (.onProgress event job) world := by
  have shown : ∀ {state}, course.Works state job →
      world.rows job.id = some job ∧ world.rows id = some job := by
    intro state works
    have found := mirrors.row.symm.trans works.1
    rw [mirrors.key works.1]
    exact ⟨found, found⟩
  cases tells with
  | downloading works => exact ⟨(shown works).1, job, (shown works).2, works.2⟩
  | finalizing works => exact ⟨(shown works).1, job, (shown works).2, works.2⟩
  | progress works named =>
    refine ⟨(shown works).1, job, ?_, rfl⟩
    rcases named with ⟨_, rfl⟩ | ⟨_, rfl⟩
    · exact (shown works).2
    · exact (shown works).1

theorem handles_alone (about : mine id) : Handles alone id (Mirrors start mine id) where
  ask := by
    rintro course op world mirrors _ _ asks
    have kept : ∀ {answer later}, alone.ensures op world answer later → Asks op → later = world :=
      fun ⟨_, answered⟩ plain => respond_asks plain answered
    cases op with
    | job key =>
      refine ⟨trivial, ?_⟩
      rintro answer later ⟨choice, answered⟩
      cases choice <;> cases answered
      obtain ⟨job, worked, named⟩ := asks
      have key_eq := named.elim (fun same => same) fun same => same.trans (mirrors.key worked)
      subst key_eq
      exact ⟨mirrors.tracks, mirrors.row, by rw [← mirrors.tracks.shown]; rfl⟩
    | onProgress event job =>
      refine ⟨Tells.persisted asks mirrors, fun answer later answered => ?_⟩
      rw [kept answered trivial]
      cases event <;> exact { mirrors with }
    | save | insert | lockWrites | unlockWrites => exact asks.elim
    | _ =>
      refine ⟨trivial, fun answer later answered => ?_⟩
      rw [kept answered trivial]
      exact { mirrors with }
  commit := by
    rintro course candidate world mirrors _ _ commits
    obtain ⟨job, worked, same⟩ := commits.job (mirrors.shown.trans mirrors.row.symm)
    have key := same.trans (mirrors.key worked)
    apply commitJob_tracks mirrors.tracks
    · rw [key]
      exact about
    · exact fun error => { mirrors with }
    · intro persisted later stamped tracks found
      have named : persisted.id = id := by
        rw [stamped]
        exact key
      rw [named] at found
      exact ⟨stamped, tracks, found.symm, found.symm⟩

/-- An execution returns what the rows show, and leaves an unrecorded completion finalizing. -/
theorem executeInner_alone (tracks : Tracks start mine none world) (about : mine id) :
    wp alone (executeInner id) (Reported start mine) world := by
  have handles : Handles alone id (Mirrors start mine id) := handles_alone about
  refine wp_mono (executeInner_course handles trivial ?_) ?_
  · rintro found later ⟨choice, answered⟩
    cases choice <;> cases answered
    rw [tracks.shown]
    exact ⟨tracks, rfl, rfl⟩
  rintro result world ⟨course, mirrors, sensible, results⟩
  have found : ∀ {state row}, course.Works state row → world.rows id = some row := fun works =>
    mirrors.row.symm.trans works.1
  cases results with
  | stopped works =>
    refine ⟨Settled.of_ok mirrors.tracks ⟨_, ?_, works.2⟩, by rintro _ ⟨⟩⟩
    rw [mirrors.key works.1]
    exact found works
  | failed works _ _ because =>
    exact ⟨Settled.of_ok mirrors.tracks ⟨_, found works, works.2, because⟩, by rintro _ ⟨⟩⟩
  | completed works _ _ placed =>
    exact ⟨Settled.of_ok mirrors.tracks ⟨_, found works, works.2, placed⟩, by rintro _ ⟨⟩⟩
  | fault faults =>
    refine ⟨Settled.of_error mirrors.tracks, ?_⟩
    rintro _ ⟨⟩
    cases faults with
    | inconsistent _ works => exact ⟨_, found works, works.2, absurd rfl⟩
    | unconfirmed published works equal =>
      obtain ⟨run, ran, ended⟩ := published.ran
      exact ⟨_, found works, works.2, fun _ =>
        (sensible.staged _ _ _ works ran ended).trans equal.symm⟩
    | _ => trivial

theorem recoverJobs_alone {recoveredAt : OffsetDateTime} {jobs : List DownloadJob}
    (tracks : Tracks start mine none world) (about : ∀ job ∈ jobs, mine job.id) :
    wp alone (recoverJobs recoveredAt jobs)
      (fun _ later => Tracks start mine none later) world := by
  induction jobs generalizing world with
  | nil => exact tracks
  | cons job rest ih =>
    unfold recoverJobs recoverJob
    rw [wp_bind]
    rw [wp_bind, wp_orElse]
    refine ⟨fun _ _ => tracks, fun interrupted moved => ?_⟩
    obtain ⟨_, rfl⟩ := DownloadJob.transitionTo_ok moved
    rw [andThen_ok, wp_bind]
    apply commitJob_tracks tracks
    · exact about job List.mem_cons_self
    · exact fun error => tracks
    intro persisted later stamped tracks shown
    exact ih tracks fun other member => about other (List.mem_cons_of_mem _ member)

end Parts

/-! ## Whole operations -/

section Operations

variable {α : Type} {served : ServedWorld} {id : DownloadId} {operation : Operation}
    {before : Service}

/-- The surroundings of a service. -/
def serving : Spec ServiceOp ServiceOp.Answer ServedWorld := Surroundings.spec serve ServicePersisted

theorem wp_managed (p : Program ManagerOp ManagerOp.Answer α) (Q : α → ServedWorld → Prop)
    (served : ServedWorld) :
    Program.wp alone p (fun value world => Q value { served with world := world }) served.world →
      Program.wp serving (managed p) Q served := by
  induction p generalizing served with
  | done value => exact id
  | step op next ih =>
    intro h
    refine ⟨h.1, ?_⟩
    rintro answer later ⟨choice, answered⟩
    cases choice with
    | managed choice =>
      obtain ⟨⟨given, world⟩, responded, same⟩ := Option.map_eq_some_iff.mp answered
      cases same
      exact ih given { served with world := world } (h.2 given world ⟨choice, responded⟩)
    | _ => cases answered

theorem wp_manage {ε : Type} {p : Managed ε α} {Q : Except ε α → ServedWorld → Prop}
    (h : wp alone p (fun result world => Q result { served with world := world })
      served.world) : wp serving (manage p) Q served :=
  wp_managed p.run Q served h

/-- What a service is between two operations. -/
structure Service.Sound (service : Service) : Prop where
  keyed : ∀ id job, service.rows id = some job → job.id = id
  listed : ∀ id, service.rows id = none ↔ id ∉ service.ids
  mirrored : service.running = true → service.jobs = service.rows

/-- The jobs an operation may save. -/
def Operation.about : Operation → DownloadId → Prop
  | .start, _ => True
  | .create _, _ => False
  | .pause id, other | .resume id, other | .cancel id, other | .retry id, other
  | .restart id, other | .execute id, other | .confirmPublishedOutput id _, other => other = id

/-- What an operation did between two services: the map shows the rows again; a failed
operation leaves each of its jobs at the newest row it saved and every other job alone;
and the rows show a returned event. -/
structure Operation.Effect (operation : Operation) (before after : Service) (outcome : Outcome) :
    Prop where
  mirrored : after.running = true → after.jobs = after.rows
  failed : ∀ error, outcome.result = .error error → ∀ id,
    after.rows id = ((lastSave outcome.saves id).map (·.saved)).or (before.rows id) ∧
      (¬ operation.about id → after.rows id = before.rows id)
  announced : ∀ event, outcome.result = .ok (some event) → Announced after.rows event

/-- The end of an operation, as the next one needs it. -/
def Ends (operation : Operation) (before : Service)
    (result : Except OperationError (Option DownloadEvent)) (served : ServedWorld) : Prop :=
  (operation.leaves result served).Sound ∧
    operation.Effect before (operation.leaves result served) ⟨result, served.world.saves⟩

theorem Tracks.unsaved {start : DownloadId → Option DownloadJob} {mine : DownloadId → Prop}
    {holder : Option Nat} {world : World} (tracks : Tracks start mine holder world)
    (other : ¬ mine id) : world.rows id = start id := by
  have none_ : lastSave world.saves id = none := by
    unfold lastSave
    rw [List.find?_eq_none]
    intro save member same
    have about := tracks.saved save member
    rw [of_decide_eq_true same] at about
    exact other about
  rw [tracks.logged, none_]
  rfl

section

variable (sound : before.Sound)
include sound

theorem ends_of_tracks {result : Except OperationError (Option DownloadEvent)} (tracks : Tracks before.rows operation.about none served.world)
    (ids : served.ids = before.ids)
    (announced : ∀ event, result = .ok (some event) → Announced served.world.rows event) :
    Ends operation before result served := by
  refine ⟨⟨tracks.keyed, ?_, fun _ => tracks.shown⟩, fun _ => tracks.shown, ?_, announced⟩
  · intro id
    change served.world.rows id = none ↔ id ∉ served.ids
    rw [tracks.known, ids]
    exact sound.listed id
  · exact fun error _ id => ⟨tracks.logged id, tracks.unsaved⟩

/-- An operation of the running manager: what it settles, the service keeps. -/
theorem ends_of_settled {ε : Type} {result : Except ε DownloadEvent} {rename : ε → OperationError}
    {world : World} (settled : Settled before.rows operation.about result world) :
    Ends operation before ((result.map some).mapError rename)
      { before.begin with world := world } := by
  apply ends_of_tracks sound settled.1 rfl
  intro event ok
  apply settled.2
  cases result with
  | error e => cases ok
  | ok found =>
    cases ok
    rfl

theorem tracks_begin (running : before.running = true)
    (mine : DownloadId → Prop) : Tracks before.rows mine none before.begin.world where
  holder := rfl
  shown := sound.mirrored running
  keyed := sound.keyed
  logged _ := rfl
  saved _ member := absurd member List.not_mem_nil
  known _ := Iff.rfl

omit sound in
/-- The loaded map shows every row. -/
theorem find?_listed {rows : DownloadId → Option DownloadJob} {ids : List DownloadId}
    (keyed : ∀ id job, rows id = some job → job.id = id)
    (listed : ∀ id, rows id = none ↔ id ∉ ids) (id : DownloadId) :
    (ids.filterMap rows).find? (fun job => job.id = id) = rows id := by
  cases found : (ids.filterMap rows).find? (fun job => job.id = id) with
  | some job =>
    obtain ⟨other, _, row⟩ := List.mem_filterMap.mp (List.mem_of_find?_eq_some found)
    have key : job.id = id := by simpa using List.find?_some found
    rw [keyed other job row] at key
    rw [← key]
    exact row.symm
  | none =>
    cases row : rows id with
    | none => rfl
    | some job =>
      have member : id ∈ ids := by
        by_contra absent
        rw [(listed id).mpr absent] at row
        cases row
      have missed := List.find?_eq_none.mp found job (List.mem_filterMap.mpr ⟨id, member, row⟩)
      rw [keyed id job row] at missed
      exact absurd (decide_eq_true rfl) missed

/-- A start that did not succeed leaves no manager. -/
theorem start_failed {error : OperationError}
    (keyed : ∀ id job, served.world.rows id = some job → job.id = id)
    (known : ∀ id, served.world.rows id = none ↔ before.rows id = none)
    (logged : ∀ id, served.world.rows id =
      ((lastSave served.world.saves id).map (·.saved)).or (before.rows id))
    (ids : served.ids = before.ids) : Ends .start before (.error error) served := by
  refine ⟨⟨keyed, ?_, by rintro ⟨⟩⟩, by rintro ⟨⟩, ?_, by rintro _ ⟨⟩⟩
  · intro id
    change served.world.rows id = none ↔ id ∉ served.ids
    rw [known, ids]
    exact sound.listed id
  · exact fun _ _ id => ⟨logged id, fun other => absurd trivial other⟩

theorem start_ends :
    wp serving (Operation.program .start) (Ends .start before) before.begin := by
  have failed : ∀ error, Ends .start before (.error error) before.begin := fun error =>
    start_failed sound sound.keyed (fun _ => Iff.rfl) (fun _ => rfl) rfl
  unfold Operation.program Core.start
  rw [wp_adapt, wp_bind, wp_bind]
  refine ⟨trivial, ?_⟩
  rintro answer later ⟨choice, answered⟩
  cases choice with
  | listed failure =>
    cases failure with
    | some error =>
      cases answered
      exact failed _
    | none =>
      cases answered
      change andThen _ _ (.ok _) _
      rw [andThen_ok]
      split
      · exact failed _
      rw [wp_bind]
      refine ⟨trivial, ?_⟩
      rintro answer later ⟨choice, exposed⟩
      cases choice <;> cases exposed
      apply wp_manage
      rw [wp_bind]
      apply ask_alone
      · trivial
      · trivial
      intro recoveredAt
      have tracks : Tracks before.rows (Operation.about .start) none
          { before.begin.world with
            jobs := fun id => (before.ids.filterMap before.rows).find? (·.id = id) } :=
        { holder := rfl
          shown := funext (find?_listed sound.keyed sound.listed)
          keyed := sound.keyed
          logged := fun _ => rfl
          saved := fun _ member => absurd member List.not_mem_nil
          known := fun _ => Iff.rfl }
      refine wp_mono (recoverJobs_alone tracks fun _ _ => trivial) ?_
      rintro (error | _) world tracks
      · exact start_failed sound tracks.keyed tracks.known tracks.logged rfl
      · exact ends_of_tracks sound tracks rfl (by rintro _ ⟨⟩)
  | _ => cases answered

omit sound in
theorem withServiceLock_serving {ε : Type} {p : Served ε α} {Q : Except ε α → ServedWorld → Prop}
    (free : served.world.holder = none)
    (inside : wp serving p (fun result later => later.world.holder = some 0 ∧
        Q result { later with world.holder := none })
      { served with world.holder := some 0 }) :
    wp serving (withServiceLock p) Q served := by
  change Program.wp serving (Program.perform (ServiceOp.managed .lockWrites) >>= _) Q served
  rw [Program.wp_bind, Program.wp_perform]
  refine ⟨trivial, ?_⟩
  rintro _ locked ⟨choice, answered⟩
  cases choice with
  | managed choice =>
    obtain ⟨⟨_, world⟩, responded, same⟩ := Option.map_eq_some_iff.mp answered
    cases same
    cases choice with
    | settled =>
      simp only [respond, if_pos free] at responded
      cases responded
      rw [Program.wp_bind]
      refine Program.wp_mono inside ?_
      rintro result later ⟨held, after⟩
      rw [Program.wp_bind, Program.wp_perform]
      refine ⟨trivial, ?_⟩
      rintro _ dropped ⟨choice, answered⟩
      cases choice with
      | managed choice =>
        obtain ⟨⟨_, world⟩, responded, same⟩ := Option.map_eq_some_iff.mp answered
        cases same
        cases choice with
        | settled =>
          simp only [respond, if_pos held] at responded
          cases responded
          exact after
        | _ => cases responded
      | _ => cases answered
    | _ => cases responded
  | _ => cases answered

section

variable (running : before.running = true)
include running

/-- A created job is shown as it was persisted. -/
theorem created_ends
    {download : NewDownload} {createdAt : OffsetDateTime} (fresh : before.rows id = none) :
    Ends (.create download) before (.ok (some (.created id)))
      { world :=
          { rows := upsert before.rows id (.new id download createdAt)
            jobs := upsert before.jobs id (.new id download createdAt)
            holder := none
            saves := [] }
        ids := before.ids.orderedInsert (fun a b => a.value ≤ b.value) id } := by
  have shown : upsert before.jobs id (.new id download createdAt) =
      upsert before.rows id (.new id download createdAt) := by
    rw [sound.mirrored running]
  refine ⟨⟨?_, ?_, fun _ => shown⟩, fun _ => shown, by rintro _ ⟨⟩, ?_⟩
  · exact World.Consistent.keyed_upsert sound.keyed rfl
  · intro other
    change upsert before.rows id _ other = none ↔
      other ∉ before.ids.orderedInsert (fun a b => a.value ≤ b.value) id
    rw [List.mem_orderedInsert]
    by_cases same : other = id
    · subst same
      simp
    · rw [upsert_of_ne _ _ same, sound.listed]
      simp [same]
  · rintro _ ⟨⟩
    exact ⟨_, upsert_self _ _ _, rfl⟩

theorem create_ends (download : NewDownload) :
    wp serving (Operation.program (.create download)) (Ends (.create download) before)
      before.begin := by
  have failed : ∀ error, Ends (.create download) before (.error error) before.begin := by
    intro error
    apply ends_of_tracks sound (tracks_begin sound running _) rfl
    rintro _ ⟨⟩
  unfold Operation.program Core.create
  rw [wp_adapt, wp_map]
  apply withServiceLock_serving rfl
  rw [wp_bind]
  apply wp_manage
  apply ask_alone
  · trivial
  · trivial
  intro createdAt
  rw [andThen_ok, wp_bind]
  refine ⟨trivial, ?_⟩
  rintro answer later ⟨choice, answered⟩
  cases choice with
  | created result =>
    cases result with
    | error error =>
      cases answered
      exact ⟨rfl, failed _⟩
    | ok assigned =>
      obtain ⟨id, createdAt⟩ := assigned
      simp only [serve] at answered
      split at answered
      · rename_i fresh
        cases answered
        change andThen _ _ (.ok (DownloadJob.new id download createdAt)) _
        rw [andThen_ok, wp_bind]
        apply wp_manage
        apply job_alone
        have unknown : before.jobs id = none := by
          rw [sound.mirrored running]
          exact fresh
        rw [andThen_ok]
        split
        · rename_i known
          change (before.jobs id).isSome = true at known
          rw [unknown] at known
          cases known
        rw [wp_bind]
        apply wp_manage
        refine ⟨trivial, ?_⟩
        rintro _ world ⟨choice, inserted⟩
        cases choice <;> cases inserted
        exact ⟨rfl, created_ends sound running fresh⟩
      · cases answered
  | _ => cases answered

theorem changeIdleState_ends {command : DownloadCommandKind} (about : operation.about id) :
    wp serving (ExceptT.adapt .manager (some <$> manage (changeIdleState id command)))
      (Ends operation before) before.begin := by
  rw [wp_adapt, wp_map]
  apply wp_manage
  refine wp_mono (changeIdleState_alone (tracks_begin sound running _) about) ?_
  intro result world settled
  exact ends_of_settled sound settled

end

theorem program_ends (operation : Operation) (ready : operation.ready before = true) :
    wp serving operation.program (Ends operation before) before.begin := by
  cases operation with
  | start => exact start_ends sound
  | create download => exact create_ends sound ready download
  | pause id => exact changeIdleState_ends sound ready rfl
  | resume id => exact changeIdleState_ends sound ready rfl
  | cancel id => exact changeIdleState_ends sound ready rfl
  | retry id => exact changeIdleState_ends sound ready rfl
  | restart id => exact changeIdleState_ends sound ready rfl
  | execute id =>
    unfold Operation.program
    rw [wp_adapt, wp_bind]
    apply wp_manage
    have tracks := tracks_begin sound ready (Operation.about (.execute id))
    refine wp_mono (executeInner_alone tracks rfl) ?_
    rintro (error | report) world settled
    · exact ends_of_settled sound settled.1
    · exact ends_of_settled sound settled.1
  | confirmPublishedOutput id output =>
    unfold Operation.program
    rw [wp_adapt, wp_map]
    apply wp_manage
    have tracks := tracks_begin sound ready (Operation.about (.confirmPublishedOutput id output))
    refine wp_mono (confirmPublishedOutput_alone tracks rfl) ?_
    intro result world settled
    exact ends_of_settled sound settled.1

/-- One operation run to its end. -/
theorem Operation.run_ends {choices : List ServiceChoice} {after : Service} {outcome : Outcome} (ran : operation.run choices before = some (outcome, after)) :
    after.Sound ∧ operation.Effect before after outcome := by
  obtain ⟨result, served, ready, finished, rfl, rfl⟩ := Operation.run_some ran
  have ends := program_ends sound operation ready
  exact (Program.finish_of_wp ends finished : Ends operation before result served)

theorem Service.run_sound {history : List (Operation × List ServiceChoice)} {after : Service} (ran : Service.run history before = some after) :
    after.Sound := by
  induction history generalizing before with
  | nil =>
    cases ran
    exact sound
  | cons first rest ih =>
    obtain ⟨operation, choices⟩ := first
    obtain ⟨⟨outcome, next⟩, began, continued⟩ := Option.bind_eq_some_iff.mp ran
    exact ih (Operation.run_ends sound began).1 continued

end

theorem stored_sound (persisted : List DownloadJob) : (Service.stored persisted).Sound where
  keyed id job found := by simpa using List.find?_some found
  listed id := by
    simp [Service.stored, List.mem_dedup]
  mirrored := by rintro ⟨⟩

/-- Memory mirrors storage, after every operation of every history and whatever fails. -/
theorem memory_mirrors_storage (persisted : List DownloadJob)
    (history : List (Operation × List ServiceChoice)) (service : Service)
    (reached : Service.run history (Service.stored persisted) = some service) :
    (service.running = true → service.jobs = service.rows) ∧
      ∀ (operation : Operation) (choices : List ServiceChoice), operation.ready service = true →
        Program.Meets serve ServicePersisted operation.program.run choices service.begin ∧
        ∀ outcome after, operation.run choices service = some (outcome, after) →
          operation.Effect service after outcome := by
  have sound := Service.run_sound (stored_sound persisted) reached
  refine ⟨sound.mirrored, fun operation choices ready => ⟨?_, fun outcome after ran => ?_⟩⟩
  · exact Program.meets_of_wp (program_ends sound operation ready) choices
  · exact (Operation.run_ends sound ran).2

/-- A row left downloading by a process that ended. -/
def strandedJob : DownloadJob where
  id := ⟨1, Int.one_pos⟩
  request := ⟨⟨"http://example.com/file".toList⟩, [], none⟩
  origin := .cli
  destination := ⟨"/downloads", none, .rename⟩
  resolvedDestination := none
  resource := none
  state := .downloading
  progress := .default
  lastFailure := none
  createdAt := 0
  updatedAt := 0

/-- A start that recovers the row, each operation answered once. -/
def recovery : List (Operation × List ServiceChoice) :=
  [(.start, [.listed none, .settled, .managed (.clock 5), .managed .settled,
    .managed (.stored (.ok 5)), .managed .settled, .managed .settled])]

theorem memory_mirrors_storage_recovered :
    ∃ service, Service.run recovery (Service.stored [strandedJob]) = some service ∧
      (service.rows strandedJob.id).map (·.state) = some .interrupted ∧
      service.jobs = service.rows :=
  ⟨_, rfl, by decide, (memory_mirrors_storage [strandedJob] recovery _ rfl).1 rfl⟩

end Operations

end Gunda.Core

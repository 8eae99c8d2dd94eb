import Gunda.Core.Mirror

/-!
# Recorded executions

One execution alone with the repository's table and the manager's map, in surroundings
that keep what they did. Its course is read off the world, so a property of executions
needs only what its own part of the invariant does at each step.
-/
namespace Gunda.Core

open Gunda.Lib

/-- The transfer an execution was last given. -/
def preparedIn : ManagerTrace → Option PreparedTransfer
  | [] => none
  | ⟨.prepare _, some (.ok prepared)⟩ :: _ => some prepared
  | _ :: older => preparedIn older

/-- What a commit adds to a trace. -/
def committed (candidate persisted : DownloadJob) (older : ManagerTrace) : ManagerTrace :=
  ⟨.unlockWrites, ()⟩ :: ⟨.insert candidate.id persisted, ()⟩ ::
    ⟨.save candidate, .ok persisted⟩ :: ⟨.lockWrites, ()⟩ :: older

/-- What a failed commit adds to a trace. -/
def uncommitted (candidate : DownloadJob) (error : RepositoryError) (older : ManagerTrace) :
    ManagerTrace :=
  ⟨.unlockWrites, ()⟩ :: ⟨.save candidate, .error error⟩ :: ⟨.lockWrites, ()⟩ :: older

/-- The world while its only task holds the write lock. -/
def World.locked (world : World) : World := { world with holder := some 0 }

abbrev RecordingSurroundings : Type :=
  Surroundings ManagerOp ManagerOp.Answer Choice (World × ManagerTrace)

variable {E : RecordingSurroundings} {honoured : (op : ManagerOp) → op.Answer → ManagerTrace → Prop}
variable {requires : ManagerOp → World × ManagerTrace → Prop}
variable {id : DownloadId} {course : Course} {world : World} {older : ManagerTrace}
variable {candidate : DownloadJob}

/-- Surroundings that answer as the world does what they honour, and record it. -/
def Records (E : RecordingSurroundings)
    (honoured : (op : ManagerOp) → op.Answer → ManagerTrace → Prop) : Prop :=
  ∀ {op choice world older answer later trace},
    E op choice (world, older) = some (answer, (later, trace)) →
      respond 0 op choice world = some (answer, later) ∧ honoured op answer older ∧
        trace = ⟨op, answer⟩ :: older

/-- Nothing is required of the operations around a save. -/
structure Silent (requires : ManagerOp → World × ManagerTrace → Prop) : Prop where
  lock : ∀ point, requires .lockWrites point
  insert : ∀ key job point, requires (.insert key job) point
  unlock : ∀ point, requires .unlockWrites point

variable {Q : Except RepositoryError DownloadJob → World × ManagerTrace → Prop}

/-- A save is refused, or the row is persisted and shown. -/
theorem saveJobLocked_recorded (records : Records E honoured) (silent : Silent requires)
    (required : requires (.save candidate) (world, older))
    (refused : ∀ error, honoured (.save candidate) (.error error) older →
      Q (.error error) (world, ⟨.save candidate, .error error⟩ :: older))
    (saved : ∀ previous persisted, world.rows candidate.id = some previous →
      Stamped candidate persisted → Q (.ok persisted) (world.put previous persisted,
        ⟨.insert candidate.id persisted, ()⟩ :: ⟨.save candidate, .ok persisted⟩ :: older)) :
    Fallible.wp (E.spec requires) (saveJobLocked candidate) Q (world, older) := by
  rw [wp_saveJobLocked]
  refine ⟨required, ?_⟩
  rintro answer ⟨stored, trace⟩ ⟨choice, answered⟩
  obtain ⟨responded, honest, rfl⟩ := records answered
  cases choice with
  | stored result =>
    cases result with
    | error failure =>
      cases responded
      refine ⟨?_, fun _ ok => nomatch ok⟩
      rintro error ⟨⟩
      exact refused failure honest
    | ok updatedAt =>
      obtain ⟨⟨persisted, next⟩, put, split⟩ := Option.map_eq_some_iff.mp responded
      cases split
      obtain ⟨previous, found, stamped, rfl⟩ := World.save_eq_some put
      have consistent : Stamped candidate persisted := by
        rw [stamped]
        rfl
      refine ⟨by rintro _ ⟨⟩, ?_⟩
      rintro _ ⟨⟩
      refine ⟨fun inconsistent => absurd consistent inconsistent,
        fun _ => ⟨silent.insert _ _ _, ?_⟩⟩
      rintro ⟨inserted, trace⟩ ⟨choice, answered⟩
      obtain ⟨responded, _, rfl⟩ := records answered
      cases choice <;> cases responded
      have after := saved previous persisted found consistent
      have key : persisted.id = candidate.id := by rw [stamped]
      rw [World.put, key] at after
      exact after
  | _ => cases responded

/-- A commit is refused, or the row is persisted and shown. -/
theorem commitJob_recorded (records : Records E honoured) (silent : Silent requires)
    (free : world.holder = none)
    (required : requires (.save candidate) (world.locked, ⟨.lockWrites, ()⟩ :: older))
    (refused : ∀ error, honoured (.save candidate) (.error error) (⟨.lockWrites, ()⟩ :: older) →
      Q (.error error) (world, uncommitted candidate error older))
    (saved : ∀ previous persisted, world.rows candidate.id = some previous →
      Stamped candidate persisted →
      Q (.ok persisted) (world.put previous persisted, committed candidate persisted older)) :
    Fallible.wp (E.spec requires) (commitJob candidate) Q (world, older) := by
  have unlocked : ∀ {result later trace}, later.holder = some 0 →
      Q result ({ later with holder := none }, ⟨.unlockWrites, ()⟩ :: trace) →
      requires .unlockWrites (later, trace) ∧ ∀ point,
        (E.spec requires).ensures .unlockWrites (later, trace) () point → Q result point := by
    intro result later trace held after
    refine ⟨silent.unlock _, ?_⟩
    rintro ⟨dropped, trace⟩ ⟨choice, answered⟩
    obtain ⟨responded, _, rfl⟩ := records answered
    cases choice with
    | settled =>
      simp only [respond, if_pos held] at responded
      cases responded
      exact after
    | _ => cases responded
  have back : { world with holder := none } = world := by rw [← free]
  unfold commitJob
  rw [wp_withWriteLock]
  refine ⟨silent.lock _, ?_⟩
  rintro ⟨locked, trace⟩ ⟨choice, answered⟩
  obtain ⟨responded, _, rfl⟩ := records answered
  cases choice with
  | settled =>
    simp only [respond, if_pos free] at responded
    cases responded
    apply saveJobLocked_recorded records silent required
    · intro error honest
      apply unlocked rfl
      have after := refused error honest
      rw [← back] at after
      exact after
    · intro previous persisted found stamped
      apply unlocked rfl
      have after := saved previous persisted found stamped
      rw [← back] at after
      exact after
  | _ => cases responded

/-- The transfer this course was given. -/
def Course.given (course : Course) : Option PreparedTransfer :=
  match course.preparation with
  | some (some (.ok prepared)) => some prepared
  | _ => none

/-- The world shows the course: its job is persisted and mapped, and nobody holds the lock. -/
structure Traced (id : DownloadId) (course : Course) (point : World × ManagerTrace) : Prop where
  free : point.1.holder = none
  mirrored : point.1.jobs id = course.job
  persisted : point.1.rows id = course.job
  shown : course.shown = course.job
  before : course.before = course.replaced
  keyed : ∀ job, course.job = some job → job.id = id
  given : preparedIn point.2 = course.given

/-- An answered question leaves the world alone. -/
theorem Traced.ask {op : ManagerOp} {choice : Choice} {answer : op.Answer} {later : World}
    (traced : Traced id course (world, older)) (asks : course.Asks id op)
    (responded : respond 0 op choice world = some (answer, later)) :
    later = world ∧ Traced id (course.answered op answer) (world, ⟨op, answer⟩ :: older) := by
  obtain ⟨free, mirrored, persisted, shown, before, keyed, given⟩ := traced
  cases op with
  | job key =>
    cases choice <;> cases responded
    obtain ⟨job, worked, named⟩ := asks
    have key_eq : key = id := named.elim (fun same => same) fun same =>
      same.trans (keyed job worked)
    subst key_eq
    exact ⟨rfl, free, mirrored, persisted, mirrored, before, keyed, given⟩
  | prepare input =>
    cases choice <;> cases responded
    refine ⟨rfl, free, mirrored, persisted, shown, before, keyed, ?_⟩
    have unprepared : preparedIn older = none := by
      rw [given, Course.given, asks.1]
    cases answer with
    | none => exact unprepared
    | some result =>
      cases result with
      | error failure => exact unprepared
      | ok prepared => rfl
  | onProgress event job =>
    cases choice <;> cases responded
    cases event <;> exact ⟨rfl, free, mirrored, persisted, shown, before, keyed, given⟩
  | lockWrites | unlockWrites | save | insert => exact asks.elim
  | _ =>
    cases choice <;> cases responded
    exact ⟨rfl, free, mirrored, persisted, shown, before, keyed, given⟩

theorem Traced.saved {job persisted : DownloadJob} (traced : Traced id course (world, older))
    (worked : course.job = some job) (key : persisted.id = job.id) :
    Traced id (course.saved persisted)
      (world.put job persisted, committed candidate persisted older) := by
  have named : persisted.id = id := key.trans (traced.keyed job worked)
  subst named
  refine ⟨traced.free, upsert_self _ _ _, upsert_self _ _ _, rfl, traced.shown, ?_, traced.given⟩
  rintro _ ⟨⟩
  rfl

/-- What an invariant about recorded executions has to do at each step. -/
structure Follows (honoured : (op : ManagerOp) → op.Answer → ManagerTrace → Prop)
    (requires : ManagerOp → World × ManagerTrace → Prop) (id : DownloadId)
    (K : Course → World × ManagerTrace → Prop) : Prop where
  silent : Silent requires
  ask : ∀ {course op world older}, Traced id course (world, older) → K course (world, older) →
    course.Sensible → course.Asks id op → requires op (world, older) ∧ ∀ answer,
      honoured op answer older → K (course.answered op answer) (world, ⟨op, answer⟩ :: older)
  save : ∀ {course candidate job world older}, Traced id course (world, older) →
    K course (world, older) → course.Sensible → Commits course candidate →
    course.job = some job → candidate.id = job.id →
      requires (.save candidate) (world.locked, ⟨.lockWrites, ()⟩ :: older) ∧
      (∀ error, honoured (.save candidate) (.error error) (⟨.lockWrites, ()⟩ :: older) →
        K (course.refusing candidate) (world, uncommitted candidate error older)) ∧
      ∀ persisted, Stamped candidate persisted → K (course.saved persisted)
        (world.put job persisted, committed candidate persisted older)

variable {K : Course → World × ManagerTrace → Prop}

theorem Follows.handles (records : Records E honoured) (follows : Follows honoured requires id K) :
    Handles (E.spec requires) id fun course point => Traced id course point ∧ K course point where
  ask := by
    rintro course op ⟨world, older⟩ ⟨traced, kept⟩ sensible _ asks
    obtain ⟨required, after⟩ := follows.ask traced kept sensible asks
    refine ⟨required, ?_⟩
    rintro answer ⟨later, trace⟩ ⟨choice, answered⟩
    obtain ⟨responded, honest, rfl⟩ := records answered
    obtain ⟨rfl, traced⟩ := traced.ask asks responded
    exact ⟨traced, after answer honest⟩
  commit := by
    rintro course candidate ⟨world, older⟩ ⟨traced, kept⟩ sensible _ commits
    obtain ⟨job, worked, key⟩ := commits.job traced.shown
    obtain ⟨required, refused, saved⟩ := follows.save traced kept sensible commits worked key
    apply commitJob_recorded records follows.silent traced.free required
    · intro error honest
      exact ⟨⟨traced.free, traced.mirrored, traced.persisted, traced.shown, traced.before,
        traced.keyed, traced.given⟩, refused error honest⟩
    · intro previous persisted found stamped
      rw [key, traced.keyed job worked, traced.persisted, worked] at found
      cases found
      have same : persisted.id = job.id := by
        rw [stamped]
        exact key
      exact ⟨stamped, traced.saved worked same, saved persisted stamped⟩

/-- An execution that begins where the map shows the persisted job keeps the invariant. -/
theorem Follows.execution (records : Records E honoured)
    (follows : Follows honoured requires id K) (free : world.holder = none)
    (mirrored : world.jobs id = world.rows id)
    (keyed : ∀ job, world.rows id = some job → job.id = id)
    (required : requires (.job id) (world, []))
    (begins : K (.start (world.rows id)) (world, [⟨.job id, world.rows id⟩])) :
    Fallible.wp (E.spec requires) (executeInner id)
      (Concluded (fun course point => Traced id course point ∧ K course point) id) (world, []) := by
  apply executeInner_course (follows.handles records) required
  rintro found ⟨later, trace⟩ ⟨choice, answered⟩
  obtain ⟨responded, _, rfl⟩ := records answered
  cases choice <;> cases responded
  rw [mirrored]
  exact ⟨⟨free, mirrored, rfl, rfl, rfl, keyed, rfl⟩, begins⟩

end Gunda.Core

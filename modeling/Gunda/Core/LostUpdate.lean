import Gunda.Core.Course
import Gunda.Core.Serialized

/-!
# Lost updates

Job control keeps the discipline of `Gunda.Core.Serialized` because it decides
under the write lock. An execution decides before it takes the lock, so it keeps
the discipline exactly as long as its first save still finds the job queued.
-/
namespace Gunda.Core

open Gunda.Lib
open Gunda.Lib.Discipline (Stable Attempt)

section Rules

variable (calls : List Call) (i : Nat)

/-- A program run outside the lock. -/
def Runs {ε α : Type} (P : World → Prop) (p : Managed ε α) (Q : α → World → Prop) : Prop :=
  Attempt (discipline calls) i (Free i P) p (fun value => Free i (Q value)) (Free i Anything)

/-- An assertion that survives other calls and the lock. -/
structure Kept (P : World → Prop) : Prop where
  stable : Stable (discipline calls) i P
  unlocked : Local P

variable {calls i} {P : World → Prop}

theorem free_anything {world : World} (free : Free i P world) : Free i Anything world :=
  ⟨free.1, free.2.1, trivial⟩

theorem Runs.commitJob {candidate : DownloadJob} (kept : Kept calls i P)
    (permits : Permits calls i P candidate) :
    Runs calls i P (Core.commitJob candidate) (Saved i candidate) :=
  commitJob_attempt kept.stable kept.unlocked permits

end Rules

section Permissions

variable {calls : List Call} {i : Nat}

/-- An owner may save what follows from the job it owns. -/
theorem permits_of_owns {job candidate : DownloadJob} (same : candidate.id = job.id)
    (reached : Reached job candidate) : Permits calls i (World.Owns i job) candidate := by
  rintro world ⟨_, _, _, owns⟩ _ row found
  have row_eq : job = row := by
    have here := owns.row
    rw [← same, found] at here
    exact (Option.some.inj here).symm
  have writer : world.lastWriter candidate.id = some i := by
    rw [same]
    exact owns.writer
  subst row_eq
  exact ⟨fun _ => writer, reached, fun _ => .inr writer⟩

/-- An execution that has saved nothing may save what follows from a queued job. -/
theorem permits_of_fresh {candidate : DownloadJob} (execution : executes calls i)
    (allowed : DownloadState.queued.canTransitionTo candidate.state = true) :
    Permits calls i (Fresh i) candidate := by
  rintro world ⟨_, _, _, fresh⟩ begins row found
  have queued : row.state = .queued := begins execution fresh row found
  refine ⟨fun active => ?_, .inl ?_, fun _ => .inl queued⟩
  · unfold DownloadJob.active at active
    rw [queued] at active
    cases active
  · rw [queued]
    exact allowed

end Permissions

section Executions

variable {calls : List Call} {i : Nat} {id : DownloadId} {course : Course}

/-- An execution owns the active job it works on from its first save. -/
structure Owning (i : Nat) (id : DownloadId) (course : Course) (world : World) : Prop where
  keyed : ∀ job, course.job = some job ∨ course.shown = some job → job.id = id
  fresh : course.persisted = false → Fresh i world
  owns : course.persisted = true → ∀ job, course.job = some job → job.active →
    course.shown = some job ∧ world.Owns i job

/-- Outside the lock, an execution that goes on owns its job. -/
def Executing (i : Nat) (id : DownloadId) (course : Course) : World → Prop :=
  Free i fun world => course.refused = none → Owning i id course world

theorem kept_owning :
    Kept calls i fun world => course.refused = none → Owning i id course world where
  stable owning moved goes := by
    obtain ⟨keyed, fresh, owns⟩ := owning goes
    refine ⟨keyed, fun unsaved => stable_fresh (fresh unsaved) moved, fun saved job worked active => ?_⟩
    exact ⟨(owns saved job worked active).1, stable_owns job (owns saved job worked active).2 moved⟩
  unlocked s t rows jobs saves owning goes := by
    obtain ⟨keyed, fresh, owns⟩ := owning goes
    refine ⟨keyed, fun unsaved => local_fresh s t rows jobs saves (fresh unsaved),
      fun saved job worked active => ?_⟩
    exact ⟨(owns saved job worked active).1,
      local_owns job s t rows jobs saves (owns saved job worked active).2⟩

/-- A commit is the first over a queued job, or follows from the job the execution owns. -/
theorem Commits.permits {candidate : DownloadJob} (commits : Commits course candidate)
    (execution : executes calls i) (sensible : course.Sensible) :
    Permits calls i (Owning i id course) candidate := by
  have first : ∀ {row}, course.Works .queued row →
      DownloadState.queued.canTransitionTo candidate.state = true →
      Permits calls i (Owning i id course) candidate := by
    rintro row works allowed world ⟨consistent, held, shown, owning⟩
    have fresh := owning.fresh (Bool.eq_false_iff.mpr fun saved =>
      sensible.begun saved row works.1 works.2)
    exact permits_of_fresh execution allowed world ⟨consistent, held, shown, fresh⟩
  have later : ∀ {state row}, course.Works state row → state.requiresRecoveryAfterRestart = true →
      course.persisted = true →
      (course.shown = some row → candidate.id = row.id ∧ Reached row candidate) →
      Permits calls i (Owning i id course) candidate := by
    rintro state row works active saved follows world ⟨consistent, held, shown, owning⟩
    obtain ⟨found, owns⟩ := owning.owns saved row works.1 (works.2 ▸ active :
      row.state.requiresRecoveryAfterRestart = true)
    exact permits_of_owns (follows found).1 (follows found).2 world ⟨consistent, held, shown, owns⟩
  have moved : ∀ {state row}, course.Works state row → state.requiresRecoveryAfterRestart = true →
      course.persisted = true → state.canTransitionTo candidate.state = true →
      (course.shown = some row → candidate.id = row.id) →
      Permits calls i (Owning i id course) candidate := by
    intro state row works active saved allowed same
    exact later works active saved fun found => ⟨same found, .inl (works.2 ▸ allowed)⟩
  cases commits with
  | inspecting works => exact first works rfl
  | downloading inspected =>
    exact moved inspected.works rfl (sensible.prepared (by simp [inspected.given])) rfl fun _ => rfl
  | checkpoint transferred =>
    have saved := sensible.saved (by simp [transferred.ran])
    exact later transferred.works rfl saved fun _ =>
      ⟨rfl, .inr (.inr ⟨transferred.works.2, rfl⟩)⟩
  | finalizing transferred =>
    exact moved transferred.works rfl (sensible.saved (by simp [transferred.ran])) rfl fun _ => rfl
  | completed published works _ found =>
    have saved := sensible.saved (sensible.published (by simp [published.output]))
    refine moved works rfl saved rfl fun shown => ?_
    cases Option.some.inj (found.symm.trans shown)
    rfl
  | failed fails _ found =>
    have named : ∀ {job row : DownloadJob}, course.shown = some job → course.shown = some row →
        job.id = row.id := fun found shown =>
      congrArg DownloadJob.id (Option.some.inj (found.symm.trans shown))
    have same : ∀ {row : DownloadJob}, course.shown = some row → _ = row.id := named found
    cases fails with
    | prepare works failed => exact moved works rfl (sensible.prepared (by simp [failed])) rfl same
    | transfer works ran => exact moved works rfl (sensible.saved (by simp [ran])) rfl same
    | publish works failed =>
      exact moved works rfl (sensible.saved (sensible.published (by simp [failed]))) rfl same
  | stop stops =>
    rename_i request _ _ _
    cases stops with
    | queued works => exact first works (by cases request <;> rfl)
    | dropped works dropped =>
      exact moved works rfl (sensible.prepared (by simp [dropped])) (by cases request <;> rfl)
        fun _ => rfl
    | inspected inspected =>
      exact moved inspected.works rfl (sensible.prepared (by simp [inspected.given]))
        (by cases request <;> rfl) fun _ => rfl
    | transferred transferred =>
      exact moved transferred.works rfl (sensible.saved (by simp [transferred.ran]))
        (by cases request <;> rfl) fun _ => rfl

theorem handles_executing (execution : executes calls i) :
    Handles ((discipline calls).spec i) id (Executing i id) where
  ask := by
    rintro course op world executing _ goes asks
    have plain : Asks op := by
      cases op with
      | save | insert | lockWrites | unlockWrites => exact asks.elim
      | _ => trivial
    refine ⟨fun t moved admitted => ?_, ?_⟩
    · cases op with
      | save | insert | lockWrites | unlockWrites => exact plain.elim
      | _ => trivial
    rintro answer later ⟨t, choice, moved, _, answered⟩
    rw [respond_asks plain answered]
    obtain ⟨consistent, free, owning⟩ := stable_free kept_owning.stable executing moved
    refine ⟨consistent, free, ?_⟩
    cases op with
    | job key =>
      cases choice <;> cases answered
      intro goes
      obtain ⟨keyed, fresh, owns⟩ := owning goes
      obtain ⟨job, found, named⟩ := asks
      have key_eq : key = job.id := named.elim
        (fun same => same.trans (keyed job (.inl found)).symm) fun same => same
      refine ⟨fun row shown => ?_, fresh, fun saved row worked active =>
        ⟨?_, (owns saved row worked active).2⟩⟩
      · rcases shown with worked | shown
        · exact keyed row (.inl worked)
        · exact (consistent.keyedJobs key row shown).trans
            (key_eq.trans (keyed job (.inl found)))
      cases Option.some.inj (worked.symm.trans found)
      rw [key_eq]
      exact (owns saved job worked active).2.shown
    | onProgress event job => cases event <;> exact fun goes => { owning goes with }
    | save | insert | lockWrites | unlockWrites => exact plain.elim
    | _ => exact fun goes => { owning goes with }
  commit := by
    rintro course candidate world executing sensible goes commits
    have permits : Permits calls i
        (fun world => course.refused = none → Owning i id course world) candidate :=
      fun world ⟨consistent, held, shown, owning⟩ =>
        commits.permits execution sensible world ⟨consistent, held, shown, owning goes.1⟩
    have committed := Discipline.safe_iff_wp.mp (Runs.commitJob kept_owning permits world executing)
    refine Program.wp_mono committed fun result t after => ?_
    have here := after t ((discipline calls).rely_refl i t)
    cases result with
    | error error => exact ⟨here.1, here.2.1, nofun⟩
    | ok persisted =>
      obtain ⟨consistent, free, ⟨updatedAt, stamped⟩, owns⟩ := here
      have key : persisted.id = id := by
        obtain ⟨job, found, same⟩ := commits.named
        rw [stamped]
        exact same.trans ((executing.2.2 goes.1).keyed job found)
      refine ⟨by rw [stamped]; rfl, consistent, free, fun _ => ⟨?_, nofun, ?_⟩⟩
      · rintro _ (⟨⟨⟩⟩ | ⟨⟨⟩⟩) <;> exact key
      · rintro _ _ ⟨⟩ active
        refine ⟨rfl, owns ?_⟩
        rw [stamped] at active
        exact active

/-- An execution keeps the discipline: its first save is over a queued row, and
from then on it owns the job until it saves an inactive state. -/
theorem executeInner_runs (execution : executes calls i) (id : DownloadId) :
    Runs calls i (Fresh i) (executeInner id) (fun _ => Anything) := by
  intro world free
  rw [Discipline.safe_iff_wp]
  refine Program.wp_mono (executeInner_course (handles_executing execution) ?_ ?_) ?_
  · exact fun _ _ _ => trivial
  · rintro found later ⟨t, choice, moved, _, answered⟩
    cases choice <;> cases answered
    obtain ⟨consistent, unheld, fresh⟩ := stable_free stable_fresh free moved
    refine ⟨consistent, unheld, fun _ => ⟨fun job shown => ?_, fun _ => fresh, nofun⟩⟩
    exact consistent.keyedJobs id job (shown.elim (fun h => h) fun h => h)
  · rintro result t ⟨course, executing, _⟩ later moved
    have freed := stable_free stable_anything (free_anything executing) moved
    cases result <;> exact freed

end Executions

section JobControl

variable {calls : List Call} {i : Nat}

/-- Job control applies to jobs no execution is working on. -/
theorem idleTarget_inactive {command : DownloadCommandKind} {current : DownloadJob}
    {next : DownloadState} (accepted : idleTarget command current = some next) :
    ¬ current.active := by
  intro active
  unfold DownloadJob.active at active
  unfold idleTarget at accepted
  split at accepted
  all_goals first
    | (rename_i state; rw [state] at active; cases active)
    | (split at accepted
       · rename_i restartable
         rw [DownloadState.canRestart_eq_not_active, active] at restartable
         cases restartable
       · cases accepted)
    | cases accepted

theorem changeIdleState_runs (control : ¬ executes calls i) (id : DownloadId)
    (command : DownloadCommandKind) :
    Runs calls i Anything (changeIdleState id command) (fun _ => Anything) := by
  -- under the lock the row read stays the persisted one until the call saves
  let Reads (answer : Option DownloadJob) (world : World) : Prop := world.rows id = answer
  have localReads : ∀ answer, Local (Reads answer) := by
    intro answer s t rows _ _ reads
    exact (congrFun rows id).symm.trans reads
  have forget : ∀ {P : World → Prop} world, Held i P world → Held i Anything world :=
    fun _ held => ⟨held.1, held.2.1, held.2.2.1, trivial⟩
  have stableFailed : Stable (discipline calls) i (Held i Anything) := stable_held local_anything
  refine locked stable_anything local_anything stable_anything local_anything
    (fun _ => stable_anything) (fun _ => local_anything) ?_
  have read : Attempt (discipline calls) i (Held i Anything)
      (perform (.job id) : Managed DownloadManagerError (Option DownloadJob))
      (fun answer => Held i (Reads answer)) (Held i Anything) :=
    readJob id (stable_held local_anything) (fun answer => stable_held (localReads answer))
      fun world held => ⟨held.1, held.2.1, held.2.2.1, (congrFun held.2.2.1 id).symm⟩
  refine .bind stableFailed read fun answer => ?_
  have stable : Stable (discipline calls) i (Held i (Reads answer)) :=
    stable_held (localReads answer)
  refine .bind stableFailed (okOr_attempt stable stableFailed forget _ answer)
    fun current => .learned fun found => ?_
  subst found
  refine .bind stableFailed (okOr_attempt stable stableFailed forget _ _) fun next =>
    .learned fun accepted => ?_
  refine .bind stableFailed (ask .nowUtc trivial stable) fun updatedAt => ?_
  refine .bind stableFailed (orElse_attempt stable stableFailed forget _ _)
    fun candidate => .learned fun changed => ?_
  have reached : Reached current candidate := by
    split at changed
    · exact .inr (.inl ⟨updatedAt, changed⟩)
    · exact .of_transitionTo changed
  have same : candidate.id = current.id := by
    split at changed
    · exact (DownloadJob.restart_ok changed).2.2
    · obtain ⟨_, rfl⟩ := DownloadJob.transitionTo_ok changed
      rfl
  have permits : Permits calls i (Reads (some current)) candidate := by
    rintro world ⟨consistent, _, _, reads⟩ _ row found
    have key : candidate.id = id := same.trans (consistent.keyed id current reads)
    rw [key] at found
    cases reads.symm.trans found
    exact ⟨fun active => absurd active (idleTarget_inactive accepted), reached,
      fun execution => absurd execution control⟩
  refine .bind stableFailed (.adapt
    (fun persisted => stable_held (local_saved candidate persisted)) stableFailed
    (saveJobLocked_attempt (localReads _) permits)) fun persisted => ?_
  exact .pure stableFailed fun _ => forget _

end JobControl

section Runs

variable {calls : List Call}

theorem World.start_consistent (persisted : List DownloadJob) :
    (World.start persisted).Consistent := by
  have keyed : ∀ id job, persisted.find? (·.id = id) = some job → job.id = id := by
    intro id job found
    simpa using List.find?_some found
  exact ⟨keyed, keyed, fun _ => rfl⟩

/-- Every call of a started manager keeps the discipline. -/
theorem startCalls_safe (calls : List Call) (persisted : List DownloadJob) :
    (discipline calls).AllSafe (fun _ _ _ => True) (startCalls calls persisted) := by
  intro i program member
  unfold startCalls at member
  rw [List.getElem?_map] at member
  obtain ⟨call, found, rfl⟩ := Option.map_eq_some_iff.mp member
  have free : ∀ {P : World → Prop}, P (.start persisted) → Free i P (.start persisted) :=
    fun holds => ⟨World.start_consistent persisted, nofun, holds⟩
  have control : ∀ id command, call.isExecute = false →
      (discipline calls).Safe i (changeIdleState id command).run (fun _ _ => True)
        (.start persisted) := by
    intro id command idle
    have outside : ¬ executes calls i := by
      unfold executes
      simp [found, idle]
    exact (changeIdleState_runs outside id command _ (free (P := Anything) trivial)).mono
      fun _ _ _ => trivial
  cases call with
  | execute id =>
    have execution : executes calls i := by
      unfold executes
      simp [found, Call.isExecute]
    have fresh : Fresh i (.start persisted) := fun row member => absurd member List.not_mem_nil
    have safe := executeInner_runs execution id _ (free fresh)
    exact (safe.mono fun report t _ => fun _ _ => trivial).bind
  | pause id => exact control id .pause rfl
  | resume id => exact control id .resume rfl
  | retry id => exact control id .retry rfl
  | restart id => exact control id .restart rfl
  | cancel id => exact control id .cancel rfl

/-- What every save so far was, and that the rows are the newest saves. -/
structure Accounted (calls : List Call) (world : World) : Prop where
  latest : ∀ id row, lastSave world.saves id = some row → world.rows id = some row.saved
  reached : EachSave (fun row older =>
    Reached row.previous row.saved ∧
      ∀ earlier ∈ lastSave older row.saved.id, earlier.saved = row.previous) world.saves
  kept : EachSave (fun row older =>
    executes calls row.task → ∀ earlier ∈ lastSave older row.saved.id,
      earlier.task ≠ row.task → earlier.saved.state = .queued) world.saves

theorem Accounted.save {world after : World} {task : Nat} {candidate persisted : DownloadJob}
    {updatedAt : OffsetDateTime} (accounted : Accounted calls world)
    (permitted : Permitted calls task (.save candidate) world)
    (saved : world.save task candidate updatedAt = some (persisted, after)) :
    Accounted calls after := by
  obtain ⟨previous, found, stamped, rfl⟩ := World.save_eq_some saved
  have replaces := permitted.2.2 previous found
  have key : persisted.id = candidate.id := by rw [stamped]
  have persistedBefore : ∀ earlier ∈ lastSave world.saves candidate.id,
      earlier.saved = previous := by
    intro earlier newest
    have row := accounted.latest candidate.id earlier newest
    rw [found] at row
    exact (Option.some.inj row).symm
  refine ⟨?_, eachSave_cons ⟨?_, ?_⟩ accounted.reached, eachSave_cons ?_ accounted.kept⟩
  · intro id row newest
    by_cases same : id = candidate.id
    · subst same
      have head : lastSave (⟨task, previous, persisted⟩ :: world.saves) candidate.id =
          some ⟨task, previous, persisted⟩ := by
        simp [lastSave, key]
      rw [head] at newest
      cases newest
      exact upsert_self _ _ _
    · have tail : lastSave (⟨task, previous, persisted⟩ :: world.saves) id =
          lastSave world.saves id := by
        simp [lastSave, key, Ne.symm same]
      rw [tail] at newest
      exact (upsert_of_ne _ _ same).trans (accounted.latest id row newest)
  · rw [stamped]
    exact replaces.reached.normalized updatedAt
  · rw [key]
    exact persistedBefore
  · rw [key]
    intro execution earlier newest other
    rcases replaces.begun execution with queued | own
    · rw [persistedBefore earlier newest]
      exact queued
    · unfold World.lastWriter at own
      rw [newest] at own
      exact absurd (Option.some.inj own) other

theorem Accounted.respond {i : Nat} {op : ManagerOp} {choice : Choice} {s t : World}
    {answer : op.Answer} (permitted : Permitted calls i op s)
    (answered : Core.respond i op choice s = some (answer, t)) (accounted : Accounted calls s) :
    Accounted calls t := by
  by_cases asks : Asks op
  · rw [respond_asks asks answered]
    exact accounted
  cases op with
  | save candidate =>
    cases choice with
    | stored result =>
      cases result with
      | ok updatedAt =>
        obtain ⟨⟨persisted, next⟩, saved, same⟩ := Option.map_eq_some_iff.mp answered
        cases same
        exact accounted.save permitted saved
      | error failure =>
        cases answered
        exact accounted
    | _ => cases answered
  | insert id job =>
    cases choice <;> cases answered
    exact ⟨accounted.latest, accounted.reached, accounted.kept⟩
  | lockWrites | unlockWrites =>
    cases choice with
    | settled =>
      simp only [Core.respond] at answered
      split at answered
      · cases answered
        exact ⟨accounted.latest, accounted.reached, accounted.kept⟩
      · cases answered
    | _ => cases answered
  | _ => exact absurd trivial asks

/-- Whatever the order of the calls' operations, no update of a job is lost as
long as the first save of every execution finds its job queued. -/
theorem no_lost_update_of_beginsQueued (calls : List Call) (persisted : List DownloadJob)
    (schedule : List (Nat × Choice))
    (final : Pool ManagerOp ManagerOp.Answer (Except DownloadManagerError DownloadEvent) World)
    (ran : (startCalls calls persisted).run respond schedule = some final)
    (begins : (startCalls calls persisted).Meets respond (BeginsQueued calls) schedule) :
    NoLostUpdate calls final.state.saves := by
  have nothing : ∀ id row, lastSave [] id = some row →
      (World.start persisted).rows id = some row.saved := by
    intro id row found
    cases found
  have start : Accounted calls (World.start persisted) := ⟨nothing, eachSave_nil _, eachSave_nil _⟩
  have preserved : ∀ {i op choice s answer t}, (discipline calls).admitted i op s →
      (discipline calls).requires i op s → respond i op choice s = some (answer, t) →
      Accounted calls s → Accounted calls t :=
    fun _ permitted answered => Accounted.respond permitted answered
  obtain ⟨_, accounted⟩ :=
    Discipline.AllSafe.run preserved (startCalls_safe calls persisted) start begins ran
  refine ⟨accounted.reached, accounted.kept, ?_⟩
  intro newer second between first older split same begun again
  exact queued_between accounted.reached split same begun again

end Runs

section Interleavings

/-- A queued download of one file. -/
def sampleJob : DownloadJob :=
  .new ⟨1, Int.one_pos⟩
    ⟨⟨⟨"https://example.com/file.iso".toList⟩, [], none⟩, ⟨"downloads", none, .rename⟩, .cli⟩ 0

/-- The execution reads the job, decides and waits; then it runs up to its first
save and returns the lock. -/
def executeBegins (task : Nat) (reads saves : Bool) : List (Nat × Choice) :=
  (if reads then [(task, .settled), (task, .requested none), (task, .clock 1)] else []) ++
  (if saves then [(task, .settled), (task, .stored (.ok 3)), (task, .settled), (task, .settled)]
   else [])

/-- A whole pause: lock, read, clock, save, insertion, unlock. -/
def pauseRuns (task : Nat) : List (Nat × Choice) :=
  [(task, .settled), (task, .settled), (task, .clock 2), (task, .stored (.ok 2)),
    (task, .settled), (task, .settled)]

theorem no_lost_update_of_beginsQueued_example :
    ∃ final, (startCalls [.execute sampleJob.id, .pause sampleJob.id] [sampleJob]).run respond
      (executeBegins 0 true true ++ [(1, .settled), (1, .settled)]) = some final ∧
      NoLostUpdate [.execute sampleJob.id, .pause sampleJob.id] final.state.saves := by
  have finishes : ((startCalls [.execute sampleJob.id, .pause sampleJob.id] [sampleJob]).run respond
      (executeBegins 0 true true ++ [(1, .settled), (1, .settled)])).isSome = true := by
    decide
  obtain ⟨final, ran⟩ := Option.isSome_iff_exists.mp finishes
  exact ⟨final, ran, no_lost_update_of_beginsQueued _ _ _ final ran (by decide)⟩

/-- The newest save replaced a paused row by an inspecting one, and the second
call answered that it paused the job. -/
def overwritesPause
    (pool : Pool ManagerOp ManagerOp.Answer (Except DownloadManagerError DownloadEvent) World) :
    Bool :=
  match pool.state.saves, pool.tasks[1]? with
  | row :: _, some (Program.done (Except.ok event)) =>
      row.previous.state = .paused && row.saved.state = .inspecting &&
        event = .stateChanged sampleJob.id .queued .paused
  | _, _ => false

/-- An execution that read the job before a pause saves its inspection over the
paused row, after the pause has answered success. -/
theorem stale_execution_overwrites_pause :
    ∃ final, (startCalls [.execute sampleJob.id, .pause sampleJob.id] [sampleJob]).run respond
        (executeBegins 0 true false ++ pauseRuns 1 ++ executeBegins 0 false true) = some final ∧
      overwritesPause final = true ∧
      ¬ NoLostUpdate [.execute sampleJob.id, .pause sampleJob.id] final.state.saves := by
  have finishes : ((startCalls [.execute sampleJob.id, .pause sampleJob.id] [sampleJob]).run respond
      (executeBegins 0 true false ++ pauseRuns 1 ++ executeBegins 0 false true)).any
        overwritesPause = true := by
    decide
  obtain ⟨final, ran, overwrites⟩ := (Option.any_eq_true _ _).mp finishes
  refine ⟨final, ran, overwrites, fun kept => ?_⟩
  unfold overwritesPause at overwrites
  split at overwrites
  · rename_i row older _ saves _
    simp only [Bool.and_eq_true, decide_eq_true_eq] at overwrites
    have queued := (kept.reached [] row older saves).1.begins overwrites.1.2
    rw [overwrites.1.1] at queued
    cases queued
  · cases overwrites

end Interleavings

end Gunda.Core

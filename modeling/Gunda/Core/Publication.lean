import Gunda.Core.Mirror

/-!
# The publication boundary

What an execution may do after what it was answered, whatever the executor, the
repository, the manager's map and the control requests answer: a completed row is
saved only after a successful publication, an observed request ends the execution
before publication, and the commit to finalizing ends cancellation.
-/
namespace Gunda.Core

open Gunda.Lib
open Fallible (andThen_ok wp wp_adapt wp_bind wp_map wp_mono)

variable {service after : Service} {id : DownloadId} {choices : List ServiceChoice}
    {outcome : Outcome}

def TransferOutcome.bytes : TransferOutcome → Nat
  | .finished staged => staged.writtenBytes
  | .stopped writtenBytes => writtenBytes

/-- What an execution has been answered: the control request it was shown, the newest
persisted row, whether a commit to finalizing succeeded, its transfer, and what was
published of which staged transfer. -/
structure Observed where
  request : Option DownloadControlRequest
  saved : Option DownloadJob
  finalizing : Bool
  transfer : Option TransferRun
  published : Option (StagedTransfer × ExecutionOutput)

def Observed.absorb : Performed ManagerOp ManagerOp.Answer → Observed → Observed
  | ⟨.requestKind, answer⟩, seen => { seen with request := answer.or seen.request }
  | ⟨.save candidate, .ok persisted⟩, seen =>
      { seen with
        saved := some persisted
        finalizing := seen.finalizing || candidate.state = .finalizing }
  | ⟨.transferControlled _, run⟩, seen => { seen with transfer := some run }
  | ⟨.finalize staged, .ok output⟩, seen => { seen with published := some (staged, output) }
  | _, seen => seen

def observed (trace : ManagerTrace) : Observed :=
  trace.foldr Observed.absorb ⟨none, none, false, none, none⟩

/-- What may be performed after a trace. -/
def PublicationRule (op : ManagerOp) (older : ManagerTrace) : Prop :=
  match op with
  | .save candidate =>
      (candidate.state = .completed → ∃ run staged output,
        (observed older).transfer = some run ∧ run.result = .ok (.finished staged) ∧
        (observed older).published = some (staged, output) ∧
        output.writtenBytes = staged.writtenBytes) ∧
      (∀ request ∈ (observed older).request, candidate.state = stopState request) ∧
      ((observed older).finalizing = true →
        candidate.state ≠ .paused ∧ candidate.state ≠ .cancelled)
  | .finalize staged =>
      (observed older).request = none ∧ (observed older).finalizing = true ∧
        ∃ run, (observed older).transfer = some run ∧ run.result = .ok (.finished staged)
  | _ => True

/-- Why an observed request could not be recorded: the manager's map lost the job, the
stopped row was not persisted, or the executor's count is no progress of the saved row or
below what it reported. -/
def StopRefused (request : DownloadControlRequest) (trace : ManagerTrace) : Prop :=
  (∃ id older, trace = ⟨.job id, none⟩ :: older) ∨
  (∃ candidate answer older,
    trace = ⟨.unlockWrites, ()⟩ :: ⟨.save candidate, answer⟩ :: older ∧
    candidate.state = stopState request ∧
    ¬ ∃ persisted, answer = .ok persisted ∧ Stamped candidate persisted) ∨
  (∃ row run outcome, (observed trace).saved = some row ∧ (observed trace).transfer = some run ∧
    run.result = .ok outcome ∧
    (outcome.bytes < row.progress.downloadedBytes ∨ outcome.bytes < run.reportedBytes ∨
      ∃ total ∈ row.progress.totalBytes, total < outcome.bytes))

/-- How an execution ends: with the stop it observed, with a failure, or completed
after publication. An error after an observed request is a refused stop. -/
def Ended (id : DownloadId) (result : Except DownloadManagerError ExecutionReport)
    (trace : ManagerTrace) : Prop :=
  match result, (observed trace).request with
  | .ok report, some request =>
      ∃ previous row, report.event = .stateChanged row.id previous (stopState request) ∧
        (observed trace).saved = some row ∧ row.state = stopState request
  | .ok report, none =>
      (∃ failure row, report.event = .failed id failure ∧
        (observed trace).saved = some row ∧ row.state = .failed ∧
        row.lastFailure = some failure) ∨
      (∃ staged output row, report.event = .completed id output.destination ∧
        (observed trace).published = some (staged, output) ∧
        (observed trace).saved = some row ∧ row.state = .completed)
  | .error _, some request => StopRefused request trace
  | .error _, none => True

/-! ## The parts of an execution -/

section Parts

variable {rule : ManagerOp → ManagerTrace → Prop}
variable {trace : ManagerTrace} {candidate job : DownloadJob} {estimated rewind : Bool}
    {request : DownloadControlRequest} {staged : StagedTransfer} {prepared : PreparedTransfer}
    {transfer : Option TransferRun}

theorem ask_traced {ε : Type} {op : ManagerOp} {Q : Except ε op.Answer → ManagerTrace → Prop}
    (allowed : rule op trace) (after : ∀ answer, Q (.ok answer) (⟨op, answer⟩ :: trace)) :
    wp (Trace.spec rule) (perform op) Q trace := by
  refine ⟨allowed, ?_⟩
  rintro answer _ rfl
  exact after answer

/-- What a commit performs: the save under the lock, and the insertion of what it answered. -/
theorem commitJob_traced {Q : Except RepositoryError DownloadJob → ManagerTrace → Prop}
    (locks : ∀ older, rule .lockWrites older) (unlocks : ∀ older, rule .unlockWrites older)
    (inserts : ∀ row older, rule (.insert candidate.id row) older)
    (allowed : rule (.save candidate) (⟨.lockWrites, ()⟩ :: trace)) (refused : ∀ answer error,
      (¬ ∃ persisted, answer = .ok persisted ∧ Stamped candidate persisted) →
        Q (.error error)
          (⟨.unlockWrites, ()⟩ :: ⟨.save candidate, answer⟩ :: ⟨.lockWrites, ()⟩ :: trace))
    (saved : ∀ persisted, Stamped candidate persisted →
      Q (.ok persisted) (⟨.unlockWrites, ()⟩ :: ⟨.insert candidate.id persisted, ()⟩ ::
        ⟨.save candidate, .ok persisted⟩ :: ⟨.lockWrites, ()⟩ :: trace)) :
    wp (Trace.spec rule) (commitJob candidate) Q trace := by
  unfold commitJob
  rw [wp_withWriteLock]
  refine ⟨locks _, ?_⟩
  rintro _ rfl
  rw [wp_saveJobLocked]
  refine ⟨allowed, ?_⟩
  rintro answer _ rfl
  constructor
  · rintro error rfl
    refine ⟨unlocks _, ?_⟩
    rintro _ rfl
    exact refused _ error (by simp)
  · rintro persisted rfl
    constructor
    · intro inconsistent
      refine ⟨unlocks _, ?_⟩
      rintro _ rfl
      exact refused _ _ (by simpa using inconsistent)
    · intro stamped
      refine ⟨inserts _ _, ?_⟩
      rintro _ rfl
      refine ⟨unlocks _, ?_⟩
      rintro _ rfl
      exact saved persisted stamped

/-- A stopped count that is refused is below the saved count or above its total. -/
theorem stoppedExecutionProgress_error {bytes : Nat} {error : RepositoryError}
    (h : stoppedExecutionProgress job bytes estimated rewind = .error error) :
    bytes < job.progress.downloadedBytes ∨ ∃ total ∈ job.progress.totalBytes, total < bytes := by
  unfold stoppedExecutionProgress executionProgress at h
  split at h
  · split at h
    · left
      assumption
    · obtain ⟨invalid, failed⟩ := mapError_error h
      obtain ⟨total, member, below⟩ := DownloadProgress.new_error failed
      right
      split at member
      · cases member
        omega
      · exact ⟨total, member, below⟩
  · obtain ⟨invalid, failed⟩ := mapError_error h
    obtain ⟨total, member, below⟩ := DownloadProgress.new_error failed
    right
    split at member
    · obtain ⟨saved, known, rfl⟩ := Option.map_eq_some_iff.mp member
      omega
    · exact ⟨total, member, below⟩

/-! ## The invariant -/

/-- The trace shows the course. -/
structure Observes (course : Course) (trace : ManagerTrace) : Prop where
  transfer : (observed trace).transfer = course.run
  published : ∀ staged output, course.output = some (staged, .ok output) →
    (observed trace).published = some (staged, output)
  saved : course.persisted = true → (observed trace).saved = course.job
  finalizing : course.persisted = true → ∀ job, course.Works .finalizing job →
    (observed trace).finalizing = true
  ended : (observed trace).finalizing = true → ∀ job, course.job = some job →
    job.state = .finalizing ∨ job.state = .failed ∨ job.state = .completed

/-- The trace shows the course as far as the execution goes on; what it stops over is what
was performed last. -/
structure Bounded (course : Course) (trace : ManagerTrace) : Prop where
  request : (observed trace).request = course.request
  observes : course.refused = none → Observes course trace
  lost : course.shown = none → ∃ key older, trace = ⟨.job key, none⟩ :: older
  refused : ∀ candidate, course.refused = some candidate → ∃ answer older,
    trace = ⟨.unlockWrites, ()⟩ :: ⟨.save candidate, answer⟩ :: older ∧
      (¬ ∃ persisted, answer = .ok persisted ∧ Stamped candidate persisted) ∧
      ∀ request, course.request = some request → candidate.state = stopState request

variable {course : Course} {id : DownloadId}

theorem Bounded.of_open (goes : course.Open) (request : (observed trace).request = course.request)
    (observes : Observes course trace) : Bounded course trace :=
  ⟨request, fun _ => observes, fun lost => absurd lost goes.2,
    fun _ refused => nomatch goes.1.symm.trans refused⟩

theorem Bounded.allowed {op : ManagerOp} (bounded : Bounded course trace)
    (sensible : course.Sensible) (goes : course.Open) (asks : course.Asks id op) : PublicationRule op trace := by
  cases op with
  | finalize staged =>
    obtain ⟨_, unasked, job, run, works, ran, ended⟩ := asks
    have observes := bounded.observes goes.1
    have saved := sensible.saved (by simp [ran])
    exact ⟨bounded.request.trans unasked, observes.finalizing saved job works, run,
      observes.transfer.trans ran, ended⟩
  | save => exact asks.elim
  | _ => trivial

theorem Bounded.ask {op : ManagerOp} (answer : op.Answer) (bounded : Bounded course trace)
    (goes : course.Open) (asks : course.Asks id op) :
    Bounded (course.answered op answer) (⟨op, answer⟩ :: trace) := by
  have observes := bounded.observes goes.1
  cases op with
  | job key =>
    refine { bounded with
      observes := fun _ => { observes with }
      lost := ?_
      refused := fun _ refused => nomatch goes.1.symm.trans refused }
    rintro rfl
    exact ⟨key, trace, rfl⟩
  | requestKind =>
    refine .of_open goes ?_ { observes with }
    change answer.or (observed trace).request = answer
    rw [bounded.request, show course.request = none from asks, Option.or_none]
  | transferControlled startingBytes =>
    exact .of_open goes bounded.request { observes with transfer := rfl }
  | finalize staged =>
    cases answer with
    | error failure => exact .of_open goes bounded.request { observes with published := nofun }
    | ok output =>
      refine .of_open goes bounded.request { observes with published := ?_ }
      rintro _ _ ⟨⟩
      rfl
  | onProgress event row =>
    cases event <;> exact .of_open goes bounded.request { observes with }
  | lockWrites | unlockWrites | save | insert => exact asks.elim
  | prepare | nowUtc | setPauseSupported => exact .of_open goes bounded.request { observes with }

/-- Once finalizing, the job is never worked on in an earlier state. -/
theorem Observes.late {state : DownloadState} (observes : Observes course trace)
    (finalizing : (observed trace).finalizing = true) (works : course.Works state job) :
    state = .finalizing ∨ state = .failed ∨ state = .completed :=
  works.2 ▸ observes.ended finalizing job works.1

theorem Observes.unstopped (observes : Observes course trace)
    (finalizing : (observed trace).finalizing = true) (stops : Stops course job) : False := by
  cases stops with
  | queued works => simpa using observes.late finalizing works
  | dropped works => simpa using observes.late finalizing works
  | inspected inspected => simpa using observes.late finalizing inspected.works
  | transferred transferred => simpa using observes.late finalizing transferred.works

/-- What a request, a publication and a commit to finalizing allow a save. -/
theorem Bounded.allows (bounded : Bounded course trace) (goes : course.Open)
    (commits : Commits course candidate) :
    PublicationRule (.save candidate) (⟨.lockWrites, ()⟩ :: trace) := by
  have observes := bounded.observes goes.1
  refine ⟨fun completed => ?_, fun request asked => ?_, fun finalizing => ?_⟩
  · cases commits with
    | completed published _ equal =>
      obtain ⟨run, ran, ended⟩ := published.ran
      exact ⟨run, _, _, observes.transfer.trans ran, ended,
        observes.published _ _ published.output, equal⟩
    | stop => exact absurd completed (stopState_ne nofun nofun)
    | checkpoint transferred => exact nomatch transferred.works.2.symm.trans completed
    | _ => cases completed
  · have asked : course.request = some request := bounded.request.symm.trans asked
    cases commits with
    | stop _ _ found =>
      cases Option.some.inj (asked.symm.trans found)
      rfl
    | inspecting _ unasked => exact nomatch unasked.symm.trans asked
    | downloading _ unasked => exact nomatch unasked.symm.trans asked
    | checkpoint _ unasked => exact nomatch unasked.symm.trans asked
    | finalizing _ unasked => exact nomatch unasked.symm.trans asked
    | failed _ unasked => exact nomatch unasked.symm.trans asked
    | completed published => exact nomatch published.unasked.symm.trans asked
  · cases commits with
    | stop stops => exact (observes.unstopped finalizing stops).elim
    | checkpoint transferred =>
      rw [DownloadJob.updateProgress_state, transferred.works.2]
      exact ⟨nofun, nofun⟩
    | _ => exact ⟨nofun, nofun⟩

theorem Observes.persisted {persisted : DownloadJob} (observes : Observes course trace)
    (commits : Commits course candidate) (stamped : Stamped candidate persisted) :
    Observes (course.saved persisted) (⟨.unlockWrites, ()⟩ :: ⟨.insert candidate.id persisted, ()⟩ ::
      ⟨.save candidate, .ok persisted⟩ :: ⟨.lockWrites, ()⟩ :: trace) where
  transfer := observes.transfer
  published := observes.published
  saved _ := rfl
  finalizing _ job works := by
    obtain ⟨⟨⟩, finalizing⟩ := works
    rw [stamped] at finalizing
    change ((observed trace).finalizing || decide (candidate.state = .finalizing)) = true
    rw [decide_eq_true finalizing, Bool.or_true]
  ended finalizing job worked := by
    cases worked
    change ((observed trace).finalizing || decide (candidate.state = .finalizing)) = true at finalizing
    rw [Bool.or_eq_true, decide_eq_true_eq] at finalizing
    rw [stamped]
    rcases finalizing with before | now
    · cases commits with
      | inspecting works => simpa using observes.late before works
      | downloading inspected => simpa using observes.late before inspected.works
      | checkpoint transferred => simpa using observes.late before transferred.works
      | stop stops => exact (observes.unstopped before stops).elim
      | finalizing => exact .inl rfl
      | failed => exact .inr (.inl rfl)
      | completed => exact .inr (.inr rfl)
    · exact .inl now

theorem handles_boundary : Handles (Trace.spec PublicationRule) id Bounded where
  ask := by
    rintro course op trace bounded sensible goes asks
    refine ⟨bounded.allowed sensible goes asks, ?_⟩
    rintro answer _ rfl
    exact bounded.ask answer goes asks
  commit := by
    rintro course candidate trace bounded _ goes commits
    apply commitJob_traced (fun _ => trivial) (fun _ => trivial) (fun _ _ => trivial)
      (bounded.allows goes commits)
    · intro answer error refused
      refine ⟨?_, nofun, fun lost => absurd lost goes.2, ?_⟩
      · rcases answer with failure | row <;> exact bounded.request
      · rintro _ ⟨⟩
        refine ⟨answer, _, rfl, refused, fun request asked => ?_⟩
        exact (bounded.allows goes commits).2.1 request (bounded.request.trans asked)
    · intro persisted stamped
      exact ⟨stamped, .of_open ⟨goes.1, nofun⟩ bounded.request
        ((bounded.observes goes.1).persisted commits stamped)⟩

/-- A stop that could not be recorded is explained by its count. -/
theorem StoppedProgress.refused {run : TransferRun} {computed : Except RepositoryError DownloadProgress}
    {error : RepositoryError} (stopped : StoppedProgress prepared run job computed)
    (failed : computed = .error error) : ∃ outcome, run.result = .ok outcome ∧
      (outcome.bytes < job.progress.downloadedBytes ∨
        ∃ total ∈ job.progress.totalBytes, total < outcome.bytes) := by
  cases stopped with
  | stopped ended => exact ⟨_, ended, stoppedExecutionProgress_error failed⟩
  | finished ended => exact ⟨_, ended, stoppedExecutionProgress_error failed⟩

theorem Faults.stopRefused {error : DownloadManagerError} (faults : Faults id course error)
    (bounded : Bounded course trace) (sensible : course.Sensible)
    (asked : course.request = some request) : StopRefused request trace := by
  have saved : ∀ {job prepared run}, course.Transferred job prepared run →
      (observed trace).saved = some job ∧ (observed trace).transfer = some run := by
    intro job prepared run transferred
    have observes := bounded.observes transferred.unrefused
    have persisted := sensible.saved (by simp [transferred.ran])
    exact ⟨(observes.saved persisted).trans transferred.works.1,
      observes.transfer.trans transferred.ran⟩
  cases faults with
  | missing lost => exact .inl (bounded.lost lost)
  | refused refused =>
    obtain ⟨answer, older, split, unsaved, state⟩ := bounded.refused _ refused
    exact .inr (.inl ⟨_, answer, older, split, state request asked, unsaved⟩)
  | rewound transferred ended below =>
    obtain ⟨row, ran⟩ := saved transferred
    exact .inr (.inr ⟨_, _, _, row, ran, ended, .inr (.inl below)⟩)
  | misstopped transferred _ failed =>
    obtain ⟨row, ran⟩ := saved transferred
    obtain ⟨outcome, ended, beyond⟩ := failed.refused rfl
    exact .inr (.inr ⟨_, _, outcome, row, ran, ended, beyond.imp_right .inr⟩)
  | unqueued _ _ _ unasked => exact nomatch unasked.symm.trans asked
  | dropped _ unasked => exact nomatch unasked.symm.trans asked
  | beyond _ unasked => exact nomatch unasked.symm.trans asked
  | miscounted _ unasked => exact nomatch unasked.symm.trans asked
  | unrequested _ _ unasked => exact nomatch unasked.symm.trans asked
  | misfinished _ unasked => exact nomatch unasked.symm.trans asked
  | unfailing _ unasked => exact nomatch unasked.symm.trans asked
  | inconsistent published => exact nomatch published.unasked.symm.trans asked
  | unconfirmed published => exact nomatch published.unasked.symm.trans asked

theorem Results.ended {result : Except DownloadManagerError ExecutionReport}
    (results : Results id course result) (bounded : Bounded course trace)
    (sensible : course.Sensible) : Ended id result trace := by
  have saved : ∀ {state row}, course.Rests → course.Works state row →
      (observed trace).saved = some row := fun rests works =>
    ((bounded.observes rests.2).saved rests.1).trans works.1
  unfold Ended
  rw [bounded.request]
  cases results with
  | stopped works rests asked =>
    rw [asked]
    exact ⟨_, _, rfl, saved rests works, works.2⟩
  | failed works rests unasked because =>
    rw [unasked]
    exact .inl ⟨_, _, rfl, saved rests works, works.2, because⟩
  | completed works rests published =>
    rw [published.unasked]
    exact .inr ⟨_, _, _, rfl, (bounded.observes rests.2).published _ _ published.output,
      saved rests works, works.2⟩
  | fault faults =>
    cases asked : course.request with
    | none => trivial
    | some request => exact faults.stopRefused bounded sensible asked

theorem executeInner_boundary (id : DownloadId) :
    wp (Trace.spec PublicationRule) (executeInner id) (Ended id) [] := by
  refine wp_mono (executeInner_course handles_boundary trivial ?_) ?_
  · rintro found _ rfl
    have unfinished : (observed [⟨.job id, found⟩]).finalizing = false := rfl
    refine ⟨rfl, fun _ => ⟨rfl, ?_, nofun, nofun,
      fun finalizing => nomatch unfinished.symm.trans finalizing⟩, ?_, ?_⟩
    · rintro _ _ ⟨⟩
    · rintro rfl
      exact ⟨id, [], rfl⟩
    · rintro _ ⟨⟩
  · rintro result trace ⟨course, bounded, sensible, results⟩
    exact results.ended bounded sensible

end Parts

/-! ## Confirming a publication -/

/-- A confirmation asks the executor nothing, and saves only the completed form of a
finalizing job whose count is the published one. -/
def ConfirmRule (id : DownloadId) (output : ExecutionOutput) (op : ManagerOp)
    (older : ManagerTrace) : Prop :=
  match op with
  | .save candidate =>
      ∃ job now, ⟨.job id, some job⟩ ∈ older ∧ job.state = .finalizing ∧
        job.progress.downloadedBytes = output.writtenBytes ∧
        candidate = { job.resolveDestination output.destination now with state := .completed }
  | .requestKind | .prepare _ | .setPauseSupported _ | .transferControlled _ | .finalize _ => False
  | _ => True

theorem confirmPublishedOutput_rule (id : DownloadId) (output : ExecutionOutput) :
    wp (Trace.spec (ConfirmRule id output)) (confirmPublishedOutput id output)
      (fun _ _ => True) [] := by
  unfold confirmPublishedOutput
  rw [wp_bind]
  apply ask_traced
  · trivial
  intro found
  rw [andThen_ok, wp_bind, wp_okOr]
  refine ⟨fun _ => trivial, ?_⟩
  rintro job rfl
  rw [andThen_ok]
  split
  · trivial
  rename_i matching
  obtain ⟨finalizing, counted⟩ := not_or.mp matching
  rw [wp_bind]
  apply ask_traced
  · trivial
  intro now
  rw [andThen_ok, wp_bind, wp_orElse]
  refine ⟨fun _ _ => trivial, fun completed moved => ?_⟩
  obtain ⟨_, rfl⟩ := DownloadJob.transitionTo_ok moved
  rw [andThen_ok, wp_bind]
  apply commitJob_traced (fun _ => trivial) (fun _ => trivial) (fun _ _ => trivial)
  · refine ⟨job, now, ?_, not_not.mp finalizing, not_not.mp counted, rfl⟩
    simp
  · exact fun _ _ _ => trivial
  · exact fun _ _ => trivial

/-! ## Recovering from a failed completion save -/

/-- A published job whose completion was not persisted. -/
def Service.Awaiting (service : Service) (id : DownloadId) (writtenBytes : Nat) : Prop :=
  ∃ row, service.rows id = some row ∧ row.state = .finalizing ∧
    row.progress.downloadedBytes = writtenBytes

def Service.Completed (service : Service) (id : DownloadId) (destination : ResolvedDestination) :
    Prop :=
  ∃ row, service.rows id = some row ∧ row.state = .completed ∧
    row.resolvedDestination = some destination

theorem saveJobLocked_ends {candidate previous : DownloadJob} {world : World}
    (found : world.rows candidate.id = some previous) (at_ : OffsetDateTime) :
    Program.Ends (respond 0) (saveJobLocked candidate).run [.stored (.ok at_), .settled]
      (fun result later => result = .ok { candidate with updatedAt := at_ } ∧
        later = world.put previous { candidate with updatedAt := at_ }) world := by
  have stored : respond 0 (.save candidate) (.stored (.ok at_)) world =
      some (.ok { candidate with updatedAt := at_ },
        { world with
          rows := upsert world.rows candidate.id { candidate with updatedAt := at_ }
          saves := ⟨0, previous, { candidate with updatedAt := at_ }⟩ :: world.saves }) := by
    simp [respond, World.save, found]
  unfold saveJobLocked
  apply Program.Ends.step stored
  change Program.Ends _ (ExceptT.run (if _ then _ else _)) _ _ _
  split
  · exact absurd rfl ‹_›
  apply Program.Ends.step rfl
  exact Program.Ends.done ⟨rfl, rfl⟩

theorem commitJob_ends {candidate previous : DownloadJob} {world : World}
    (free : world.holder = none) (found : world.rows candidate.id = some previous)
    (at_ : OffsetDateTime) :
    Program.Ends (respond 0) (commitJob candidate).run
      [.settled, .stored (.ok at_), .settled, .settled]
      (fun result later => result = .ok { candidate with updatedAt := at_ } ∧
        later = world.put previous { candidate with updatedAt := at_ }) world := by
  have locked : respond 0 .lockWrites .settled world =
      some ((), { world with holder := some 0 }) := by
    simp [respond, free]
  unfold commitJob withWriteLock
  apply Program.Ends.step locked
  change Program.Ends _ ((saveJobLocked candidate).run >>= _)
    ([Choice.stored (.ok at_), .settled] ++ [.settled]) _ _
  apply Program.Ends.bind
  have kept : ({ world with holder := some 0 } : World).rows candidate.id = some previous := found
  obtain ⟨result, later, finished, rfl, rfl⟩ := saveJobLocked_ends kept at_
  refine ⟨_, _, finished, ?_⟩
  apply Program.Ends.step (show respond 0 .unlockWrites .settled _ = some ((), _) from rfl)
  refine Program.Ends.done ⟨rfl, ?_⟩
  rw [World.put, World.put, free]

/-- A program of the running manager ends as it does alone. -/
theorem managed_ends {α : Type} {p : Program ManagerOp ManagerOp.Answer α}
    {choices : List Choice} {Q : α → World → Prop} {R : α → ServedWorld → Prop}
    {served : ServedWorld} (h : Program.Ends (respond 0) p choices Q served.world)
    (weaker : ∀ value world, Q value world → R value { served with world := world }) :
    Program.Ends serve (managed p) (choices.map .managed) R served := by
  obtain ⟨value, world, finished, holds⟩ := h
  induction p generalizing choices served with
  | done other =>
    cases choices with
    | nil =>
      cases finished
      exact Program.Ends.done (weaker _ _ holds)
    | cons choice rest => cases finished
  | step op next ih =>
    cases choices with
    | nil => cases finished
    | cons choice rest =>
      obtain ⟨⟨answer, later⟩, answered, remaining⟩ := Option.bind_eq_some_iff.mp finished
      have responded : serve (.managed op) (.managed choice) served =
          some (answer, { served with world := later }) := by
        simp [serve, answered]
      apply Program.Ends.step responded
      exact ih answer weaker remaining

/-- A confirmation's answers where the repository keeps its save. -/
def keptSave (now at_ : OffsetDateTime) : List Choice :=
  [.settled, .clock now, .settled, .stored (.ok at_), .settled, .settled]

theorem confirmPublishedOutput_ends {id : DownloadId} {output : ExecutionOutput}
    {row : DownloadJob} {world : World} (free : world.holder = none)
    (shown : world.jobs id = some row) (found : world.rows row.id = some row)
    (finalizing : row.state = .finalizing)
    (counted : row.progress.downloadedBytes = output.writtenBytes) (now at_ : OffsetDateTime) :
    Program.Ends (respond 0) (confirmPublishedOutput id output).run (keptSave now at_)
      (fun result later => result = .ok (.completed id output.destination) ∧
        ∃ completed, later.rows row.id = some completed ∧ completed.state = .completed ∧
          completed.resolvedDestination = some output.destination) world := by
  have read : respond 0 (.job id) .settled world = some (some row, world) := by
    simp [respond, shown]
  unfold confirmPublishedOutput
  apply Program.Ends.step read
  change Program.Ends _ (ExceptT.run (if _ then _ else _)) _ _ _
  split
  · rename_i mismatch
    rcases mismatch with other | other
    · exact absurd finalizing other
    · exact absurd counted other
  apply Program.Ends.step rfl
  have allowed : (row.resolveDestination output.destination now).state.canTransitionTo .completed =
      true := by
    rw [DownloadJob.resolveDestination_state, finalizing]
    rfl
  have completes : (row.resolveDestination output.destination now).transitionTo .completed now =
      .ok { row.resolveDestination output.destination now with
        state := .completed, updatedAt := now } := if_pos allowed
  change Program.Ends _ (ExceptT.run (orElse _ (DownloadJob.transitionTo _ _ _) >>= _)) _ _ _
  rw [completes]
  change Program.Ends _ ((commitJob _).run >>= _)
    ([Choice.settled, .stored (.ok at_), .settled, .settled] ++ []) _ _
  apply Program.Ends.bind
  have committed := @commitJob_ends { row.resolveDestination output.destination now with
    state := .completed, updatedAt := now } row world free found at_
  obtain ⟨result, later, finished, rfl, rfl⟩ := committed
  refine ⟨_, _, finished, Program.Ends.done ⟨rfl, ?_⟩⟩
  exact ⟨_, upsert_self _ _ _, rfl, rfl⟩

/-- Any confirmation completes the job or leaves it as it was. -/
theorem confirm_or_unchanged (sound : service.Sound) {output : ExecutionOutput}
    (ran : (Operation.confirmPublishedOutput id output).run choices service = some (outcome, after)) :
    outcome.result = .ok (some (.completed id output.destination)) ∧
        after.Completed id output.destination ∨
      (∃ error, outcome.result = .error error) ∧ after.rows = service.rows ∧
        after.jobs = service.jobs := by
  have effect := (Operation.run_ends sound ran).2
  obtain ⟨result, served, ready, finished, rfl, rfl⟩ := Operation.run_some ran
  have tracks := tracks_begin sound ready fun other => other = id
  have confirmed : wp serving (Operation.program (.confirmPublishedOutput id output))
      (fun result served => (∃ error, result = .error error ∧
          served.world = service.begin.world) ∨
        result = .ok (some (.completed id output.destination))) service.begin := by
    unfold Operation.program
    rw [wp_adapt, wp_map]
    apply wp_manage
    refine wp_mono (confirmPublishedOutput_alone tracks rfl) ?_
    rintro result world ⟨_, ⟨error, rfl, rfl⟩ | rfl⟩
    · exact .inl ⟨_, rfl, rfl⟩
    · exact .inr rfl
  rcases Program.finish_of_wp confirmed finished with ⟨error, failed, unchanged⟩ | completed
  · right
    refine ⟨⟨error, failed⟩, ?_, ?_⟩
    · exact congrArg World.rows unchanged
    · exact congrArg World.jobs unchanged
  · left
    exact ⟨completed, effect.announced _ completed⟩

/-- A confirmation whose save the repository keeps completes the job. -/
theorem confirm_completes (sound : service.Sound) (running : service.running = true)
    {output : ExecutionOutput} (awaiting : service.Awaiting id output.writtenBytes)
    (now at_ : OffsetDateTime) :
    ∃ outcome after, (Operation.confirmPublishedOutput id output).run
        ((keptSave now at_).map .managed) service = some (outcome, after) ∧
      outcome.result = .ok (some (.completed id output.destination)) ∧
      after.Completed id output.destination := by
  obtain ⟨row, found, finalizing, counted⟩ := awaiting
  have key := sound.keyed id row found
  subst key
  have shown : service.jobs row.id = some row := by
    rw [sound.mirrored running]
    exact found
  have alone := @confirmPublishedOutput_ends row.id output row service.begin.world rfl shown found
    finalizing counted now at_
  have inside : Program.Ends serve (manage (confirmPublishedOutput row.id output)).run
      ((keptSave now at_).map .managed)
      (fun result served => result = .ok (.completed row.id output.destination) ∧
        ∃ completed, served.world.rows row.id = some completed ∧ completed.state = .completed ∧
          completed.resolvedDestination = some output.destination) service.begin :=
    managed_ends alone fun _ _ => id
  obtain ⟨result, served, finished, rfl, completed⟩ := inside
  have ends : Program.Ends serve (Operation.program (.confirmPublishedOutput row.id output)).run
      (((keptSave now at_).map .managed ++ []) ++ []) (fun result later =>
        result = .ok (some (.completed row.id output.destination)) ∧ later = served)
      service.begin := by
    apply Program.Ends.bind
    apply Program.Ends.bind
    exact ⟨_, _, finished, Program.Ends.done (Program.Ends.done ⟨rfl, rfl⟩)⟩
  obtain ⟨ended, later, ran, rfl, rfl⟩ := ends
  refine ⟨⟨.ok (some (.completed row.id output.destination)), later.world.saves⟩,
    Operation.leaves (.confirmPublishedOutput row.id output)
      (.ok (some (.completed row.id output.destination))) later, ?_, rfl, completed⟩
  have ready : (Operation.confirmPublishedOutput row.id output).ready service = true := running
  unfold Operation.run
  rw [if_pos ready]
  rw [List.append_nil, List.append_nil] at ran
  rw [ran]
  rfl

/-- Only a start can leave no manager. -/
theorem running_of_run {operation : Operation}
    (ran : operation.run choices service = some (outcome, after))
    (other : operation.starts = false) : after.running = true := by
  obtain ⟨result, served, _, _, rfl, rfl⟩ := Operation.run_some ran
  simp [Operation.leaves, other]

/-- What an execution leaves behind when its completion was not persisted. -/
theorem execute_awaiting (sound : service.Sound) {failed : DownloadId}
    {destination : ResolvedDestination} {writtenBytes : Nat} {cleanupPending : Bool}
    {error : RepositoryError}
    (ran : (Operation.execute id).run choices service = some (outcome, after))
    (ended : outcome.result = .error (.manager
      (.completionNotPersisted failed destination writtenBytes cleanupPending error)))
    (consistent : error ≠ inconsistentOutput) : after.Awaiting failed writtenBytes := by
  obtain ⟨result, served, ready, finished, rfl, rfl⟩ := Operation.run_some ran
  have tracks := tracks_begin sound ready fun other => other = id
  have left_ : wp serving (Operation.program (.execute id))
      (fun result served => ∀ error, result = .error (.manager error) →
        Unconfirmed served.world.rows error) service.begin := by
    unfold Operation.program
    rw [wp_adapt, wp_bind]
    apply wp_manage
    refine wp_mono (executeInner_alone tracks rfl) ?_
    rintro (e | report) world reported
    · rintro error ⟨⟩
      exact reported.2 _ rfl
    · rintro error ⟨⟩
  obtain ⟨row, found, finalizing, counted⟩ := Program.finish_of_wp left_ finished _ ended
  exact ⟨row, found, finalizing, counted consistent⟩

/-- The end of a run, where it has ended. -/
def EndedAt (id : DownloadId) (point : Program ManagerOp ManagerOp.Answer
    (Except DownloadManagerError ExecutionReport) × ManagerTrace) : Prop :=
  match point.1 with
  | .done result => Ended id result point.2
  | .step _ _ => True

/-- Every way on from an execution whose completion was not persisted: confirmations
either change nothing or complete the job, and one whose save is kept completes it. -/
def Recovers (id : DownloadId) (output : ExecutionOutput) (service : Service) : Prop :=
  service.Awaiting id output.writtenBytes ∧
    (∀ choices outcome after,
      (Operation.confirmPublishedOutput id output).run choices service = some (outcome, after) →
      outcome.result = .ok (some (.completed id output.destination)) ∧
          after.Completed id output.destination ∨
        (∃ error, outcome.result = .error error) ∧ after.rows = service.rows ∧
          after.jobs = service.jobs) ∧
    ∀ now at_, ∃ outcome after, (Operation.confirmPublishedOutput id output).run
        ((keptSave now at_).map .managed) service = some (outcome, after) ∧
      outcome.result = .ok (some (.completed id output.destination)) ∧
      after.Completed id output.destination

/-- The publication boundary, for every answer of the executor, the repository and the
control requests, wherever a run is cut off. -/
theorem publication_boundary (id : DownloadId) (output : ExecutionOutput)
    (oracle : Trace.Oracle ManagerOp ManagerOp.Answer) (n : Nat) :
    (Trace.Keeps PublicationRule (Trace.play oracle (executeInner id).run n).2 ∧
      EndedAt id (Trace.play oracle (executeInner id).run n)) ∧
    Trace.Keeps (ConfirmRule id output)
      (Trace.play oracle (confirmPublishedOutput id output).run n).2 ∧
    ∀ persisted history service choices outcome after destination writtenBytes cleanupPending error,
      Service.run history (Service.stored persisted) = some service →
      (Operation.execute id).run choices service = some (outcome, after) →
      outcome.result = .error (.manager
        (.completionNotPersisted id destination writtenBytes cleanupPending error)) →
      error ≠ inconsistentOutput →
      Recovers id ⟨destination, writtenBytes, cleanupPending⟩ after := by
  obtain ⟨kept, ended⟩ := Trace.keeps_of_wp (executeInner_boundary id) oracle n
  have confirmed := (Trace.keeps_of_wp (confirmPublishedOutput_rule id output) oracle n).1
  refine ⟨⟨kept, ?_⟩, confirmed, ?_⟩
  · unfold EndedAt
    split
    · rename_i result finished
      rw [finished] at ended
      exact ended
    · trivial
  · intro persisted history service choices outcome after destination writtenBytes cleanupPending
      error reached ran failed consistent
    have sound := Service.run_sound (stored_sound persisted) reached
    have later := (Operation.run_ends sound ran).1
    have awaiting := execute_awaiting sound ran failed consistent
    refine ⟨awaiting, fun _ _ _ => confirm_or_unchanged later, fun now at_ => ?_⟩
    exact confirm_completes later (running_of_run ran rfl) awaiting now at_

/-- A transfer of 100 bytes. -/
def hundredBytes : PreparedTransfer where
  resource := ⟨.file, none, none⟩
  totalBytes := some 100
  totalBytesIsEstimated := false
  startingBytes := 0
  supportsPause := true
  stoppedProgressMayRewind := false
  plannedDestination := ⟨"/downloads/file"⟩

/-- Surroundings of one execution: a transfer of 100 bytes, stopped by a pause with a
count beyond its total. -/
def overshoots : Trace.Oracle ManagerOp ManagerOp.Answer := fun op older =>
  match op with
  | .job _ => some { strandedJob with state := .queued }
  | .save candidate => .ok candidate
  | .lockWrites | .unlockWrites | .insert _ _ | .setPauseSupported _ | .onProgress _ _ => ()
  | .nowUtc => 0
  | .requestKind => if (observed older).transfer.isSome then some .pause else none
  | .prepare _ => some (.ok hundredBytes)
  | .transferControlled _ => ⟨[], 0, .ok (.stopped 200)⟩
  | .finalize _ => .error ⟨.internal, "not published", false⟩

/-- An observed pause need not lead to a paused job: the stopped count is no progress of
the job, which stays downloading. -/
theorem publication_boundary_overshoot :
    ((Trace.play overshoots (executeInner strandedJob.id).run 40).1 matches .done (.error _)) = true ∧
    (observed (Trace.play overshoots (executeInner strandedJob.id).run 40).2).request = some .pause ∧
    (observed (Trace.play overshoots (executeInner strandedJob.id).run 40).2).saved.map (·.state) =
      some .downloading := by
  exact ⟨rfl, rfl, rfl⟩

/-- An execution that publishes, and whose completion the repository refuses. -/
def unsavedCompletion : List Choice :=
  [.settled, .requested none, .clock 1, .settled, .stored (.ok 1), .settled, .settled,
    .prepared (some (.ok hundredBytes)), .settled, .clock 2, .requested none, .clock 2,
    .settled, .stored (.ok 2), .settled, .settled, .settled,
    .transferred ⟨[], 100, .ok (.finished ⟨100⟩)⟩, .requested none, .clock 3, .clock 3,
    .settled, .stored (.ok 3), .settled, .settled, .settled, .settled,
    .finalized (.ok ⟨⟨"/downloads/file"⟩, 100, false⟩), .settled, .clock 4,
    .settled, .stored (.error ⟨.unavailable, "disk"⟩), .settled]

theorem publication_boundary_unsaved :
    ∃ after, Recovers strandedJob.id ⟨⟨"/downloads/file"⟩, 100, false⟩ after :=
  ⟨_, (publication_boundary strandedJob.id ⟨⟨"/downloads/file"⟩, 100, false⟩
      overshoots 0).2.2
    [{ strandedJob with state := .queued }] [(.start, [.listed none, .settled, .managed (.clock 0)])]
    _ (unsavedCompletion.map .managed) _ _ _ _ _ _ rfl rfl rfl (by decide)⟩

end Gunda.Core

import Gunda.Core.Landing

/-!
# Progress of an execution

What an execution may do to the count and the total of its job from the save that enters
Downloading, and which progress it may announce. The save that enters Finalizing replaces
a total that was only estimated by the bytes that were written.
-/
namespace Gunda.Core

open Gunda.Lib
open DownloadProgress (new_ok within)

/-- One execution with a repository, an executor and control requests that answer anything,
and what they did. -/
def recorded : RecordingSurroundings := fun op choice (world, older) =>
  (respond 0 op choice world).map fun answered =>
    (answered.1, (answered.2, ⟨op, answered.1⟩ :: older))

/-- The progress the observer was told last. -/
def announcedIn : ManagerTrace → Option DownloadProgress
  | [] => none
  | ⟨.onProgress (.progressChanged _ progress) _, _⟩ :: _ => some progress
  | _ :: older => announcedIn older

/-- A save that records the stop of a transfer whose stopped count may be below the
reported one. -/
def Rewinds (prepared : PreparedTransfer) (trace : ManagerTrace) (saved : DownloadJob) : Prop :=
  prepared.stoppedProgressMayRewind = true ∧ stoppedIn trace = true ∧
    (saved.state = .paused ∨ saved.state = .cancelled)

/-- The progress of a row and of the one saved over it, while the transfer goes on. -/
structure Progresses (prepared : PreparedTransfer) (trace : ManagerTrace)
    (previous saved : DownloadJob) : Prop where
  rises : previous.progress.downloadedBytes ≤ saved.progress.downloadedBytes ∨
    Rewinds prepared trace saved
  exact : prepared.totalBytesIsEstimated = false →
    saved.progress.totalBytes = previous.progress.totalBytes
  estimated : prepared.totalBytesIsEstimated = true → saved.state ≠ .finalizing →
    ∀ total ∈ previous.progress.totalBytes, ∃ grown ∈ saved.progress.totalBytes, total ≤ grown
  counted : prepared.totalBytesIsEstimated = true → saved.state = .finalizing →
    saved.progress.totalBytes = some saved.progress.downloadedBytes

/-- What one operation of an execution keeps of the progress. -/
def ProgressRule (op : ManagerOp) (point : World × ManagerTrace) : Prop :=
  match op with
  | .save candidate =>
      (∀ total ∈ candidate.progress.totalBytes, candidate.progress.downloadedBytes ≤ total) ∧
      ∃ previous, point.1.rows candidate.id = some previous ∧ previous.state.resting = false ∧
        (previous.state = .downloading ∨ previous.state = .finalizing →
          ∃ prepared, preparedIn point.2 = some prepared ∧
            Progresses prepared point.2 previous candidate)
  | .onProgress (.progressChanged id progress) job =>
      job.progress = progress ∧ point.1.rows id = some job ∧
      (∃ last saves, point.1.saves = ⟨0, last, job⟩ :: saves ∧ progress ≠ last.progress) ∧
      announcedIn point.2 ≠ some progress
  | _ => True

section Parts

variable {older trace : ManagerTrace} {job candidate persisted : DownloadJob}
variable {prepared : PreparedTransfer} {bytes : Nat} {id : DownloadId} {course : Course}
variable {world : World} {point : World × ManagerTrace} {run : TransferRun}
variable {progress : DownloadProgress} {estimated rewind : Bool}

theorem records_recorded : Records recorded fun _ _ _ => True := by
  intro op choice world older answer later trace answered
  obtain ⟨⟨given, next⟩, responded, same⟩ := Option.map_eq_some_iff.mp answered
  cases same
  exact ⟨responded, trivial, rfl⟩

/-! ### Computed progress -/

/-- A total that was estimated grows with the count. -/
def Grows (previous progress : DownloadProgress) : Prop :=
  ∀ total ∈ previous.totalBytes, ∃ grown ∈ progress.totalBytes, total ≤ grown

theorem executionProgress_grows
    (h : executionProgress job bytes true = .ok progress) : Grows job.progress progress := by
  unfold executionProgress at h
  split at h
  · cases h
  · intro total known
    rw [(new_ok (mapError_ok h)).2, Option.mem_def.mp known]
    exact ⟨_, rfl, Nat.le_max_left _ _⟩

theorem stoppedExecutionProgress_total
    (h : stoppedExecutionProgress job bytes false rewind = .ok progress) :
    progress.totalBytes = job.progress.totalBytes := by
  unfold stoppedExecutionProgress at h
  split at h
  · exact executionProgress_total h
  · exact (new_ok (mapError_ok h)).2

theorem stoppedExecutionProgress_grows
    (h : stoppedExecutionProgress job bytes true rewind = .ok progress) :
    Grows job.progress progress := by
  unfold stoppedExecutionProgress at h
  split at h
  · exact executionProgress_grows h
  · intro total known
    rw [(new_ok (mapError_ok h)).2, Option.mem_def.mp known]
    exact ⟨_, rfl, Nat.le_max_left _ _⟩

theorem finishedProgress_total (exact_ : prepared.totalBytesIsEstimated = false)
    (h : finishedProgress job prepared bytes = .ok progress) :
    progress.totalBytes = job.progress.totalBytes := by
  unfold finishedProgress validatedExecutionProgress at h
  rw [exact_, if_neg nofun] at h
  split at h
  · cases h
  · exact (new_ok (mapError_ok h)).2

theorem finishedProgress_whole (guessed : prepared.totalBytesIsEstimated = true)
    (h : finishedProgress job prepared bytes = .ok progress) :
    progress.totalBytes = some progress.downloadedBytes := by
  unfold finishedProgress at h
  rw [guessed, if_pos rfl] at h
  obtain ⟨counted, total⟩ := new_ok (mapError_ok h)
  rw [counted, total]

/-- A stop counts at least what its job counts, unless its transfer may rewind. -/
theorem StoppedProgress.progresses {computed : Except RepositoryError DownloadProgress}
    (stopped : StoppedProgress prepared run job computed) (ok : computed = .ok progress) :
    (job.progress.downloadedBytes ≤ progress.downloadedBytes ∨
      prepared.stoppedProgressMayRewind = true ∧ run.stopped = true) ∧
    (prepared.totalBytesIsEstimated = false →
      progress.totalBytes = job.progress.totalBytes) ∧
    (prepared.totalBytesIsEstimated = true → Grows job.progress progress) := by
  have rises : ∀ {bytes}, stoppedExecutionProgress job bytes prepared.totalBytesIsEstimated false =
      .ok progress → job.progress.downloadedBytes ≤ progress.downloadedBytes := by
    intro bytes computed
    rw [executionProgress_counts computed]
    exact executionProgress_le computed
  cases stopped with
  | stopped ended =>
    refine ⟨?_, fun exact_ => ?_, fun guessed => ?_⟩
    · cases rewinds : prepared.stoppedProgressMayRewind with
      | true => exact .inr ⟨rfl, by rw [TransferRun.stopped, ended]⟩
      | false =>
        rw [rewinds] at ok
        exact .inl (rises ok)
    · rw [exact_] at ok
      exact stoppedExecutionProgress_total ok
    · rw [guessed] at ok
      exact stoppedExecutionProgress_grows ok
  | finished ended =>
    refine ⟨.inl (rises ok), fun exact_ => ?_, fun guessed => ?_⟩
    · rw [exact_] at ok
      exact stoppedExecutionProgress_total ok
    · rw [guessed] at ok
      exact stoppedExecutionProgress_grows ok

/-! ### Commits -/

/-- A resting row is never saved over. -/
theorem Commits.resting (commits : Commits course candidate)
    (worked : course.job = some job) : job.state.resting = false := by
  have working : ∀ {state row}, course.Works state row → state.resting = false →
      job.state.resting = false := by
    intro state row works active
    cases Option.some.inj (worked.symm.trans works.1)
    exact works.2 ▸ active
  cases commits with
  | inspecting works => exact working works rfl
  | downloading inspected => exact working inspected.works rfl
  | checkpoint transferred => exact working transferred.works rfl
  | finalizing transferred => exact working transferred.works rfl
  | completed _ works => exact working works rfl
  | failed fails =>
    cases fails with
    | prepare works => exact working works rfl
    | transfer works => exact working works rfl
    | publish works => exact working works rfl
  | stop stops =>
    cases stops with
    | queued works => exact working works rfl
    | dropped works => exact working works rfl
    | inspected inspected => exact working inspected.works rfl
    | transferred transferred => exact working transferred.works rfl

theorem Progresses.unchanged (same : candidate.progress = job.progress)
    (moved : candidate.state ≠ .finalizing) : Progresses prepared trace job candidate where
  rises := .inl (Nat.le_of_eq (by rw [same]))
  exact _ := by rw [same]
  estimated _ _ total known := ⟨total, same ▸ known, Nat.le_refl _⟩
  counted _ finalizing := absurd finalizing moved

/-- What a commit over a row that entered Downloading does to its progress. -/
theorem Commits.progresses (commits : Commits course candidate)
    (shown : course.shown = course.job) (worked : course.job = some job)
    (sensible : course.Sensible)
    (halted : ∀ run, course.run = some run → run.stopped = true → stoppedIn trace = true)
    (active : job.state = .downloading ∨ job.state = .finalizing) :
    ∃ prepared, course.given = some prepared ∧ Progresses prepared trace job candidate := by
  have working : ∀ {state row}, course.Works state row →
      row = job ∧ (state = .downloading ∨ state = .finalizing) := by
    intro state row works
    cases Option.some.inj (worked.symm.trans works.1)
    exact ⟨rfl, works.2 ▸ active⟩
  have idle : ∀ {state row}, course.Works state row → state ≠ .downloading →
      state ≠ .finalizing →
      ∃ prepared, course.given = some prepared ∧ Progresses prepared trace job candidate := by
    intro state row works early late
    exact ((working works).2.elim early late).elim
  have unchanged : course.run ≠ none → candidate.progress = job.progress → candidate.state ≠ .finalizing →
      ∃ prepared, course.given = some prepared ∧ Progresses prepared trace job candidate := by
    intro ran same moved
    obtain ⟨prepared, given⟩ := sensible.ran ran
    exact ⟨prepared, Course.given_eq given, .unchanged same moved⟩
  cases commits with
  | inspecting works => exact idle works nofun nofun
  | downloading inspected => exact idle inspected.works nofun nofun
  | checkpoint transferred _ _ counted =>
    obtain ⟨rfl, _⟩ := working transferred.works
    refine ⟨_, Course.given_eq transferred.given, .inl ?_, fun exact_ => ?_, fun guessed _ => ?_,
      fun _ finalizing => ?_⟩
    · exact Nat.le_trans (executionProgress_le counted)
        (Nat.le_of_eq (executionProgress_counts counted).symm)
    · rw [exact_] at counted
      exact executionProgress_total counted
    · rw [guessed] at counted
      exact executionProgress_grows counted
    · exact nomatch transferred.works.2.symm.trans finalizing
  | finalizing transferred _ _ covers counted =>
    obtain ⟨rfl, _⟩ := working transferred.works
    refine ⟨_, Course.given_eq transferred.given, .inl ?_, fun exact_ => ?_,
      fun _ moved => absurd rfl moved, fun guessed _ => ?_⟩
    · exact Nat.le_trans covers (Nat.le_of_eq (finishedProgress_counts counted).symm)
    · exact finishedProgress_total exact_ counted
    · exact finishedProgress_whole guessed counted
  | failed fails _ found =>
    cases Option.some.inj (found.symm.trans (shown.trans worked))
    cases fails with
    | prepare works => exact idle works nofun nofun
    | transfer _ ran => exact unchanged (by simp [ran]) rfl nofun
    | publish _ failed => exact unchanged (sensible.published (by simp [failed])) rfl nofun
  | completed published _ _ found =>
    cases Option.some.inj (found.symm.trans (shown.trans worked))
    exact unchanged (sensible.published (by simp [published.output])) rfl nofun
  | stop stops =>
    rename_i request _ _ _
    cases stops with
    | queued works => exact idle works nofun nofun
    | dropped works => exact idle works nofun nofun
    | inspected inspected => exact idle inspected.works nofun nofun
    | transferred transferred counted =>
      obtain ⟨rfl, _⟩ := working transferred.works
      obtain ⟨rises, exact_, grows⟩ := counted.progresses rfl
      refine ⟨_, Course.given_eq transferred.given, rises.imp_right fun rewinds => ?_, exact_,
        fun guessed _ => grows guessed,
        fun _ finalizing => absurd finalizing (stopState_ne nofun nofun)⟩
      refine ⟨rewinds.1, halted _ transferred.ran rewinds.2, ?_⟩
      cases request
      · exact .inl rfl
      · exact .inr rfl

/-! ### The invariant -/

/-- Where an announced progress stands: it is the one persisted, or the one replaced since. -/
inductive Stands (before : Option DownloadJob) (announced : Bool) (progress : DownloadProgress)
    (job : DownloadJob) : Prop where
  | ended (ended : job.state = .failed ∨ job.state = .completed)
  | told (begun : job.state ≠ .queued ∧ job.state ≠ .inspecting) (told : announced = true)
      (same : progress = job.progress)
  | replaced {last : DownloadJob} (begun : job.state ≠ .queued ∧ job.state ≠ .inspecting)
      (untold : announced = false) (replaced : before = some last) (downloading : last.state = .downloading)
      (same : progress = last.progress)

/-- What an execution has saved and announced of its progress. -/
structure Progressing (course : Course) (point : World × ManagerTrace) : Prop where
  halted : ∀ run, course.run = some run → run.stopped = true → stoppedIn point.2 = true
  logged : ∀ last job, course.replaced = some last → course.job = some job →
    ∃ saves, point.1.saves = ⟨0, last, job⟩ :: saves
  announced : ∀ progress, announcedIn point.2 = some progress →
    ∃ job, course.job = some job ∧ Stands course.replaced course.told progress job

section

variable (stands : Stands course.replaced course.told progress job)
include stands

section

variable (worked : course.job = some job)
include worked

/-- Nothing was announced of a job that has not entered Downloading. -/
theorem Stands.begun {state : DownloadState} {working : DownloadJob}
    (works : course.Works state working) (early : state = .queued ∨ state = .inspecting) :
    False := by
  cases Option.some.inj (works.1.symm.trans worked)
  rw [← works.2] at early
  cases stands with
  | ended ended => rcases early with h | h <;> rw [h] at ended <;> simp at ended
  | told begun => exact early.elim begun.1 begun.2
  | replaced begun => exact early.elim begun.1 begun.2

/-- While a transfer runs the progress of its job is the one announced. -/
theorem Stands.transferred {working : DownloadJob} (transferred : course.Transferred working prepared run) :
    progress = working.progress := by
  cases Option.some.inj (transferred.works.1.symm.trans worked)
  have downloading := transferred.works.2
  cases stands with
  | ended ended =>
    rw [downloading] at ended
    simp at ended
  | told _ _ same => exact same
  | replaced _ untold replaced previous =>
    rcases transferred.told with told | ⟨first, found, inspecting⟩
    · exact nomatch untold.symm.trans told
    · cases Option.some.inj (replaced.symm.trans found)
      exact nomatch previous.symm.trans inspecting

theorem Stands.saved (commits : Commits course candidate) (stamped : Stamped candidate persisted) :
    Stands course.job false progress persisted := by
  have state : persisted.state = candidate.state := by rw [stamped]
  have early : ∀ {state working}, course.Works state working →
      state = .queued ∨ state = .inspecting → Stands course.job false progress persisted :=
    fun works early => (stands.begun worked works early).elim
  have goes : ∀ {working prepared run}, course.Transferred working prepared run →
      candidate.state ≠ .queued ∧ candidate.state ≠ .inspecting →
      Stands course.job false progress persisted := by
    intro working prepared run transferred begun
    rw [← state] at begun
    exact .replaced begun rfl transferred.works.1 transferred.works.2
      (stands.transferred worked transferred)
  cases commits with
  | inspecting works => exact early works (.inl rfl)
  | downloading inspected => exact early inspected.works (.inr rfl)
  | checkpoint transferred =>
    refine goes transferred ?_
    rw [DownloadJob.updateProgress_state, transferred.works.2]
    exact ⟨nofun, nofun⟩
  | finalizing transferred => exact goes transferred ⟨nofun, nofun⟩
  | failed => exact .ended (.inl state)
  | completed => exact .ended (.inr state)
  | stop stops =>
    cases stops with
    | queued works => exact early works (.inl rfl)
    | dropped works => exact early works (.inr rfl)
    | inspected inspected => exact early inspected.works (.inr rfl)
    | transferred transferred =>
      exact goes transferred ⟨stopState_ne nofun nofun, stopState_ne nofun nofun⟩

end

end

theorem Progressing.saved (progressing : Progressing course (world, older)) (commits : Commits course candidate)
    (worked : course.job = some job) (stamped : Stamped candidate persisted) :
    Progressing (course.saved persisted)
      (world.put job persisted, committed candidate persisted older) where
  halted := progressing.halted
  logged last _ found := by
    rintro ⟨⟩
    cases Option.some.inj (worked.symm.trans found)
    exact ⟨world.saves, rfl⟩
  announced progress found := by
    obtain ⟨row, same, stands⟩ := progressing.announced progress found
    exact ⟨persisted, rfl, stands.saved same commits stamped⟩

/-- A progress is told once, right after the save that changed it. -/
theorem Tells.rule {key : DownloadId} {progress : DownloadProgress}
    (tells : Tells id course (.progressChanged key progress) job)
    (traced : Traced id course (world, older)) (progressing : Progressing course (world, older)) :
    ProgressRule (.onProgress (.progressChanged key progress) job) (world, older) ∧
      course.job = some job ∧ job.state ≠ .queued ∧ job.state ≠ .inspecting := by
  cases tells with
  | progress works named previous changed untold =>
    rename_i state last
    have same : key = id := by
      rcases named with ⟨_, same⟩ | ⟨_, same⟩
      · exact same
      · exact same.trans (traced.keyed job works.1)
    have replaced : course.replaced = some last ∧ state ≠ .queued ∧ state ≠ .inspecting ∧
        state ≠ .failed ∧ state ≠ .completed := by
      rcases previous with ⟨active, found⟩ | ⟨⟨request, _, rfl⟩, found⟩
      · refine ⟨found, ?_⟩
        rcases active with rfl | rfl <;> exact ⟨nofun, nofun, nofun, nofun⟩
      · refine ⟨traced.before.symm.trans found, ?_⟩
        cases request <;> exact ⟨nofun, nofun, nofun, nofun⟩
    obtain ⟨found, begun, inspected, unfailed, uncompleted⟩ := replaced
    rw [← works.2] at begun inspected unfailed uncompleted
    obtain ⟨saves, logged⟩ := progressing.logged last job found works.1
    subst same
    refine ⟨⟨rfl, traced.persisted.trans works.1, ⟨last, saves, logged, changed⟩, ?_⟩, works.1,
      begun, inspected⟩
    intro told
    obtain ⟨row, worked, stands⟩ := progressing.announced _ told
    cases Option.some.inj (worked.symm.trans works.1)
    cases stands with
    | ended ended => exact ended.elim unfailed uncompleted
    | told _ told => exact nomatch untold.symm.trans told
    | replaced _ _ before _ same =>
      cases Option.some.inj (before.symm.trans found)
      exact changed same

theorem Progressing.rule {op : ManagerOp} (progressing : Progressing course (world, older))
    (traced : Traced id course (world, older)) (asks : course.Asks id op) :
    ProgressRule op (world, older) := by
  cases op with
  | onProgress event row =>
    cases event with
    | progressChanged key progress => exact (Tells.rule asks traced progressing).1
    | _ => trivial
  | save => exact asks.elim
  | _ => trivial

theorem Progressing.ask {op : ManagerOp} (answer : op.Answer)
    (traced : Traced id course (world, older)) (progressing : Progressing course (world, older))
    (asks : course.Asks id op) :
    Progressing (course.answered op answer) (world, ⟨op, answer⟩ :: older) := by
  cases op with
  | prepare input =>
    refine { progressing with halted := fun run ran halts => ?_ }
    have stopped := progressing.halted run ran halts
    rcases answer with _ | _ | _
    · rfl
    · exact stopped
    · exact stopped
  | transferControlled startingBytes =>
    refine { progressing with halted := ?_ }
    rintro _ ⟨⟩ halts
    change (answer.stopped || _) = true
    rw [halts, Bool.true_or]
  | onProgress event row =>
    cases event with
    | progressChanged key progress =>
      obtain ⟨rule, worked, begun⟩ := Tells.rule asks traced progressing
      refine { progressing with announced := ?_ }
      rintro _ ⟨⟩
      exact ⟨row, worked, .told begun rfl rule.1.symm⟩
    | _ => exact { progressing with }
  | lockWrites | unlockWrites | save | insert => exact asks.elim
  | job | nowUtc | requestKind | setPauseSupported | finalize => exact { progressing with }

theorem follows_progressing : Follows (fun _ _ _ => True) ProgressRule id Progressing where
  silent := ⟨fun _ => trivial, fun _ _ _ => trivial, fun _ => trivial⟩
  ask traced progressing _ asks :=
    ⟨progressing.rule traced asks, fun answer _ => progressing.ask answer traced asks⟩
  save traced progressing sensible commits worked key := by
    refine ⟨⟨within _, _, ?_, commits.resting worked, ?_⟩,
      fun _ _ => { progressing with }, fun _ stamped => progressing.saved commits worked stamped⟩
    · rw [key, traced.keyed _ worked]
      exact traced.persisted.trans worked
    · intro active
      have halted : ∀ run : TransferRun, _ = some run → run.stopped = true →
          stoppedIn (⟨.lockWrites, ()⟩ :: _) = true := progressing.halted
      obtain ⟨prepared, given, progresses⟩ :=
        commits.progresses traced.shown worked sensible halted active
      exact ⟨prepared, traced.given.trans given, progresses⟩

end Parts

/-- A transfer of at most 100 bytes by its estimate. -/
def estimatedHundred : PreparedTransfer where
  resource := ⟨.hls, none, none⟩
  totalBytes := some 100
  totalBytesIsEstimated := true
  startingBytes := 0
  supportsPause := true
  stoppedProgressMayRewind := true
  plannedDestination := ⟨"/downloads/file"⟩

/-- The transfer writes 50 bytes, which cannot be published. -/
def publicationFails : List Choice :=
  executionBegins ++ [.prepared (some (.ok estimatedHundred)), .settled, .clock 2, .requested none,
    .clock 2, .settled, .stored (.ok 2), .settled, .settled, .settled,
    .transferred ⟨[20], 50, .ok (.finished ⟨50⟩)⟩,
    .clock 3, .settled, .stored (.ok 3), .settled, .settled, .settled, .requested none,
    .clock 4, .clock 4, .settled, .stored (.ok 4), .settled, .settled, .settled, .settled,
    .finalized (.error ⟨.storage, "full", true⟩), .settled, .clock 5,
    .settled, .stored (.ok 5), .settled, .settled]

end Gunda.Core

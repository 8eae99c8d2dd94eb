import Gunda.Core.Recorded

/-!
# Where an execution lands

Runs of an execution alone with a repository that keeps every save and an executor
that keeps its contract. Each one ends in a resting state exactly when no prepared
transfer starts beyond a total it only estimated: `DownloadProgress::new` refuses
such a start after the job was committed to inspecting.
-/
namespace Gunda.Core

open Gunda.Lib
open DownloadProgress (new_error new_of_le new_ok)

/-! ## The contract of the surroundings -/

def TransferRun.stopped (run : TransferRun) : Bool :=
  match run.result with
  | .ok (.stopped _) => true
  | _ => false

/-- The executor was stopped, so a control request was made. -/
def stoppedIn : ManagerTrace → Bool
  | [] => false
  | ⟨.prepare _, none⟩ :: _ => true
  | ⟨.transferControlled _, run⟩ :: older => run.stopped || stoppedIn older
  | _ :: older => stoppedIn older

/-- A count an exact total allows. -/
def PreparedTransfer.allows (prepared : PreparedTransfer) (bytes : Nat) : Bool :=
  prepared.totalBytesIsEstimated || prepared.totalBytes.all (bytes ≤ ·)

/-- A finished count is the whole resource; a stopped one rewinds only where it may. -/
def honestResult (prepared : PreparedTransfer) (run : TransferRun) : Bool :=
  match run.result with
  | .ok (.finished staged) =>
      run.reportedBytes ≤ staged.writtenBytes &&
        (prepared.totalBytesIsEstimated || prepared.totalBytes.all (· = staged.writtenBytes))
  | .ok (.stopped writtenBytes) =>
      (prepared.stoppedProgressMayRewind || run.reportedBytes ≤ writtenBytes) &&
        prepared.allows writtenBytes
  | .error _ => true

/-- Reported counts rise from the verified start to at most an exact total. -/
def honestRun (prepared : PreparedTransfer) (run : TransferRun) : Bool :=
  decide ((prepared.startingBytes :: (run.ticks ++ [run.reportedBytes])).Pairwise (· ≤ ·)) &&
    prepared.allows run.reportedBytes && honestResult prepared run

/-- Every save succeeds, a stop answers a request, and the executor keeps its contract. -/
def honours : (op : ManagerOp) → op.Answer → ManagerTrace → Bool
  | .save _, answer, _ => answer.isOk
  | .requestKind, none, older => !stoppedIn older
  | .prepare _, some (.ok prepared), _ => prepared.allows prepared.startingBytes
  | .transferControlled _, run, older => (preparedIn older).all (honestRun · run)
  | .finalize staged, .ok output, _ => output.writtenBytes = staged.writtenBytes
  | _, _, _ => true

/-- The surroundings of one execution that keep their contract, with what they did. -/
def honest : Surroundings ManagerOp ManagerOp.Answer Choice (World × ManagerTrace) :=
  fun op choice (world, older) =>
    (respond 0 op choice world).bind fun answered =>
      if honours op answered.1 older then
        some (answered.1, (answered.2, ⟨op, answered.1⟩ :: older))
      else none

/-! ## Landing -/

def DownloadState.resting : DownloadState → Bool
  | .paused | .cancelled | .failed | .completed => true
  | _ => false

/-- The execution returned `Ok` and persisted a resting state. -/
def Landed (id : DownloadId) (result : Except DownloadManagerError ExecutionReport)
    (world : World) : Prop :=
  result.isOk = true ∧ ∃ row, world.rows id = some row ∧ row.state.resting = true

/-- No prepared transfer starts beyond the total it estimated. -/
def Covered (trace : ManagerTrace) : Prop :=
  ∀ prepared ∈ preparedIn trace, prepared.totalBytesIsEstimated = true →
    ∀ total ∈ prepared.totalBytes, prepared.startingBytes ≤ total

section Parts

variable {older : ManagerTrace} {job : DownloadJob} {rewind : Bool} {prepared : PreparedTransfer}
variable {bytes : Nat} {id : DownloadId} {course : Course} {point : World × ManagerTrace}
variable {run : TransferRun}

abbrev Honours (op : ManagerOp) (answer : op.Answer) (older : ManagerTrace) : Prop :=
  honours op answer older = true

theorem records_honest : Records honest Honours := by
  intro op choice world older answer later trace answered
  obtain ⟨⟨given, next⟩, responded, kept⟩ := Option.bind_eq_some_iff.mp answered
  split at kept
  · rename_i honoured
    cases kept
    exact ⟨responded, honoured, rfl⟩
  · cases kept

/-- A job whose transfer has counted at most these bytes. -/
structure Transferring (prepared : PreparedTransfer) (bytes : Nat) (job : DownloadJob) : Prop where
  downloading : job.state = .downloading
  counted : job.progress.downloadedBytes ≤ bytes
  total : prepared.totalBytesIsEstimated = false → job.progress.totalBytes = prepared.totalBytes

theorem Transferring.mono {more : Nat} (transferring : Transferring prepared bytes job)
    (h : bytes ≤ more) :
    Transferring prepared more job :=
  ⟨transferring.downloading, Nat.le_trans transferring.counted h, transferring.total⟩

theorem PreparedTransfer.allows_mono (prepared : PreparedTransfer) {more : Nat} (h : bytes ≤ more)
    (allowed : prepared.allows more = true) : prepared.allows bytes = true := by
  unfold allows at allowed ⊢
  cases known : prepared.totalBytes with
  | none => simp
  | some total =>
    simp only [known, Option.all_some, Bool.or_eq_true, decide_eq_true_eq] at allowed ⊢
    exact allowed.imp_right (Nat.le_trans h)

theorem PreparedTransfer.allows_total (allowed : prepared.allows bytes = true)
    (exact_ : prepared.totalBytesIsEstimated = false) :
    ∀ total ∈ prepared.totalBytes, bytes ≤ total := by
  intro total member
  cases known : prepared.totalBytes with
  | none =>
    rw [known] at member
    cases member
  | some other =>
    rw [known] at member
    cases member
    simpa [PreparedTransfer.allows, exact_, known] using allowed

/-- An allowed count is progress of a job whose transfer reached it. -/
theorem executionProgress_ok (transferring : Transferring prepared bytes job)
    (allowed : prepared.allows bytes = true) :
    ∃ progress, executionProgress job bytes prepared.totalBytesIsEstimated = .ok progress ∧
      progress.downloadedBytes = bytes ∧
      (prepared.totalBytesIsEstimated = false → progress.totalBytes = prepared.totalBytes) := by
  unfold executionProgress
  rw [if_neg (Nat.not_lt.mpr transferring.counted)]
  cases estimated : prepared.totalBytesIsEstimated with
  | true =>
    have within : ∀ total ∈ some (max (job.progress.totalBytes.getD 0) bytes), bytes ≤ total := by
      rintro _ ⟨⟩
      exact Nat.le_max_right _ _
    dsimp only
    rw [if_pos rfl, new_of_le within]
    exact ⟨_, rfl, rfl, nofun⟩
  | false =>
    have within : ∀ total ∈ job.progress.totalBytes, bytes ≤ total := by
      rw [transferring.total estimated]
      exact prepared.allows_total allowed estimated
    dsimp only
    rw [if_neg nofun, new_of_le within]
    exact ⟨_, rfl, rfl, fun _ => transferring.total estimated⟩

/-- The stopped count of an honest run is progress of its job. -/
theorem stoppedExecutionProgress_ok
    (transferring : rewind = false → Transferring prepared bytes job)
    (total : prepared.totalBytesIsEstimated = false → job.progress.totalBytes = prepared.totalBytes)
    (allowed : prepared.allows bytes = true) :
    ∃ progress, stoppedExecutionProgress job bytes prepared.totalBytesIsEstimated rewind =
      .ok progress := by
  unfold stoppedExecutionProgress
  cases rewind with
  | false =>
    obtain ⟨progress, computed, _⟩ := executionProgress_ok (transferring rfl) allowed
    exact ⟨progress, computed⟩
  | true =>
    cases estimated : prepared.totalBytesIsEstimated with
    | true =>
      have within : ∀ total ∈ job.progress.totalBytes.map (max · bytes), bytes ≤ total := by
        intro total member
        obtain ⟨known, _, rfl⟩ := Option.map_eq_some_iff.mp member
        exact Nat.le_max_right _ _
      dsimp only
      rw [if_neg nofun, if_pos rfl, new_of_le within]
      exact ⟨_, rfl⟩
    | false =>
      have within : ∀ total ∈ job.progress.totalBytes, bytes ≤ total := by
        rw [total estimated]
        exact prepared.allows_total allowed estimated
      dsimp only
      rw [if_neg nofun, if_neg nofun, new_of_le within]
      exact ⟨_, rfl⟩

/-- The staged count of an honest run is progress of its job. -/
theorem finishedProgress_ok (transferring : Transferring prepared bytes job)
    (allowed : prepared.allows bytes = true) :
    ∃ progress, finishedProgress job prepared bytes = .ok progress := by
  unfold finishedProgress
  cases estimated : prepared.totalBytesIsEstimated with
  | true =>
    have within : ∀ total ∈ some bytes, bytes ≤ total := by
      rintro _ ⟨⟩
      exact Nat.le_refl _
    rw [if_pos rfl, new_of_le within]
    exact ⟨_, rfl⟩
  | false =>
    have within : ∀ total ∈ job.progress.totalBytes, bytes ≤ total := by
      rw [transferring.total estimated]
      exact prepared.allows_total allowed estimated
    rw [if_neg nofun]
    unfold validatedExecutionProgress
    rw [if_neg (Nat.not_lt.mpr transferring.counted), new_of_le within]
    exact ⟨_, rfl⟩

theorem executionProgress_total {progress : DownloadProgress}
    (h : executionProgress job bytes false = .ok progress) :
    progress.totalBytes = job.progress.totalBytes := by
  unfold executionProgress at h
  split at h
  · cases h
  · exact (new_ok (mapError_ok h)).2

/-! ### The invariant -/

theorem stopState_resting (request : DownloadControlRequest) :
    (stopState request).resting = true := by
  cases request <;> rfl

/-- The start is within a total that is only estimated. -/
def PreparedTransfer.Covers (prepared : PreparedTransfer) : Prop :=
  prepared.totalBytesIsEstimated = true → ∀ total ∈ prepared.totalBytes, prepared.startingBytes ≤ total

/-- What is known of the transfer an execution was given. -/
structure Agreed (prepared : PreparedTransfer) (working : Option DownloadJob)
    (transfer : Option TransferRun) : Prop where
  allowed : prepared.allows prepared.startingBytes = true
  honest : ∀ run, transfer = some run → honestRun prepared run = true
  covers : ∀ job, working = some job → job.state ≠ .inspecting → prepared.Covers
  exact : ∀ job, working = some job → job.state = .downloading →
    prepared.totalBytesIsEstimated = false → job.progress.totalBytes = prepared.totalBytes

/-- The course of an execution whose surroundings keep their contract. -/
structure Honest (course : Course) (point : World × ManagerTrace) : Prop where
  unrefused : course.refused = none
  present : course.job ≠ none
  fresh : course.persisted = false → ∀ job, course.job = some job → job.state = .queued
  heard : course.checked = true → course.request = none → stoppedIn point.2 = false
  dropped : course.preparation = some none → stoppedIn point.2 = true
  halted : ∀ run, course.run = some run → run.stopped = true → stoppedIn point.2 = true
  agreed : ∀ prepared, course.given = some prepared → Agreed prepared course.job course.run
  published : ∀ staged output, course.output = some (staged, .ok output) →
    output.writtenBytes = staged.writtenBytes

theorem Course.given_eq (given : course.preparation = some (some (.ok prepared))) :
    course.given = some prepared := by
  rw [Course.given, given]

/-- The executor answers an inspection. -/
theorem Honest.inspected {preparation : Option (Except DownloadFailure PreparedTransfer)}
    {later : World × ManagerTrace} (honest : Honest course point) (works : course.Works .inspecting job)
    (idle : course.run = none) (stopped : preparation = none → stoppedIn later.2 = true)
    (allowed : ∀ prepared, preparation = some (.ok prepared) →
      prepared.allows prepared.startingBytes = true) :
    Honest { course with preparation := some preparation, checked := false } later where
  unrefused := honest.unrefused
  present := honest.present
  fresh := honest.fresh
  heard checked := by cases checked
  dropped same := stopped (Option.some.inj same)
  halted run ran := by cases idle.symm.trans ran
  agreed prepared given := by
    have given : preparation = some (.ok prepared) := by
      rw [Course.given] at given
      split at given
      · cases given
        exact Option.some.inj ‹_›
      · cases given
    refine ⟨allowed prepared given, fun run ran => ?_, fun other found moved => ?_, ?_⟩
    · cases idle.symm.trans ran
    · exact absurd (Option.some.inj (works.1.symm.trans found) ▸ works.2) moved
    · intro other found state
      cases works.state_eq ⟨found, state⟩
  published := honest.published

/-- The executor answers a transfer. -/
theorem Honest.transferred {later : World × ManagerTrace} (honest : Honest course point)
    (given : course.given = some prepared) (kept : honestRun prepared run = true)
    (stopped : stoppedIn later.2 = (run.stopped || stoppedIn point.2)) :
    Honest { course with run := some run, checked := false } later where
  unrefused := honest.unrefused
  present := honest.present
  fresh := honest.fresh
  heard := nofun
  dropped same := by rw [stopped, honest.dropped same, Bool.or_true]
  halted other ran halts := by
    cases ran
    rw [stopped, halts, Bool.true_or]
  agreed other found := by
    obtain ⟨allowed, _, covers, exact_⟩ := honest.agreed other found
    refine ⟨allowed, ?_, covers, exact_⟩
    rintro _ ⟨⟩
    cases Option.some.inj (given.symm.trans found)
    exact kept
  published := honest.published

theorem Honest.ask {op : ManagerOp} {answer : op.Answer} {world : World}
    (traced : Traced id course (world, older)) (honest : Honest course (world, older))
    (sensible : course.Sensible) (asks : course.Asks id op)
    (honoured : honours op answer older = true) :
    Honest (course.answered op answer) (world, ⟨op, answer⟩ :: older) := by
  cases op with
  | requestKind =>
    refine { honest with heard := fun _ unasked => ?_ }
    change answer = none at unasked
    subst unasked
    simpa [honours, stoppedIn] using honoured
  | prepare input =>
    obtain ⟨unprepared, _, job, works, _⟩ := asks
    have idle : course.run = none := by
      by_contra ran
      obtain ⟨_, given⟩ := sensible.ran ran
      exact nomatch unprepared.symm.trans given
    apply honest.inspected works idle
    · rintro rfl
      rfl
    · rintro prepared rfl
      exact honoured
  | transferControlled startingBytes =>
    obtain ⟨_, _, _, prepared, _, given, _⟩ := asks
    have given := Course.given_eq given
    have kept : (preparedIn older).all (honestRun · answer) = true := honoured
    rw [traced.given, given] at kept
    exact honest.transferred given kept rfl
  | finalize output =>
    refine { honest with published := ?_ }
    rintro staged result ⟨⟩
    exact of_decide_eq_true honoured
  | onProgress event row => cases event <;> exact { honest with }
  | lockWrites | unlockWrites | save | insert => exact asks.elim
  | job | nowUtc | setPauseSupported => exact { honest with }

theorem PreparedTransfer.covers_of_started {progress : DownloadProgress}
    (started : DownloadProgress.new prepared.startingBytes prepared.totalBytes = .ok progress) :
    prepared.Covers := by
  obtain ⟨counted, total⟩ := new_ok started
  intro _ bound member
  rw [← counted]
  exact progress.within bound (total ▸ member)

theorem Course.given_unique {other : PreparedTransfer} (given : course.given = some prepared)
    (again : course.preparation = some (some (.ok other))) : other = prepared :=
  Option.some.inj ((Course.given_eq again).symm.trans given)

variable {candidate : DownloadJob}

section

variable (commits : Commits course candidate) (given : course.given = some prepared)
  (agreed : Agreed prepared course.job course.run)
include commits given agreed

/-- Every row committed after a transfer was given was committed over a start it covers. -/
theorem Commits.covers (moved : candidate.state ≠ .inspecting) :
    prepared.Covers := by
  have working : ∀ {state job}, course.Works state job → state ≠ .inspecting →
      prepared.Covers := by
    intro state job works moved
    exact agreed.covers job works.1 (works.2 ▸ moved)
  have ungiven : ∀ {preparation}, course.preparation = preparation →
      (∀ other, preparation ≠ some (some (.ok other))) → prepared.Covers := by
    intro preparation same other
    rw [Course.given] at given
    split at given
    · exact absurd (same.symm.trans ‹_›) (other _)
    · cases given
  have inspected : ∀ {job other progress}, course.Inspected job other progress →
      prepared.Covers := by
    intro job other progress inspected
    cases Course.given_unique given inspected.given
    exact PreparedTransfer.covers_of_started inspected.started
  cases commits with
  | inspecting => exact absurd rfl moved
  | downloading found => exact inspected found
  | checkpoint transferred => exact working transferred.works (by decide)
  | finalizing transferred => exact working transferred.works (by decide)
  | completed _ works => exact working works (by decide)
  | failed fails =>
    cases fails with
    | prepare _ failed => exact ungiven failed fun _ same => by cases same
    | transfer works => exact working works (by decide)
    | publish works => exact working works (by decide)
  | stop stops =>
    cases stops with
    | queued _ unprepared => exact ungiven unprepared fun _ same => by cases same
    | dropped _ dropped => exact ungiven dropped fun _ same => by cases same
    | inspected found => exact inspected found
    | transferred transferred => exact working transferred.works (by decide)

/-- A row that is downloading counts towards the exact total. -/
theorem Commits.exact_total (downloading : candidate.state = .downloading)
    (exact_ : prepared.totalBytesIsEstimated = false) :
    candidate.progress.totalBytes = prepared.totalBytes := by
  cases commits with
  | downloading inspected =>
    cases Course.given_unique given inspected.given
    exact (new_ok inspected.started).2
  | checkpoint transferred _ _ counted =>
    cases Course.given_unique given transferred.given
    rw [exact_] at counted
    exact (executionProgress_total counted).trans
      (agreed.exact _ transferred.works.1 transferred.works.2 exact_)
  | stop => exact absurd downloading (stopState_ne nofun nofun)
  | _ => cases downloading

end

theorem Honest.saved {persisted : DownloadJob} {world later : World} {trace : ManagerTrace}
    (honest : Honest course (world, older)) (commits : Commits course candidate)
    (stamped : Stamped candidate persisted) (same : stoppedIn trace = stoppedIn older) :
    Honest (course.saved persisted) (later, trace) where
  unrefused := honest.unrefused
  present := nofun
  fresh := nofun
  heard checked unasked := same.trans (honest.heard checked unasked)
  dropped found := same.trans (honest.dropped found)
  halted run ran halts := same.trans (honest.halted run ran halts)
  agreed prepared given := by
    have agreed := honest.agreed prepared given
    refine ⟨agreed.allowed, agreed.honest, ?_, ?_⟩
    · rintro _ ⟨⟩ moved
      rw [stamped] at moved
      exact commits.covers given agreed moved
    · rintro _ ⟨⟩ downloading exact_
      rw [stamped] at downloading ⊢
      exact commits.exact_total given agreed downloading exact_
  published := honest.published

theorem follows_honest : Follows Honours (fun _ _ => True) id Honest where
  silent := ⟨fun _ => trivial, fun _ _ _ => trivial, fun _ => trivial⟩
  ask traced honest sensible asks :=
    ⟨trivial, fun _ honoured => honest.ask traced sensible asks honoured⟩
  save _ honest _ commits _ _ :=
    ⟨trivial, nofun, fun _ stamped => honest.saved commits stamped rfl⟩

/-- A count of an honest run is reached by its job, and allowed. -/
theorem Counting.transferring (counting : Counting job prepared run bytes)
    (kept : honestRun prepared run = true) (downloading : job.state = .downloading)
    (total : prepared.totalBytesIsEstimated = false →
      job.progress.totalBytes = prepared.totalBytes) :
    Transferring prepared bytes job ∧ prepared.allows bytes = true := by
  obtain ⟨earlier, ⟨later, split⟩, counted⟩ := counting
  unfold honestRun at kept
  simp only [Bool.and_eq_true, decide_eq_true_eq] at kept
  obtain ⟨⟨rising, allowed⟩, _⟩ := kept
  have reached : job.progress.downloadedBytes ≤ bytes := by
    rw [← split, List.append_assoc, ← List.cons_append] at rising
    exact (List.pairwise_append.mp rising).2.2 _ counted bytes (by simp)
  have bounded : bytes ≤ run.reportedBytes := by
    have member : bytes ∈ run.ticks ++ [run.reportedBytes] := by
      rw [← split]
      simp
    have rest := (List.pairwise_cons.mp rising).2
    rcases List.mem_append.mp member with earlier | last
    · exact (List.pairwise_append.mp rest).2.2 _ earlier _ (by simp)
    · exact Nat.le_of_eq (by simpa using last)
  exact ⟨⟨downloading, reached, total⟩, prepared.allows_mono bounded allowed⟩

/-- A finished run staged no less than it reported, and a whole resource. -/
theorem honestRun_finished {staged : StagedTransfer} (kept : honestRun prepared run = true)
    (ended : run.result = .ok (.finished staged)) :
    run.reportedBytes ≤ staged.writtenBytes ∧ (prepared.totalBytesIsEstimated = true ∨
      ∀ total ∈ prepared.totalBytes, total = staged.writtenBytes) := by
  unfold honestRun honestResult at kept
  rw [ended] at kept
  simp only [Bool.and_eq_true, Bool.or_eq_true, decide_eq_true_eq] at kept
  refine kept.2.imp_right (Or.imp_right fun whole total member => ?_)
  rw [Option.mem_def.mp member] at whole
  simpa using whole

theorem honestRun_stopped (kept : honestRun prepared run = true)
    (ended : run.result = .ok (.stopped bytes)) :
    (prepared.stoppedProgressMayRewind = true ∨ run.reportedBytes ≤ bytes) ∧
      prepared.allows bytes = true := by
  unfold honestRun honestResult at kept
  rw [ended] at kept
  simp only [Bool.and_eq_true, Bool.or_eq_true, decide_eq_true_eq] at kept
  exact kept.2

theorem PreparedTransfer.allows_whole (whole : prepared.totalBytesIsEstimated = true ∨
    ∀ total ∈ prepared.totalBytes, total = bytes) : prepared.allows bytes = true := by
  unfold allows
  rw [Bool.or_eq_true]
  refine whole.imp_right fun whole => ?_
  cases known : prepared.totalBytes with
  | none => rfl
  | some total => simpa using Nat.le_of_eq (whole total known).symm

/-- The stopped progress of an honest run is valid. -/
theorem StoppedProgress.valid {computed : Except RepositoryError DownloadProgress}
    (stopped : StoppedProgress prepared run job computed) (kept : honestRun prepared run = true)
    (transferring : Transferring prepared run.reportedBytes job) :
    ∃ progress, computed = .ok progress := by
  cases stopped with
  | stopped ended rewinds =>
    obtain ⟨reached, allowed⟩ := honestRun_stopped kept ended
    refine stoppedExecutionProgress_ok (fun fixed => ?_) transferring.total allowed
    exact transferring.mono (by simpa [fixed] using reached)
  | finished ended =>
    obtain ⟨covers, whole⟩ := honestRun_finished kept ended
    exact stoppedExecutionProgress_ok (fun _ => transferring.mono covers) transferring.total
      (PreparedTransfer.allows_whole whole)

/-- Honest surroundings leave an execution one fault: a start beyond an estimate. -/
theorem Faults.uncovered {error : DownloadManagerError} (faults : Faults id course error)
    (traced : Traced id course point) (honest : Honest course point) (sensible : course.Sensible) :
    ∃ prepared, course.given = some prepared ∧ ¬ prepared.Covers := by
  have transfers : ∀ {job prepared run bytes}, course.Transferred job prepared run →
      Counting job prepared run bytes → honestRun prepared run = true ∧
        Transferring prepared bytes job ∧ prepared.allows bytes = true := by
    intro job prepared run bytes transferred counting
    have agreed := honest.agreed prepared (Course.given_eq transferred.given)
    have kept := agreed.honest run transferred.ran
    exact ⟨kept, counting.transferring kept transferred.works.2
      (agreed.exact job transferred.works.1 transferred.works.2)⟩
  cases faults with
  | missing lost => exact absurd (traced.shown.symm.trans lost) honest.present
  | unqueued worked fresh busy => exact absurd (honest.fresh fresh _ worked) busy
  | refused refused => exact nomatch honest.unrefused.symm.trans refused
  | dropped dropped unasked checked =>
    exact nomatch (honest.dropped dropped).symm.trans (honest.heard checked unasked)
  | beyond given unasked failed =>
    have agreed := honest.agreed _ (Course.given_eq given)
    refine ⟨_, Course.given_eq given, fun covers => ?_⟩
    obtain ⟨total, member, below⟩ := new_error failed
    rename_i prepared _ _
    cases estimated : prepared.totalBytesIsEstimated with
    | true => exact absurd (covers estimated total member) (Nat.not_le.mpr below)
    | false =>
      exact absurd (prepared.allows_total agreed.allowed estimated total member)
        (Nat.not_le.mpr below)
  | miscounted transferred _ counting failed =>
    obtain ⟨_, transferring, allowed⟩ := transfers transferred counting
    obtain ⟨progress, computed, _⟩ := executionProgress_ok transferring allowed
    exact nomatch failed.symm.trans computed
  | unrequested ran ended unasked checked =>
    have halts := honest.halted _ ran (by rw [TransferRun.stopped, ended])
    exact nomatch halts.symm.trans (honest.heard checked unasked)
  | rewound transferred ended below fixed =>
    have agreed := honest.agreed _ (Course.given_eq transferred.given)
    obtain ⟨reached, _⟩ := honestRun_stopped (agreed.honest _ transferred.ran) ended
    rw [fixed] at reached
    exact absurd (reached.resolve_left nofun) (Nat.not_le.mpr below)
  | misfinished transferred _ counting ended failed =>
    obtain ⟨kept, transferring, _⟩ := transfers transferred counting
    obtain ⟨covers, whole⟩ := honestRun_finished kept ended
    rcases failed with below | invalid | ⟨exact_, other⟩
    · exact absurd covers (Nat.not_le.mpr below)
    · obtain ⟨progress, computed⟩ := finishedProgress_ok (transferring.mono covers)
        (PreparedTransfer.allows_whole whole)
      exact nomatch invalid.symm.trans computed
    · rw [exact_] at whole
      obtain ⟨total, known, differs⟩ := (Option.any_eq_true _ _).mp other
      exact absurd (whole.resolve_left nofun total known) (of_decide_eq_true differs)
  | misstopped transferred counting failed =>
    obtain ⟨kept, transferring, _⟩ := transfers transferred counting
    obtain ⟨progress, computed⟩ := failed.valid kept transferring
    cases computed
  | unfailing fails _ found kept =>
    have working : ∀ {state row}, course.Works state row → state.canTransitionTo .failed = true →
        False := by
      intro state row works fails
      cases Option.some.inj (found.symm.trans (traced.shown.trans works.1))
      rw [works.2, fails] at kept
      cases kept
    cases fails with
    | prepare works => exact (working works rfl).elim
    | transfer works => exact (working works rfl).elim
    | publish works => exact (working works rfl).elim
  | inconsistent published _ other => exact absurd (honest.published _ _ published.output) other
  | unconfirmed published works equal failed =>
    obtain ⟨_, ⟨run, ran, ended⟩, _⟩ := published
    rcases failed with lost | refused | ⟨row, found, other⟩
    · exact absurd (traced.shown.symm.trans lost) honest.present
    · exact absurd honest.unrefused refused
    · cases Option.some.inj (found.symm.trans (traced.shown.trans works.1))
      have counted := sensible.staged _ _ _ works ran ended
      exact (other.elim (fun moved => moved works.2) fun differs =>
        differs (counted.trans equal.symm)).elim

theorem Results.lands_iff {result : Except DownloadManagerError ExecutionReport}
    (results : Results id course result) (traced : Traced id course point)
    (honest : Honest course point) (sensible : course.Sensible) :
    Landed id result point.1 ↔ Covered point.2 := by
  have landed : ∀ {state row report}, course.Works state row → state.resting = true →
      (Landed id (.ok report) point.1 ↔ Covered point.2) := by
    intro state row report works rests
    refine iff_of_true ⟨rfl, row, traced.persisted.trans works.1, works.2 ▸ rests⟩ ?_
    intro prepared given
    have agreed := honest.agreed prepared (traced.given.symm.trans given)
    apply agreed.covers row works.1
    rintro inspecting
    rw [← works.2, inspecting] at rests
    cases rests
  cases results with
  | stopped works => exact landed works (stopState_resting _)
  | failed works => exact landed works rfl
  | completed works => exact landed works rfl
  | fault faults =>
    obtain ⟨prepared, given, beyond⟩ := faults.uncovered traced honest sensible
    exact iff_of_false (fun lands => nomatch lands.1)
      fun covered => beyond (covered prepared (traced.given.trans given))

end Parts

/-- An execution of a queued job, alone with surroundings that keep their contract, lands
exactly when no prepared transfer starts beyond the total it estimated. -/
theorem execution_lands_iff (persisted : List DownloadJob)
    (history : List (Operation × List ServiceChoice)) (service : Service)
    (reached : Service.run history (Service.stored persisted) = some service)
    (running : service.running = true) (id : DownloadId) (job : DownloadJob)
    (found : service.rows id = some job) (queued : job.state = .queued)
    (choices : List Choice) (result : Except DownloadManagerError ExecutionReport) (world : World)
    (trace : ManagerTrace)
    (ran : Program.finish honest (executeInner id).run choices (service.begin.world, []) =
      some (result, (world, trace))) :
    Landed id result world ↔ Covered trace := by
  have sound := Service.run_sound (stored_sound persisted) reached
  have mirrored := congrFun (sound.mirrored running) id
  have begins : Honest (.start (service.rows id)) (service.begin.world, [⟨.job id, service.rows id⟩]) := by
    rw [found]
    refine ⟨rfl, nofun, ?_, nofun, nofun, nofun, nofun, nofun⟩
    rintro _ _ ⟨⟩
    exact queued
  obtain ⟨course, ⟨traced, honest⟩, sensible, results⟩ := Program.finish_of_wp
    (follows_honest.execution records_honest rfl mirrored (sound.keyed id) trivial begins) ran
  exact results.lands_iff traced honest sensible

/-- A resumed transfer whose 2000 verified bytes exceed an estimate of 1000. -/
def underestimated : PreparedTransfer where
  resource := ⟨.hls, none, none⟩
  totalBytes := some 1000
  totalBytesIsEstimated := true
  startingBytes := 2000
  supportsPause := true
  stoppedProgressMayRewind := true
  plannedDestination := ⟨"/downloads/file"⟩

def queuedAgain : DownloadJob := { strandedJob with state := .queued }

def executionBegins : List Choice :=
  [.settled, .requested none, .clock 1, .settled, .stored (.ok 1), .settled, .settled]

/-- An honest execution that returns an error and leaves its job inspecting. -/
theorem execution_stranded :
    ∃ result point, Program.finish honest (executeInner queuedAgain.id).run
        (executionBegins ++ [.prepared (some (.ok underestimated)), .settled])
        (World.start [queuedAgain], []) = some (result, point) ∧
      result.isOk = false ∧
      (point.1.rows queuedAgain.id).map (·.state) = some .inspecting :=
  ⟨_, _, rfl, rfl, rfl⟩

def startsAgain : List (Operation × List ServiceChoice) :=
  [(.start, [.listed none, .settled, .managed (.clock 0)])]

def inspectionFails : List Choice :=
  executionBegins ++ [.prepared (some (.error ⟨.network, "unreachable", true⟩)), .settled,
    .clock 2, .settled, .stored (.ok 2), .settled, .settled]

/-- A failed inspection of the same job lands. -/
theorem execution_lands_iff_failed :
    ∃ service result point, Service.run startsAgain (Service.stored [queuedAgain]) = some service ∧
      Program.finish honest (executeInner queuedAgain.id).run inspectionFails
        (service.begin.world, []) = some (result, point) ∧
      (Landed queuedAgain.id result point.1 ↔ Covered point.2) :=
  ⟨_, _, _, rfl, rfl, execution_lands_iff [queuedAgain] startsAgain _ rfl rfl queuedAgain.id
    queuedAgain rfl rfl inspectionFails _ _ _ rfl⟩

end Gunda.Core

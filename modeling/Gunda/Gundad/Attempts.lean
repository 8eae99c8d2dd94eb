import Gunda.Gundad.Scheduling

/-!
# Automatic attempts

How often the daemon executes a job between two commands for it, and how the jobs that
wait for a place move up. Both are bounded in every run in which no save fails that would
have taken a queued job out of the queue: an execution whose first save fails leaves its
job queued, and the scheduler starts it again at once.
-/
namespace Gunda.Gundad

open Gunda.Lib Gunda.Lib.Text
open Gunda.Core

variable {urls : UrlCrate}

namespace Loop

/-- The jobs that wait for a place, in the order they are started. -/
def waiting (loop : Loop urls) : List DownloadJob :=
  loop.jobs.filter fun job => job.state = .queued && job.id ∉ loop.activeJobs

/-- The first job in the line is started, and nobody joins the line. -/
def LineMoved (before after : Loop urls) : Prop :=
  ∀ first rest, before.waiting = first :: rest →
    first.id ∈ after.activeJobs ∧ after.waiting.Sublist rest

/-- Attempts are bounded, and every result that is received moves the line. -/
structure Fair (wording : Wording urls) (loop : Loop urls) : Prop where
  attempts : ∀ id, loop.sinceCommand id ≤ maxAutomaticAttempts
  moves : ∀ id result events, loop.main = .waiting → loop.events = .finished id result :: events →
    ∀ next ∈ loop.step wording .delivered, loop.LineMoved next

theorem nextQueued_eq (loop : Loop urls) : loop.nextQueued = loop.waiting.head? :=
  List.head?_filter.symm

/-- A started job leaves the line. -/
theorem waiting_launch (loop : Loop urls) (job : DownloadJob) :
    (loop.launch job).waiting = loop.waiting.filter fun other => other.id ≠ job.id := by
  unfold waiting
  rw [List.filter_filter]
  apply List.filter_congr
  intro other member
  change (decide (other.state = .queued) && decide (other.id ∉ job.id :: loop.activeJobs)) = _
  simp only [List.mem_cons, not_or, Bool.decide_and]
  rw [Bool.and_left_comm]

theorem launches_line (rounds : Nat) (loop : Loop urls) :
    (launches rounds loop).waiting.Sublist loop.waiting ∧
      ∀ id ∈ loop.activeJobs, id ∈ (launches rounds loop).activeJobs := by
  induction rounds generalizing loop with
  | zero => exact ⟨List.Sublist.refl _, fun _ member => member⟩
  | succ rounds ih =>
    unfold launches
    split
    · exact ⟨List.Sublist.refl _, fun _ member => member⟩
    · rename_i job found
      obtain ⟨fewer, still⟩ := ih (loop.launch job)
      rw [waiting_launch] at fewer
      exact ⟨fewer.trans List.filter_sublist, fun id member => still id (List.mem_cons_of_mem _ member)⟩

/-- Where a place is free, the line moves. -/
theorem line_moved {loop : Loop urls} (room : loop.activeJobs.length < maxConcurrentDownloads) :
    loop.LineMoved loop.scheduleJobs := by
  intro first rest line
  have rounds : maxConcurrentDownloads - loop.activeJobs.length =
      (maxConcurrentDownloads - loop.activeJobs.length - 1) + 1 := by omega
  have found : loop.nextQueued = some first := by
    rw [nextQueued_eq, line]
    rfl
  have started : loop.scheduleJobs =
      launches (maxConcurrentDownloads - loop.activeJobs.length - 1) (loop.launch first) := by
    unfold scheduleJobs
    rw [rounds, launches, found]
    rfl
  obtain ⟨fewer, still⟩ := launches_line
    (maxConcurrentDownloads - loop.activeJobs.length - 1) (loop.launch first)
  rw [started]
  refine ⟨still first.id List.mem_cons_self, fewer.trans ?_⟩
  rw [waiting_launch, line, List.filter_cons_of_neg (by simp)]
  exact List.filter_sublist

/-- A result that leaves its job out of the queue leaves the line as it is. -/
theorem waiting_finish {loop : Loop urls} {id : DownloadId} {result : CallResult}
    {events : List WorkerEvent} (keyed : loop.Keyed) (unqueued : ¬ Queued (loop.shown id)) :
    (finish { loop with events := events } id result).waiting = loop.waiting := by
  obtain ⟨served, active, _⟩ := finish_fields { loop with events := events } id result
  unfold waiting jobs
  rw [served, active]
  apply List.filter_congr
  intro job member
  obtain ⟨key, _, shown⟩ := List.mem_filterMap.mp member
  have named : job.id = key := keyed.keyed key job shown
  by_cases queued : job.state = .queued
  · have different : job.id ≠ id := by
      rintro same
      apply unqueued
      rw [← same, named]
      exact ⟨job, shown, queued⟩
    congr 1
    simp [different]
  · simp [queued]

end Loop

/-- Where every save over a queued job succeeds, a loop is fair. -/
theorem Loop.Sound.fair {wording : Wording urls} {loop : Loop urls} (sound : loop.Sound True) :
    loop.Fair wording := by
  refine ⟨fun id => (sound.counted trivial id).1, ?_⟩
  intro id result events waiting pending next stepped
  have delivers : Delivers True result (loop.shown id) := by
    apply sound.finished id result
    rw [pending]
    exact List.mem_cons_self
  have unqueued : ¬ Queued (loop.shown id) := fun queued => delivers.unqueued queued trivial
  have reacted : loop.react wording .delivered =
      some (Loop.finish { loop with events := events } id result, true) := by
    unfold Loop.react
    rw [waiting, pending]
    rfl
  have same : next = (Loop.finish { loop with events := events } id result).scheduleJobs := by
    rw [Loop.step, reacted] at stepped
    exact (Option.some.inj stepped).symm
  have line := @Loop.waiting_finish _ loop id result events sound.keyed unqueued
  have room : (Loop.finish { loop with events := events } id result).activeJobs.length <
      maxConcurrentDownloads := by
    have member : id ∈ loop.activeJobs := by
      rw [sound.delivers.mem_iff, Loop.undelivered, pending]
      exact List.mem_append_right _ List.mem_cons_self
    rw [(finish_fields _ id result).2.1]
    have fewer : (loop.activeJobs.filter (· ≠ id)).length < loop.activeJobs.length :=
      List.length_filter_lt_length_iff_exists.mpr ⟨id, member, by simp⟩
    exact Nat.lt_of_lt_of_le fewer sound.bounded
  intro first rest ahead
  rw [same]
  exact Loop.line_moved room first rest (line.trans ahead)

/-- In every run in which storage answers the workers' saves of queued jobs. -/
theorem attempts_bounded {wording : Wording urls} {persisted : List DownloadJob}
    {events : List (LoopEvent urls)} {loop : Loop urls}
    (kept : Machine.Meets (Loop.step wording) SavesKept (Loop.start urls persisted) events)
    (ran : Machine.run (Loop.step wording) (Loop.start urls persisted) events = some loop) :
    loop.Fair wording := by
  have sound : loop.Sound True := sound_of_run (fun _ => kept) ran
  exact sound.fair

instance Queued.decide (shown : Option DownloadJob) : Decidable (Queued shown) :=
  decidable_of_iff (∃ job ∈ shown, job.state = .queued) Iff.rfl

instance LosesQueued.decide (jobs : DownloadId → Option DownloadJob) (op : ServiceOp)
    (choice : ServiceChoice) : Decidable (LosesQueued jobs op choice) := by
  unfold LosesQueued
  split <;> infer_instance

instance Admits.decide {Op : Type} {Ans : Op → Type} {Choice α σ : Type}
    (admits : ServiceOp → ServiceChoice → σ → Prop) [∀ op choice s, Decidable (admits op choice s)]
    (task : Task Op Ans α) (move : Move Choice) (s : σ) : Decidable (task.Admits admits move s) := by
  unfold Task.Admits
  split <;> infer_instance

instance SavesKept.decide (loop : Loop urls) (event : LoopEvent urls) :
    Decidable (SavesKept loop event) := by
  unfold SavesKept
  split <;> infer_instance

/-- The worker takes up its job and begins to save it. -/
def saving (index : Nat) (result : Except RepositoryError OffsetDateTime) :
    List (LoopEvent cdnCrate) :=
  .worker index .proceeds ::
    [.settled, .requested none, .clock 0, .settled, .stored result, .settled].map
      fun choice => .worker index (.served (.managed choice))

theorem saved_job_fair :
    ∃ loop, Machine.run (Loop.step plainWording) (Loop.start cdnCrate [waitingJob firstJob.1])
        (startup ++ .captured :: saving 0 (.ok 1)) = some loop ∧
      loop.sinceCommand firstJob.1 = 1 ∧ loop.Fair plainWording := by
  have started : (Machine.run (Loop.step plainWording) (Loop.start cdnCrate [waitingJob firstJob.1])
      (startup ++ .captured :: saving 0 (.ok 1))).map (·.sinceCommand firstJob.1) = some 1 := by
    decide +kernel
  obtain ⟨loop, ran, one⟩ := Option.map_eq_some_iff.mp started
  exact ⟨loop, ran, one, attempts_bounded (by decide +kernel) ran⟩

/-- The worker's save fails, its result is received and the scheduler starts the job again. -/
def failing (index : Nat) : List (LoopEvent cdnCrate) :=
  saving index (.error ⟨.unavailable, "database is locked"⟩) ++
    [.worker index .proceeds, .worker index .proceeds, .delivered]

def fourJobs : List DownloadJob :=
  [waitingJob ⟨1, Int.one_pos⟩, waitingJob ⟨2, Core.two_positive⟩, waitingJob ⟨3, by decide⟩,
    waitingJob ⟨4, by decide⟩]

/-- The scheduler prefers the first job however often its save fails: it is executed more
often than the limit, and the fourth job still waits. -/
theorem failing_saves_unfair :
    ∃ loop, Machine.run (Loop.step plainWording) (Loop.start cdnCrate fourJobs)
        (startup ++ .captured :: (failing 0 ++ failing 2 ++ failing 2 ++ saving 2 (.ok 1))) =
          some loop ∧
      (loop.sinceCommand ⟨1, by decide⟩, loop.waiting.map (·.id.value)) = (4, [4]) ∧
      ¬ loop.Fair plainWording := by
  have started : (Machine.run (Loop.step plainWording) (Loop.start cdnCrate fourJobs)
      (startup ++ .captured :: (failing 0 ++ failing 2 ++ failing 2 ++ saving 2 (.ok 1)))).map
        (fun loop => (loop.sinceCommand ⟨1, by decide⟩, loop.waiting.map (·.id.value))) =
      some (4, [4]) := by
    decide +kernel
  obtain ⟨loop, ran, same⟩ := Option.map_eq_some_iff.mp started
  refine ⟨loop, ran, same, fun fair => ?_⟩
  have executions : loop.sinceCommand ⟨1, by decide⟩ = 4 := congrArg Prod.fst same
  have few := fair.attempts ⟨1, by decide⟩
  rw [executions] at few
  exact absurd few (by decide)

end Gunda.Gundad

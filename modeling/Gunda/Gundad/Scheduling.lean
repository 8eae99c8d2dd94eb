import Gunda.Gundad.Duplicates
import Gunda.Gundad.Turns

/-!
# Scheduling

Over every run of the loop: an identifier is active exactly while one worker for it has
not delivered its result, workers stay within their bound, only queued jobs are started,
and the main task never calls the manager for an active job. Whether storage is reliable
is left open: what depends on it is claimed only where it is.
-/
namespace Gunda.Gundad

open Gunda.Lib Gunda.Lib.Text
open Gunda.Core

variable {urls : UrlCrate}
variable {before after loop : Loop urls} {served : ServedWorld} {id : DownloadId}
    {job : DownloadJob} {reliable : Prop} {task next : Task WorkerOp WorkerOp.Answer CallResult}
    {worker : Worker} {index : Nat} {result : CallResult} {move : Move Unit}
    {wording : Wording urls} {events : List WorkerEvent} {schedules : Bool}

def WorkerEvent.finishedId : WorkerEvent → Option DownloadId
  | .finished id _ => some id
  | _ => none

namespace Loop

/-- The jobs of the workers that run and of the results not received yet. -/
def undelivered (loop : Loop urls) : List DownloadId :=
  loop.workers.map (·.id) ++ loop.events.filterMap (·.finishedId)

/-- What a worker for this job sees. -/
def worked (loop : Loop urls) (id : DownloadId) : WorkerView := (loop.shown id, loop.sinceLaunch id)

/-- What the main task sees. -/
def idle (loop : Loop urls) : Idle where
  active := loop.activeJobs
  shown id := if id ∈ loop.activeJobs then none else loop.shown id
  outputs := loop.pendingOutputs
  fresh id := id ∈ loop.activeJobs ∨ loop.sinceCommand id = 0

/-- The manager's map names its jobs, and knows every job that is active or was executed. -/
structure Keyed (loop : Loop urls) : Prop where
  keyed : ∀ id job, loop.shown id = some job → job.id = id
  known : ∀ id ∈ loop.activeJobs, loop.shown id ≠ none
  unknown : ∀ id, loop.shown id = none → loop.sinceCommand id = 0

end Loop

/-! ## The terms hold of the loop -/

theorem idle_of_shown (active : after.activeJobs = before.activeJobs)
    (shown : ∀ id, id ∉ before.activeJobs → after.shown id = before.shown id)
    (outputs : after.pendingOutputs = before.pendingOutputs)
    (counts : ∀ id, id ∉ before.activeJobs → after.sinceCommand id = before.sinceCommand id) :
    after.idle = before.idle := by
  unfold Loop.idle
  rw [active, outputs]
  congr 1
  · funext id
    split
    · rfl
    · rename_i idle
      exact shown id idle
  · funext id
    by_cases running : id ∈ before.activeJobs
    · simp only [running, true_or]
    · rw [counts id running]

/-- The main task's entry of a job that is not active. -/
theorem idle_insert (idle : id ∉ loop.activeJobs)
    (jobs : served.world.jobs = upsert loop.served.world.jobs id job) :
    Loop.idle { loop with served := served } = loop.idle.show_ id (some job) := by
  unfold Loop.idle Idle.show_
  congr 1
  funext other
  dsimp only [Loop.shown]
  by_cases same : other = id
  · subst same
    rw [if_neg idle, if_pos rfl, jobs, upsert_self]
  · rw [if_neg same, jobs, upsert_of_ne _ _ same]

theorem idle_served (jobs : served.world.jobs = loop.served.world.jobs) :
    Loop.idle { loop with served := served } = loop.idle := by
  refine idle_of_shown rfl (fun id _ => ?_) rfl fun _ _ => rfl
  exact congrFun jobs id

variable {pendingEngines : DownloadId → Option JobEngine}

/-- A command for a job, or its creation. -/
theorem idle_commanded {record : Record} {main : Main urls}
    (names : ∀ other, record.commands other = decide (id = other))
    (quiet : ∀ other, record.executes other = false) :
    Loop.idle { loop with
      pendingEngines := pendingEngines
      main := main
      history := record :: loop.history } =
        { loop.idle with fresh := fun other => other = id ∨ loop.idle.fresh other } := by
  unfold Loop.idle
  congr 1
  funext other
  apply propext
  by_cases same : other = id
  · subst same
    refine ⟨fun _ => .inl rfl, fun _ => .inr ?_⟩
    apply executionsSince_of_since
    rw [names]
    exact decide_eq_true rfl
  · have counts : executionsSince Record.commands (record :: loop.history) other =
        executionsSince Record.commands loop.history other := by
      refine executionsSince_of_quiet ?_ (quiet other)
      rw [names]
      exact decide_eq_false fun here => same here.symm
    change (_ ∨ executionsSince _ _ other = 0) ↔ _
    rw [counts]
    exact ⟨.inr, fun h => h.resolve_left same⟩

theorem main_holds (wording : Wording urls) :
    (mainTerms urls).Holds (Loop.mainHost wording) Loop.idle Loop.Keyed fun _ _ _ => True := by
  constructor
  · intro op choice loop answer later keyed _ required served
    obtain ⟨⟨given, after⟩, answered, same⟩ := Option.map_eq_some_iff.mp served
    cases same
    have jobs := (serveAs_world answered).1
    cases op with
    | list => exact idle_served jobs
    | expose exposed => exact ⟨rfl, rfl, rfl⟩
    | createRow download createdAt => exact idle_served jobs
    | managed op =>
      cases op with
      | job id =>
        have found := serveAs_job answered
        refine ⟨idle_served jobs, ?_, ?_, ?_⟩
        · exact fun job some_ => keyed.keyed id job (found.symm.trans some_)
        · intro idle
          exact found.trans (if_neg idle).symm
        · intro missing
          have absent : loop.shown id = none := found.symm.trans missing
          exact ⟨fun active => keyed.known id active absent, .inr (keyed.unknown id absent)⟩
      | insert id job => exact idle_insert required.1 jobs
      | save candidate => exact ⟨idle_served jobs, (serveAs_save answered).1⟩
      | _ => exact idle_served jobs
  · intro op choice loop answer later _ _ performed
    cases op with
    | isActive id =>
      cases choice <;> cases performed
      exact ⟨rfl, rfl⟩
    | pendingOutput id =>
      cases choice <;> cases performed
      exact ⟨rfl, rfl⟩
    | queueCreated id engine =>
      cases choice <;> cases performed
      exact idle_commanded (fun _ => rfl) fun _ => rfl
    | _ =>
      cases choice <;> cases performed
      rfl
  · intro operation loop _ begins
    refine idle_of_shown rfl (fun _ _ => rfl) rfl fun id _ => ?_
    apply executionsSince_of_quiet rfl
    cases operation with
    | execute other => exact absurd rfl (begins.1 other)
    | _ => rfl

/-- A choice the terms of a worker admit. -/
def Admitted (reliable : Prop) (op : ServiceOp) (choice : ServiceChoice) (loop : Loop urls) :
    Prop :=
  reliable → ¬ LosesQueued loop.served.world.jobs op choice

theorem worker_holds (id : DownloadId) (number : Nat) (reliable : Prop) :
    (workerTerms id reliable).Holds (Loop.workerHost urls number) (Loop.worked · id) Loop.Keyed
      (Admitted reliable) := by
  constructor
  · intro op choice loop answer later keyed admitted required served
    obtain ⟨⟨given, after⟩, answered, same⟩ := Option.map_eq_some_iff.mp served
    cases same
    have jobs := (serveAs_world answered).1
    refine ⟨?_, rfl⟩
    cases op with
    | managed op =>
      cases op with
      | job key =>
        have found := serveAs_job answered
        refine ⟨congrFun jobs id, ?_, ?_⟩
        · rintro rfl
          exact found
        · exact fun job some_ => keyed.keyed key job (found.symm.trans some_)
      | insert key job =>
        obtain ⟨rfl, _⟩ := required
        refine (congrFun jobs key).trans ?_
        exact upsert_self _ _ _
      | save candidate =>
        obtain ⟨stamps, kept⟩ := serveAs_save answered
        refine ⟨congrFun jobs id, stamps, fun holds queued => kept (admitted holds) ?_⟩
        rw [show candidate.id = id from required]
        exact queued
      | _ => exact congrFun jobs id
    | _ => exact required.elim
  · intro op choice loop answer later _ _ performed
    cases op <;> cases performed <;> rfl
  · intro operation loop _ begins
    rcases begins with ⟨rfl, _⟩ | rfl
    · have counted : executionsSince Record.launches (.called (.execute id) :: loop.history) id =
          executionsSince Record.launches loop.history id + 1 :=
        executionsSince_of_executes rfl (decide_eq_true rfl)
      exact congrArg (Prod.mk (loop.shown id)) counted
    · have counted : executionsSince Record.launches (.called (.retry id) :: loop.history) id =
          executionsSince Record.launches loop.history id := executionsSince_of_quiet rfl rfl
      exact congrArg (Prod.mk (loop.shown id)) counted

/-! ## Soundness -/

/-- A worker keeps its terms and calls the manager only for its job. -/
structure Worker.Sound (reliable : Prop) (view : WorkerView) (worker : Worker) : Prop where
  safe : worker.task.Safe (workerTerms worker.id reliable)
    (fun result t => Delivers reliable result t.1) view
  calls : ∀ operation ∈ worker.task.call,
    operation = .execute worker.id ∨ operation = .retry worker.id

/-- The main task is settled between commands and keeps its terms during one. -/
def Main.Sound (reliable : Prop) (view : Idle) : Main urls → Prop
  | .starting program => view.Alone ∧ (∀ id, view.outputs id = none) ∧
      Program.wp Idle.spec program (fun _ _ => True) view
  | .waiting => view.Settled reliable
  | .handling task =>
      task.Safe (mainTerms urls) (fun _ t => t.Settled reliable) view ∧
        ∀ operation ∈ task.call, ∀ id ∈ callTarget operation, id ∉ view.active
  | .ended => True

structure Loop.Sound (reliable : Prop) (loop : Loop urls) : Prop where
  keyed : loop.Keyed
  delivers : loop.activeJobs.Perm loop.undelivered
  single : loop.activeJobs.Nodup
  bounded : loop.activeJobs.length ≤ maxConcurrentDownloads
  queued : ∀ job engine, .launched job engine ∈ loop.history → job.state = .queued
  workers : ∀ worker ∈ loop.workers, worker.Sound reliable (loop.worked worker.id)
  finished : ∀ id result, .finished id result ∈ loop.events →
    Delivers reliable result (loop.shown id)
  main : loop.main.Sound reliable loop.idle
  counted : reliable → ∀ id, loop.sinceCommand id ≤ maxAutomaticAttempts ∧
    (id ∈ loop.activeJobs → loop.sinceCommand id ≤ loop.sinceLaunch id)

/-! ## Moves of workers -/

/-- What a move of a worker does to the rest of the loop. -/
structure Aside (id : DownloadId) (before after : Loop urls) : Prop where
  shown : ∀ other, other ≠ id → after.shown other = before.shown other
  known : before.shown id ≠ none → after.shown id ≠ none
  named : (∀ job, before.shown id = some job → job.id = id) →
    ∀ job, after.shown id = some job → job.id = id
  active : after.activeJobs = before.activeJobs
  outputs : after.pendingOutputs = before.pendingOutputs
  finished : after.events.filterMap (·.finishedId) = before.events.filterMap (·.finishedId)
  events : ∀ other result, .finished other result ∈ after.events →
    .finished other result ∈ before.events
  launched : ∀ job engine, .launched job engine ∈ after.history →
    .launched job engine ∈ before.history
  launches : ∀ other, other ≠ id → after.sinceLaunch other = before.sinceLaunch other
  commands : ∀ other, other ≠ id → after.sinceCommand other = before.sinceCommand other
  counts : after.sinceLaunch id = before.sinceLaunch id ∧
      after.sinceCommand id = before.sinceCommand id ∨
    after.sinceLaunch id = before.sinceLaunch id + 1 ∧
      after.sinceCommand id = before.sinceCommand id + 1 ∧
      before.sinceLaunch id < maxAutomaticAttempts
  main : after.main = before.main

theorem Aside.refl (id : DownloadId) (loop : Loop urls) : Aside id loop loop where
  shown _ _ := rfl
  known h := h
  named h := h
  active := rfl
  outputs := rfl
  finished := rfl
  events _ _ h := h
  launched _ _ h := h
  launches _ _ := rfl
  commands _ _ := rfl
  counts := .inl ⟨rfl, rfl⟩
  main := rfl

/-- Events that deliver no result. -/
def WorkerEvent.Passing (event : WorkerEvent) : Prop := event.finishedId = none

theorem passing_append {events more : List WorkerEvent} (passing : ∀ event ∈ more, event.Passing) :
    (events ++ more).filterMap (·.finishedId) = events.filterMap (·.finishedId) ∧
      ∀ id result, .finished id result ∈ events ++ more → .finished id result ∈ events := by
  constructor
  · rw [List.filterMap_append, List.filterMap_eq_nil_iff.mpr passing, List.append_nil]
  · intro id result member
    rcases List.mem_append.mp member with old | new
    · exact old
    · cases passing _ new

/-- A call is an execution of its own job only. -/
theorem executes_called {operation : Operation} (h : operation ≠ .execute id) :
    (Record.called operation).executes id = false := by
  cases operation with
  | execute other => exact decide_eq_false fun same => h (congrArg _ same)
  | _ => rfl

theorem announced_passing (op : ServiceOp) : ∀ event ∈ Loop.announced op, event.Passing := by
  intro event member
  unfold Loop.announced at member
  split at member
  · rw [List.mem_singleton.mp member]
    rfl
  · cases member

theorem aside_of_moved {number : Nat}
    (moved : task.Moved (workerTerms id reliable) (Loop.workerHost urls number) (Loop.worked · id)
      next before after) : Aside id before after := by
  cases moved with
  | returned same call =>
    rw [same]
    exact .refl id before
  | performed op choice answer required answered call =>
    cases op with
    | wait seconds =>
      cases answered
      exact .refl id before
    | send event =>
      cases answered
      have passing : ∀ other ∈ [event], other.Passing := by
        intro other member
        rw [List.mem_singleton.mp member]
        cases event with
        | finished _ _ => exact required.elim
        | _ => rfl
      obtain ⟨finished, events⟩ := @passing_append before.events _ passing
      exact { Aside.refl id before with finished := finished, events := events }
  | noted operation begins same call =>
    rw [same]
    have elsewhere : ∀ other, other ≠ id → (Record.called operation).executes other = false := by
      intro other different
      apply executes_called
      rintro rfl
      rcases begins with ⟨here, _⟩ | here
      · cases here
        exact different rfl
      · cases here
    refine { Aside.refl id before with
      launched := ?_
      launches := fun other different => executionsSince_of_quiet rfl (elsewhere other different)
      commands := fun other different => executionsSince_of_quiet rfl (elsewhere other different)
      counts := ?_ }
    · intro job engine member
      rcases List.mem_cons.mp member with impossible | old
      · cases impossible
      · exact old
    · rcases begins with ⟨rfl, room⟩ | rfl
      · exact .inr ⟨executionsSince_of_executes rfl (decide_eq_true rfl),
          executionsSince_of_executes rfl (decide_eq_true rfl), room⟩
      · exact .inl ⟨executionsSince_of_quiet rfl rfl, executionsSince_of_quiet rfl rfl⟩
  | served op choice answer required answered call =>
    obtain ⟨⟨given, world⟩, responded, same⟩ := Option.map_eq_some_iff.mp answered
    cases same
    have jobs := (serveAs_world responded).1
    obtain ⟨finished, events⟩ := @passing_append before.events _ (announced_passing op)
    have shown : ∀ other, shownAfter before.served.world.jobs op other = before.shown other ∨
        other = id ∧ ∃ job, shownAfter before.served.world.jobs op other = some job ∧ job.id = id := by
      intro other
      cases op with
      | managed op =>
        cases op with
        | insert key job =>
          obtain ⟨rfl, named⟩ := required
          by_cases same : other = key
          · exact .inr ⟨same, job, by rw [same]; exact upsert_self _ _ _, named⟩
          · exact .inl (upsert_of_ne _ _ same)
        | _ => exact .inl rfl
      | _ => exact required.elim
    refine { Aside.refl id before with
      shown := ?_
      known := ?_
      named := ?_
      finished := finished
      events := events }
    · intro other different
      refine (congrFun jobs other).trans ?_
      rcases shown other with kept | ⟨here, _⟩
      · exact kept
      · exact absurd here different
    · intro present
      change world.world.jobs id ≠ none
      rw [jobs]
      rcases shown id with kept | ⟨_, job, stored, _⟩
      · rw [kept]
        exact present
      · rw [stored]
        nofun
    · intro named job found
      change world.world.jobs id = some job at found
      rw [jobs] at found
      rcases shown id with kept | ⟨_, stored, same, key⟩
      · exact named job (kept.symm.trans found)
      · rw [same] at found
        cases found
        exact key

section

variable (aside : Aside id before after)
include aside

/-- What a worker's move leaves of everything but the worker. -/
theorem Aside.keyed (active : id ∈ before.activeJobs) (keyed : before.Keyed) : after.Keyed := by
  constructor
  · intro other job found
    by_cases same : other = id
    · subst same
      exact aside.named (keyed.keyed other) job found
    · exact keyed.keyed other job ((aside.shown other same).symm.trans found)
  · intro other member
    rw [aside.active] at member
    by_cases same : other = id
    · subst same
      exact aside.known (keyed.known other member)
    · rw [aside.shown other same]
      exact keyed.known other member
  · intro other missing
    by_cases same : other = id
    · subst same
      exact absurd missing (aside.known (keyed.known other active))
    · rw [aside.commands other same]
      exact keyed.unknown other ((aside.shown other same).symm.trans missing)

theorem Aside.idle (active : id ∈ before.activeJobs) :
    after.idle = before.idle := by
  have elsewhere : ∀ other, other ∉ before.activeJobs → other ≠ id := by
    rintro other absent rfl
    exact absent active
  exact idle_of_shown aside.active (fun other absent => aside.shown other (elsewhere other absent))
    aside.outputs fun other absent => aside.commands other (elsewhere other absent)

theorem Aside.worked {other : DownloadId} (different : other ≠ id) :
    after.worked other = before.worked other := by
  unfold Loop.worked
  rw [aside.shown other different, aside.launches other different]

theorem Aside.counted (active : id ∈ before.activeJobs)
    (counted : ∀ other, before.sinceCommand other ≤ maxAutomaticAttempts ∧
      (other ∈ before.activeJobs → before.sinceCommand other ≤ before.sinceLaunch other)) :
    ∀ other, after.sinceCommand other ≤ maxAutomaticAttempts ∧
      (other ∈ after.activeJobs → after.sinceCommand other ≤ after.sinceLaunch other) := by
  intro other
  rw [aside.active]
  by_cases same : other = id
  · subst same
    have bound := (counted other).2 active
    rcases aside.counts with ⟨launches, commands⟩ | ⟨launches, commands, room⟩
    · rw [launches, commands]
      exact counted other
    · rw [launches, commands]
      exact ⟨by omega, fun _ => by omega⟩
  · rw [aside.launches other same, aside.commands other same]
    exact counted other

end

section

variable (sound : loop.Sound reliable)
include sound

theorem Loop.Sound.workers_active (member : worker ∈ loop.workers) :
    worker.id ∈ loop.activeJobs := by
  rw [sound.delivers.mem_iff]
  exact List.mem_append_left _ (List.mem_map_of_mem member)

/-- Two workers never run the same job. -/
theorem Loop.Sound.workers_distinct : (loop.workers.map (·.id)).Nodup :=
  (List.nodup_append.mp (sound.delivers.nodup_iff.mp sound.single)).1

/-- A worker that waits for its turn runs another job than the one at this place. -/
theorem Loop.Sound.elsewhere {place : Nat} {other : Worker}
    (here : loop.workers[index]? = some worker) (there : loop.workers[place]? = some other)
    (different : index ≠ place) :
    other.id ≠ worker.id := by
  intro same
  apply different
  have distinct := sound.workers_distinct
  have inside : index < (loop.workers.map (·.id)).length := by
    rw [List.length_map]
    exact (List.getElem?_eq_some_iff.mp here).1
  apply (List.getElem?_inj inside distinct).mp
  rw [List.getElem?_map, List.getElem?_map, here, there]
  exact congrArg some same.symm

/-- A job whose result waits is not run by a worker. -/
theorem Loop.Sound.finished_elsewhere
    (member : worker ∈ loop.workers) (waits : .finished id result ∈ loop.events) :
    id ≠ worker.id := by
  have apart := (List.nodup_append.mp (sound.delivers.nodup_iff.mp sound.single)).2.2
  intro same
  apply apart worker.id (List.mem_map_of_mem member) id
  · exact List.mem_filterMap.mpr ⟨_, waits, rfl⟩
  · exact same.symm

omit sound in
theorem call_of_moved {number : Nat}
    (calls : ∀ operation ∈ task.call, operation = .execute id ∨ operation = .retry id)
    (moved : task.Moved (workerTerms id reliable) (Loop.workerHost urls number) (Loop.worked · id)
      next before after) :
    ∀ operation ∈ next.call, operation = .execute id ∨ operation = .retry id := by
  intro operation member
  cases moved with
  | noted begun begins same call =>
    rw [call] at member
    cases member
    rcases begins with ⟨rfl, _⟩ | rfl
    · exact .inl rfl
    · exact .inr rfl
  | performed op choice answer required answered call =>
    rw [call] at member
    cases member
  | served op choice answer required answered call =>
    rw [call] at member
    exact calls operation member
  | returned same call =>
    rw [call] at member
    cases member

omit sound in
theorem map_set_self {α β : Type} {f : α → β} {list : List α} {old new : α}
    (found : list[index]? = some old) (same : f new = f old) :
    (list.set index new).map f = list.map f := by
  apply List.ext_getElem?
  intro other
  by_cases here : index = other
  · rw [← here, List.getElem?_map, List.getElem?_map, found,
      List.getElem?_set_self (List.getElem?_eq_some_iff.mp found).1, Option.map_some, same]
    rfl
  · rw [List.getElem?_map, List.getElem?_map, List.getElem?_set_ne here]

/-- A worker moves: the loop stays sound. -/
theorem Loop.Sound.worker_moved (found : loop.workers[index]? = some worker)
    (admitted : worker.task.Admits (Admitted reliable) move loop)
    (stepped : worker.task.step (Loop.workerHost urls worker.number) move loop =
      some (next, after)) :
    Loop.Sound reliable { after with
      workers := loop.workers.set index { worker with task := next } } := by
  have member : worker ∈ loop.workers := List.mem_of_getElem? found
  have active := sound.workers_active member
  have own := sound.workers worker member
  have moved : worker.task.Moved (workerTerms worker.id reliable)
      (Loop.workerHost urls worker.number) (Loop.worked · worker.id) next loop after :=
    Task.Safe.moved own.safe stepped
  have aside := aside_of_moved moved
  have stays : Aside worker.id loop { after with
      workers := loop.workers.set index { worker with task := next } } := { aside with }
  constructor
  · exact stays.keyed active sound.keyed
  · have ids : (loop.workers.set index { worker with task := next }).map (·.id) =
        loop.workers.map (·.id) := map_set_self found rfl
    change after.activeJobs.Perm (_ ++ _)
    rw [ids, aside.finished, aside.active]
    exact sound.delivers
  · rw [stays.active]
    exact sound.single
  · rw [stays.active]
    exact sound.bounded
  · exact fun job engine launched => sound.queued job engine (stays.launched job engine launched)
  · intro other listed
    obtain ⟨place, at_⟩ := List.mem_iff_getElem?.mp listed
    by_cases here : index = place
    · subst here
      rw [List.getElem?_set_self (List.getElem?_eq_some_iff.mp found).1] at at_
      cases at_
      have safe : next.Safe (workerTerms worker.id reliable)
          (fun result t => Delivers reliable result t.1) (after.worked worker.id) :=
        Task.Safe.step (worker_holds worker.id worker.number reliable) sound.keyed admitted
          own.safe stepped
      exact ⟨safe, call_of_moved own.calls moved⟩
    · rw [List.getElem?_set_ne here] at at_
      rw [stays.worked (sound.elsewhere found at_ here)]
      exact sound.workers other (List.mem_of_getElem? at_)
  · intro id result waits
    have earlier := stays.events id result waits
    rw [stays.shown id (sound.finished_elsewhere member earlier)]
    exact sound.finished id result earlier
  · rw [stays.idle active]
    change after.main.Sound reliable loop.idle
    rw [aside.main]
    exact sound.main
  · exact fun holds => stays.counted active (sound.counted holds)

omit sound in
theorem cons_eraseIdx_perm {α : Type} {list : List α} {value : α}
    (found : list[index]? = some value) : (value :: list.eraseIdx index).Perm list := by
  induction list generalizing index with
  | nil => cases found
  | cons head tail ih =>
    cases index with
    | zero =>
      cases found
      exact List.Perm.refl _
    | succ index =>
      rw [List.eraseIdx_cons_succ]
      exact (List.Perm.swap head value _).trans ((ih found).cons head)

/-- A worker sends its result and is gone. -/
theorem Loop.Sound.worker_ended
    (found : loop.workers[index]? = some worker) (ended : worker.task = .running (.done result)) :
    Loop.Sound reliable { loop with
      workers := loop.workers.eraseIdx index
      events := loop.events ++ [.finished worker.id result] } := by
  have member : worker ∈ loop.workers := List.mem_of_getElem? found
  have delivered : Delivers reliable result (loop.shown worker.id) := by
    have safe := (sound.workers worker member).safe
    rw [ended] at safe
    exact safe
  refine ⟨⟨sound.keyed.keyed, sound.keyed.known, sound.keyed.unknown⟩, ?_, sound.single,
    sound.bounded, sound.queued, ?_, ?_, sound.main, sound.counted⟩
  · have erased : (worker.id :: (loop.workers.eraseIdx index).map (·.id)).Perm
        (loop.workers.map (·.id)) := (cons_eraseIdx_perm found).map Worker.id
    apply sound.delivers.trans
    change (_ ++ _ : List DownloadId).Perm
      (_ ++ (loop.events ++ [WorkerEvent.finished worker.id result]).filterMap (·.finishedId))
    rw [List.filterMap_append, ← List.append_assoc]
    refine List.Perm.trans (List.Perm.append_right _ erased.symm) ?_
    exact (List.perm_append_singleton worker.id _).symm
  · intro other listed
    exact sound.workers other (List.mem_of_mem_eraseIdx listed)
  · intro id value waits
    rcases List.mem_append.mp waits with earlier | new
    · exact sound.finished id value earlier
    · cases List.mem_singleton.mp new
      exact delivered

/-! ## Moves of the main task -/

/-- What a move of the main task does to the jobs that workers run. -/
structure Beside (before after : Loop urls) : Prop where
  shown : ∀ id ∈ before.activeJobs, after.shown id = before.shown id
  keyed : before.Keyed → after.Keyed
  active : after.activeJobs = before.activeJobs
  workers : after.workers = before.workers
  events : after.events = before.events
  launched : ∀ job engine, .launched job engine ∈ after.history →
    .launched job engine ∈ before.history
  launches : ∀ id, after.sinceLaunch id = before.sinceLaunch id
  commands : ∀ id, after.sinceCommand id ≤ before.sinceCommand id

omit sound in
theorem Beside.refl (loop : Loop urls) : Beside loop loop where
  shown _ _ := rfl
  keyed h := h
  active := rfl
  workers := rfl
  events := rfl
  launched _ _ h := h
  launches _ := rfl
  commands _ := Nat.le_refl _

omit sound in
/-- Fields that are not looked at. -/
theorem Beside.of_eq (served : after.served = before.served)
    (active : after.activeJobs = before.activeJobs) (workers : after.workers = before.workers)
    (events : after.events = before.events) (history : after.history = before.history) :
    Beside before after := by
  have shown : ∀ id, after.shown id = before.shown id := by
    intro id
    unfold Loop.shown
    rw [served]
  have counts : ∀ id, after.sinceCommand id = before.sinceCommand id := by
    intro id
    unfold Loop.sinceCommand
    rw [history]
  refine ⟨fun id _ => shown id, fun keyed => ⟨?_, ?_, ?_⟩, active, workers, events, ?_, ?_, ?_⟩
  · exact fun id job found => keyed.keyed id job ((shown id).symm.trans found)
  · intro id member
    rw [active] at member
    rw [shown]
    exact keyed.known id member
  · intro id missing
    rw [counts]
    exact keyed.unknown id ((shown id).symm.trans missing)
  · rw [history]
    exact fun _ _ member => member
  · intro id
    unfold Loop.sinceLaunch
    rw [history]
  · exact fun id => Nat.le_of_eq (counts id)

omit sound in
/-- A call of the main task shows other jobs only, or is a start. -/
theorem served_beside {op : ServiceOp} {choice : ServiceChoice} {answer : op.Answer}
    (required : Idle.spec.requires op loop.idle)
    (answered : serveAs 0 op choice loop.served = some (answer, served)) :
    Beside loop { loop with served := served } := by
  have jobs : ∀ id, served.world.jobs id = shownAfter loop.served.world.jobs op id :=
    congrFun (serveAs_world answered).1
  have quiet : (∀ id, shownAfter loop.served.world.jobs op id = loop.shown id) →
      Beside loop { loop with served := served } := by
    intro same
    have shown : ∀ id, served.world.jobs id = loop.shown id := fun id => (jobs id).trans (same id)
    refine { Beside.refl loop with shown := fun id _ => shown id, keyed := ?_ }
    intro keyed
    exact ⟨fun id job found => keyed.keyed id job ((shown id).symm.trans found),
      fun id member missing => keyed.known id member ((shown id).symm.trans missing),
      fun id missing => keyed.unknown id ((shown id).symm.trans missing)⟩
  cases op with
  | list => exact quiet fun _ => rfl
  | createRow download createdAt => exact quiet fun _ => rfl
  | expose exposed =>
    obtain ⟨alone, fresh⟩ := required
    have none_ : loop.activeJobs = [] := alone
    refine { Beside.refl loop with shown := ?_, keyed := ?_ }
    · intro id member
      rw [none_] at member
      cases member
    · intro keyed
      refine ⟨?_, ?_, ?_⟩
      · intro id job found
        have listed := List.find?_some ((jobs id).symm.trans found)
        exact of_decide_eq_true listed
      · intro id member
        rw [show Loop.activeJobs _ = _ from none_] at member
        cases member
      · intro id _
        rcases fresh id with member | zero
        · rw [none_] at member
          cases member
        · exact zero
  | managed op =>
    cases op with
    | insert key job =>
      obtain ⟨idle, named, _⟩ := required
      have elsewhere : ∀ id, id ≠ key → served.world.jobs id = loop.shown id :=
        fun id different => (jobs id).trans (upsert_of_ne _ _ different)
      have here : served.world.jobs key = some job := (jobs key).trans (upsert_self _ _ _)
      refine { Beside.refl loop with shown := ?_, keyed := ?_ }
      · rintro id member
        apply elsewhere
        rintro rfl
        exact idle member
      · intro keyed
        refine ⟨?_, ?_, ?_⟩
        · intro id other found
          by_cases same : id = key
          · subst same
            cases here.symm.trans found
            exact named
          · exact keyed.keyed id other ((elsewhere id same).symm.trans found)
        · intro id member missing
          by_cases same : id = key
          · exact idle (same ▸ member)
          · exact keyed.known id member ((elsewhere id same).symm.trans missing)
        · intro id missing
          by_cases same : id = key
          · subst same
            cases here.symm.trans missing
          · exact keyed.unknown id ((elsewhere id same).symm.trans missing)
    | _ => exact quiet fun _ => rfl

omit sound in
/-- A record no execution is counted by, perhaps one that counts are taken from. -/
theorem beside_of_record {record : Record}
    (unlaunched : ∀ job engine, record ≠ .launched job engine)
    (launches : ∀ id, record.launches id = false) (quiet : ∀ id, record.executes id = false) :
    Beside before { before with
      pendingEngines := pendingEngines
      history := record :: before.history } := by
  have commands : ∀ id, executionsSince Record.commands (record :: before.history) id ≤
      executionsSince Record.commands before.history id := by
    intro id
    cases named : record.commands id with
    | true =>
      rw [executionsSince_of_since named]
      exact Nat.zero_le _
    | false => exact Nat.le_of_eq (executionsSince_of_quiet named (quiet id))
  refine { Beside.refl before with
    keyed := ?_
    launched := ?_
    launches := fun id => executionsSince_of_quiet (launches id) (quiet id)
    commands := commands }
  · intro keyed
    refine ⟨keyed.keyed, keyed.known, fun id missing => ?_⟩
    exact Nat.le_zero.mp (Nat.le_trans (commands id) (Nat.le_of_eq (keyed.unknown id missing)))
  · intro job engine member
    rcases List.mem_cons.mp member with new | old
    · exact absurd new.symm (unlaunched job engine)
    · exact old

omit sound in
theorem beside_of_moved {task next : MainTask urls}
    (moved : task.Moved (mainTerms urls) (Loop.mainHost wording) Loop.idle next before after) :
    Beside before after := by
  cases moved with
  | returned same call =>
    rw [same]
    exact .refl before
  | noted operation begins same call =>
    rw [same]
    have record : Beside before { before with
        pendingEngines := before.pendingEngines
        history := .called operation :: before.history } := by
      apply beside_of_record
      · exact fun job engine same => by cases same
      · exact fun id => rfl
      · exact fun id => executes_called (begins.1 id)
    exact record
  | served op choice answer required answered call =>
    obtain ⟨⟨given, served⟩, responded, same⟩ := Option.map_eq_some_iff.mp answered
    cases same
    exact served_beside required responded
  | performed op choice answer required answered call =>
    cases op with
    | queueCreated id engine =>
      cases choice <;> cases answered
      apply beside_of_record
      · exact fun job engine same => by cases same
      · exact fun id => rfl
      · exact fun id => rfl
    | _ =>
      cases choice <;> cases answered
      exact .of_eq rfl rfl rfl rfl rfl

omit sound in
theorem Beside.with_main (beside : Beside before after) (main : Main urls) :
    Beside before { after with main := main } := by
  refine { beside with keyed := fun keyed => ?_ }
  have kept := beside.keyed keyed
  exact ⟨kept.keyed, kept.known, kept.unknown⟩

omit sound in
/-- What the main task leaves alone stays sound. -/
theorem Loop.Sound.beside (sound : before.Sound reliable) (beside : Beside before after)
    (main : after.main.Sound reliable after.idle) : after.Sound reliable := by
  have finishedActive : ∀ id result, .finished id result ∈ before.events →
      id ∈ before.activeJobs := by
    intro id result waits
    rw [sound.delivers.mem_iff]
    exact List.mem_append_right _ (List.mem_filterMap.mpr ⟨_, waits, rfl⟩)
  have undelivered : after.undelivered = before.undelivered := by
    unfold Loop.undelivered
    rw [beside.workers, beside.events]
  refine ⟨beside.keyed sound.keyed, ?_, ?_, ?_, ?_, ?_, ?_, main, ?_⟩
  · rw [beside.active, undelivered]
    exact sound.delivers
  · rw [beside.active]
    exact sound.single
  · rw [beside.active]
    exact sound.bounded
  · exact fun job engine launched => sound.queued job engine (beside.launched job engine launched)
  · intro worker member
    rw [beside.workers] at member
    have active := sound.workers_active member
    have same : after.worked worker.id = before.worked worker.id := by
      unfold Loop.worked
      rw [beside.shown worker.id active, beside.launches]
    rw [same]
    exact sound.workers worker member
  · intro id result waits
    rw [beside.events] at waits
    rw [beside.shown id (finishedActive id result waits)]
    exact sound.finished id result waits
  · intro holds id
    have counted := sound.counted holds id
    rw [beside.active, beside.launches]
    exact ⟨Nat.le_trans (beside.commands id) counted.1,
      fun active => Nat.le_trans (beside.commands id) (counted.2 active)⟩

/-- The main task moves while it handles a command. -/
theorem Loop.Sound.main_moved {task next : MainTask urls}
    (handling : loop.main = .handling task) {move : Move (CommandChoice urls)}
    (stepped : task.step (Loop.mainHost wording) move loop = some (next, after)) :
    Loop.Sound reliable { after with main := .handling next } := by
  have main := sound.main
  rw [handling] at main
  obtain ⟨safe, calls⟩ := main
  have moved := Task.Safe.moved safe stepped
  have beside := beside_of_moved moved
  apply sound.beside (beside.with_main (.handling next))
  have admitted : task.Admits (fun _ _ (_ : Loop urls) => True) move loop := by
    unfold Task.Admits
    split <;> trivial
  have stays : next.Safe (mainTerms urls) (fun _ t => t.Settled reliable) after.idle :=
    Task.Safe.step (main_holds wording) sound.keyed admitted safe stepped
  refine ⟨stays, ?_⟩
  intro operation member id target
  change id ∉ after.activeJobs
  rw [beside.active]
  cases moved with
  | noted begun begins same call =>
    rw [call] at member
    cases member
    exact begins.2 id target
  | performed op choice answer required answered call =>
    rw [call] at member
    cases member
  | served op choice answer required answered call =>
    rw [call] at member
    exact calls operation member id target
  | returned same call =>
    rw [call] at member
    cases member

/-! ## Starting jobs -/

omit sound in
/-- The loop takes a queued job that is not active. -/
theorem nextQueued_spec (keyed : loop.Keyed) (found : loop.nextQueued = some job) :
    loop.shown job.id = some job ∧ job.state = .queued ∧ job.id ∉ loop.activeJobs := by
  have chosen := List.find?_some found
  obtain ⟨id, _, shown⟩ := List.mem_filterMap.mp (List.mem_of_find?_eq_some found)
  have key : job.id = id := keyed.keyed id job shown
  rw [key]
  rw [Bool.and_eq_true, decide_eq_true_iff, decide_eq_true_iff, key] at chosen
  exact ⟨shown, chosen.1, chosen.2⟩

theorem Loop.Sound.launched (waiting : loop.main = .waiting)
    (room : loop.activeJobs.length < maxConcurrentDownloads) (found : loop.nextQueued = some job) :
    (loop.launch job).Sound reliable := by
  obtain ⟨shown, queued, idle⟩ := nextQueued_spec sound.keyed found
  have settled : loop.idle.Settled reliable := by
    have main := sound.main
    rw [waiting] at main
    exact main
  have launches : ∀ id, id ≠ job.id → (loop.launch job).sinceLaunch id = loop.sinceLaunch id :=
    fun id different => executionsSince_of_quiet (decide_eq_false fun same => different same.symm) rfl
  have launchedNow : (loop.launch job).sinceLaunch job.id = 0 :=
    executionsSince_of_since (decide_eq_true rfl)
  have commands : ∀ id, (loop.launch job).sinceCommand id = loop.sinceCommand id :=
    fun id => executionsSince_of_quiet rfl rfl
  have seen : loop.idle.shown job.id = some job := (if_neg idle).trans shown
  constructor
  · refine ⟨sound.keyed.keyed, ?_, fun id missing => ?_⟩
    · intro id member
      rcases List.mem_cons.mp member with same | old
      · rw [same]
        change loop.shown job.id ≠ none
        rw [shown]
        nofun
      · exact sound.keyed.known id old
    · rw [commands]
      exact sound.keyed.unknown id missing
  · change (job.id :: loop.activeJobs).Perm
      ((loop.workers ++ [_]).map Worker.id ++ loop.events.filterMap (·.finishedId))
    rw [List.map_append, List.append_assoc]
    exact (sound.delivers.cons job.id).trans List.perm_middle.symm
  · exact List.nodup_cons.mpr ⟨idle, sound.single⟩
  · exact room
  · intro other engine member
    rcases List.mem_cons.mp member with new | old
    · cases new
      exact queued
    · exact sound.queued other engine old
  · intro worker member
    rcases List.mem_append.mp member with old | new
    · have active := sound.workers_active old
      have different : worker.id ≠ job.id := fun same => idle (same ▸ active)
      have same : (loop.launch job).worked worker.id = loop.worked worker.id := by
        unfold Loop.worked
        rw [launches worker.id different]
        rfl
      rw [same]
      exact sound.workers worker old
    · rw [List.mem_singleton.mp new]
      refine ⟨?_, fun operation impossible => nomatch impossible⟩
      have view : (loop.launch job).worked job.id = (loop.shown job.id, 0) := by
        unfold Loop.worked
        rw [launchedNow]
        rfl
      change Program.wp _ (executeJob job.id) _ ((loop.launch job).worked job.id)
      rw [view]
      exact executeJob_safe _
  · exact sound.finished
  · rw [show (loop.launch job).main = .waiting from waiting]
    constructor
    · intro id waits
      obtain ⟨inactive, job', found', finalizing⟩ := settled.outputs id waits
      have different : id ≠ job.id := by
        rintro rfl
        rw [seen] at found'
        cases found'
        rw [queued] at finalizing
        cases finalizing
      have still : id ∉ (loop.launch job).activeJobs := by
        intro member
        rcases List.mem_cons.mp member with same | old
        · exact different same
        · exact inactive old
      refine ⟨still, job', ?_, finalizing⟩
      refine (if_neg still).trans ?_
      exact (if_neg inactive).symm.trans found'
    · intro holds id waits
      by_cases member : id ∈ (loop.launch job).activeJobs
      · exact .inl member
      · right
        rw [commands]
        have inactive : id ∉ loop.activeJobs := fun old => member (List.mem_cons_of_mem _ old)
        obtain ⟨job', found', state⟩ := waits
        have earlier : Queued (loop.idle.shown id) :=
          ⟨job', (if_neg inactive).trans ((if_neg member).symm.trans found'), state⟩
        exact (settled.queued holds id earlier).resolve_left inactive
  · intro holds id
    rw [commands]
    refine ⟨(sound.counted holds id).1, fun member => ?_⟩
    by_cases same : id = job.id
    · subst same
      have fresh := (settled.queued holds job.id ⟨job, seen, queued⟩).resolve_left idle
      rw [fresh]
      exact Nat.zero_le _
    · rw [launches id same]
      rcases List.mem_cons.mp member with impossible | old
      · exact absurd impossible same
      · exact (sound.counted holds id).2 old

omit sound in
theorem Loop.Sound.launches (rounds : Nat) (sound : loop.Sound reliable)
    (waiting : loop.main = .waiting)
    (room : loop.activeJobs.length + rounds ≤ maxConcurrentDownloads) :
    (Loop.launches rounds loop).Sound reliable := by
  induction rounds generalizing loop with
  | zero => exact sound
  | succ rounds ih =>
    unfold Loop.launches
    split
    · exact sound
    · rename_i job found
      apply ih
      · exact sound.launched waiting (by omega) found
      · exact waiting
      · change loop.activeJobs.length + 1 + rounds ≤ maxConcurrentDownloads
        omega

theorem Loop.Sound.scheduled (waiting : loop.main = .waiting) :
    loop.scheduleJobs.Sound reliable := by
  apply sound.launches _ waiting
  have bounded := sound.bounded
  omega

/-! ## Events -/

omit sound in
/-- An output is kept exactly for a result that awaits its record. -/
theorem finish_outputs (loop : Loop urls) (id : DownloadId) (result : CallResult) :
    (∀ other, other ≠ id → (loop.finish id result).pendingOutputs other =
      loop.pendingOutputs other) ∧
      (UnpersistedCall result ∨
        (loop.finish id result).pendingOutputs id = loop.pendingOutputs id) := by
  unfold Loop.finish
  split
  · exact ⟨fun other different => if_neg different, .inl trivial⟩
  · exact ⟨fun _ _ => rfl, .inr rfl⟩
  · exact ⟨fun _ _ => rfl, .inr rfl⟩

omit sound in
/-- What a received result leaves of the loop, besides its output. -/
theorem finish_fields (loop : Loop urls) (id : DownloadId) (result : CallResult) :
    (loop.finish id result).served = loop.served ∧
      (loop.finish id result).activeJobs = loop.activeJobs.filter (· ≠ id) ∧
      (loop.finish id result).workers = loop.workers ∧
      (loop.finish id result).events = loop.events ∧
      (loop.finish id result).main = loop.main ∧
      (loop.finish id result).history = loop.history := by
  unfold Loop.finish
  split <;> exact ⟨rfl, rfl, rfl, rfl, rfl, rfl⟩

/-- The result of a worker is received: its job is active no more. -/
theorem Loop.Sound.received (waiting : loop.main = .waiting)
    (next : loop.events = .finished id result :: events) :
    (Loop.finish { loop with events := events } id result).Sound reliable := by
  obtain ⟨outputs, output⟩ := finish_outputs { loop with events := events } id result
  obtain ⟨served, active, workers, rest, main, history⟩ :=
    finish_fields { loop with events := events } id result
  have delivers : Delivers reliable result (loop.shown id) := by
    apply sound.finished id result
    rw [next]
    exact List.mem_cons_self
  have settled : loop.idle.Settled reliable := by
    have kept := sound.main
    rw [waiting] at kept
    exact kept
  have undelivered : loop.undelivered.Perm
      (id :: (loop.workers.map Worker.id ++ events.filterMap (·.finishedId))) := by
    unfold Loop.undelivered
    rw [next]
    exact List.perm_middle
  have distinct := (sound.delivers.trans undelivered).nodup_iff.mp sound.single
  have absent := (List.nodup_cons.mp distinct).1
  have running : id ∈ loop.activeJobs :=
    (sound.delivers.trans undelivered).mem_iff.mpr List.mem_cons_self
  generalize after : Loop.finish { loop with events := events } id result = finished at *
  have shown : ∀ other, finished.shown other = loop.shown other := by
    intro other
    unfold Loop.shown
    rw [served]
  have commands : ∀ other, finished.sinceCommand other = loop.sinceCommand other := by
    intro other
    unfold Loop.sinceCommand
    rw [history]
  have launches : ∀ other, finished.sinceLaunch other = loop.sinceLaunch other := by
    intro other
    unfold Loop.sinceLaunch
    rw [history]
  have remains : ∀ other, other ∈ finished.activeJobs ↔ other ∈ loop.activeJobs ∧ other ≠ id := by
    intro other
    rw [active, List.mem_filter, decide_eq_true_iff]
  constructor
  · refine ⟨fun other job found => ?_, fun other member => ?_, fun other missing => ?_⟩
    · exact sound.keyed.keyed other job ((shown other).symm.trans found)
    · rw [shown]
      exact sound.keyed.known other ((remains other).mp member).1
    · rw [commands]
      exact sound.keyed.unknown other ((shown other).symm.trans missing)
  · have filtered := (sound.delivers.trans undelivered).filter (· ≠ id)
    unfold Loop.undelivered
    rw [active, workers, rest]
    refine filtered.trans ?_
    rw [List.filter_cons_of_neg (by simp)]
    apply List.Perm.of_eq
    apply List.filter_eq_self.mpr
    intro other member
    apply decide_eq_true
    rintro rfl
    exact absent member
  · rw [active]
    exact sound.single.filter _
  · rw [active]
    exact Nat.le_trans (List.length_filter_le _ _) sound.bounded
  · rw [history]
    exact sound.queued
  · intro worker member
    rw [workers] at member
    have same : finished.worked worker.id = loop.worked worker.id := by
      unfold Loop.worked
      rw [shown, launches]
    rw [same]
    exact sound.workers worker member
  · intro other value waits
    rw [rest] at waits
    rw [shown]
    apply sound.finished other value
    rw [next]
    exact List.mem_cons_of_mem _ waits
  · rw [main, show Loop.main _ = .waiting from waiting]
    constructor
    · intro other waits
      change finished.pendingOutputs other ≠ none at waits
      change other ∉ finished.activeJobs ∧
        Finalizing (if other ∈ finished.activeJobs then none else finished.shown other)
      by_cases same : other = id
      · subst same
        have inactive : other ∉ finished.activeJobs := fun member => ((remains other).mp member).2 rfl
        refine ⟨inactive, ?_⟩
        rw [if_neg inactive, shown]
        rcases output with lost | kept
        · exact delivers.awaits lost
        · rw [kept] at waits
          exact absurd running (settled.outputs other waits).1
      · rw [outputs other same] at waits
        obtain ⟨idle, finalizing⟩ := settled.outputs other waits
        have inactive : other ∉ finished.activeJobs := fun member => idle ((remains other).mp member).1
        refine ⟨inactive, ?_⟩
        rw [if_neg inactive, shown]
        rw [show loop.idle.shown other = loop.shown other from if_neg idle] at finalizing
        exact finalizing
    · intro holds other waits
      change other ∈ finished.activeJobs ∨ finished.sinceCommand other = 0
      by_cases member : other ∈ finished.activeJobs
      · exact .inl member
      · right
        change Queued (if other ∈ finished.activeJobs then none else finished.shown other) at waits
        rw [if_neg member, shown] at waits
        rw [commands]
        by_cases same : other = id
        · subst same
          exact absurd holds (delivers.unqueued waits)
        · have idle : other ∉ loop.activeJobs := fun old => member ((remains other).mpr ⟨old, same⟩)
          have earlier : Queued (loop.idle.shown other) := by
            rw [show loop.idle.shown other = loop.shown other from if_neg idle]
            exact waits
          exact (settled.queued holds other earlier).resolve_left idle
  · intro holds other
    rw [commands, launches]
    refine ⟨(sound.counted holds other).1, fun member => ?_⟩
    exact (sound.counted holds other).2 ((remains other).mp member).1

theorem Loop.Sound.with_events
    (same : events.filterMap (·.finishedId) = loop.events.filterMap (·.finishedId))
    (fewer : ∀ id result, .finished id result ∈ events → .finished id result ∈ loop.events) :
    Loop.Sound reliable { loop with events := events } := by
  refine ⟨⟨sound.keyed.keyed, sound.keyed.known, sound.keyed.unknown⟩, ?_, sound.single,
    sound.bounded, sound.queued, sound.workers, ?_, sound.main, sound.counted⟩
  · unfold Loop.undelivered
    rw [same]
    exact sound.delivers
  · exact fun id result waits => sound.finished id result (fewer id result waits)

/-- What the loop does not look at may change. -/
theorem Loop.Sound.with_notice (notice : Option String) :
    Loop.Sound reliable { loop with notice := notice } :=
  sound.beside (.of_eq rfl rfl rfl rfl rfl) sound.main

variable {next : Loop urls}

theorem Loop.Sound.handled (waiting : loop.main = .waiting) {event : WorkerEvent}
    (first : loop.events = event :: events)
    (handled : Loop.handleWorkerEvent { loop with events := events } event = (next, schedules)) :
    next.Sound reliable ∧ (schedules = true → next.main = .waiting) := by
  have passed : event.Passing → Loop.Sound reliable { loop with events := events } := by
    intro passing
    apply sound.with_events
    · rw [first, List.filterMap_cons_none passing]
    · intro id result waits
      rw [first]
      exact List.mem_cons_of_mem _ waits
  cases event with
  | finished id result =>
    cases handled
    refine ⟨sound.received waiting first, fun _ => ?_⟩
    exact (finish_fields _ id result).2.2.2.2.1.trans waiting
  | notice message =>
    cases handled
    exact ⟨(passed rfl).with_notice _, fun impossible => nomatch impossible⟩
  | clearNotice =>
    cases handled
    exact ⟨(passed rfl).with_notice _, fun impossible => nomatch impossible⟩
  | changed =>
    cases handled
    exact ⟨passed rfl, fun impossible => nomatch impossible⟩
  | inspected =>
    cases handled
    exact ⟨passed rfl, fun impossible => nomatch impossible⟩

omit sound in
/-- A process starts with the records of the ones before it. -/
theorem restart_sound (loop : Loop urls)
    (queued : ∀ job engine, .launched job engine ∈ loop.history → job.state = .queued) :
    loop.restart.Sound reliable := by
  have commands : ∀ id, loop.restart.sinceCommand id = 0 := fun id => executionsSince_of_since rfl
  refine ⟨⟨?_, ?_, fun id _ => commands id⟩, List.Perm.nil, List.nodup_nil, Nat.zero_le _, ?_, ?_,
    ?_, ⟨⟨rfl, fun id => .inr (commands id)⟩, fun id => rfl, ?_⟩, ?_⟩
  · exact fun id job found => nomatch found
  · exact fun id member => nomatch member
  · intro job engine member
    rcases List.mem_cons.mp member with new | old
    · cases new
    · exact queued job engine old
  · exact fun worker member => nomatch member
  · exact fun id result member => nomatch member
  · exact start_safe ⟨rfl, fun id => .inr (commands id)⟩
  · intro _ id
    rw [commands]
    exact ⟨Nat.zero_le _, fun _ => Nat.zero_le _⟩

theorem Loop.Sound.begun {handler : Handler urls Unit}
    (safe : Fallible.wp (mainTerms urls).spec handler (fun _ t => t.Settled reliable) loop.idle) :
    (loop.begin handler).Sound reliable := by
  apply sound.beside
  · exact (Beside.refl loop).with_main _
  · exact ⟨safe, fun operation impossible => nomatch impossible⟩

/-- A command is noted and begun. -/
theorem Loop.Sound.commanded (waiting : loop.main = .waiting) (command : Command) :
    Loop.Sound reliable (Loop.begin
      { loop with history := command.target.toList.map Record.commanded ++ loop.history }
      (command.handle wording)) := by
  have settled : loop.idle.Settled reliable := by
    have main := sound.main
    rw [waiting] at main
    exact main
  cases target : command.target with
  | none =>
    apply sound.begun
    apply handle_settles wording command _ settled
    rw [target]
    exact fun id impossible => nomatch impossible
  | some id =>
    have view : Loop.idle { loop with history := .commanded id :: loop.history } =
        { loop.idle with fresh := fun other => other = id ∨ loop.idle.fresh other } :=
      idle_commanded (fun _ => rfl) fun _ => rfl
    have later : Idle.Settled reliable
        { loop.idle with fresh := fun other => other = id ∨ loop.idle.fresh other } :=
      ⟨settled.outputs, fun holds other queued => .inr (settled.queued holds other queued)⟩
    have noted : Loop.Sound reliable { loop with history := .commanded id :: loop.history } := by
      apply sound.beside
      · apply beside_of_record
        · exact fun job engine same => by cases same
        · exact fun other => rfl
        · exact fun other => rfl
      · rw [view, show Loop.main _ = .waiting from waiting]
        exact later
    apply noted.begun
    rw [view]
    apply handle_settles wording command _ later
    rw [target]
    rintro other ⟨⟩
    exact .inl rfl

theorem Loop.Sound.main_stepped {move : Move (CommandChoice urls)}
    (moved : loop.moveMain wording move = some (next, schedules)) :
    next.Sound reliable ∧ (schedules = true → next.main = .waiting) := by
  have main := sound.main
  unfold Loop.moveMain at moved
  split at moved
  · rename_i op rest choice starting
    obtain ⟨⟨answer, served⟩, answered, same⟩ := Option.map_eq_some_iff.mp moved
    cases same
    rw [starting] at main
    obtain ⟨alone, outputs, safe⟩ := main
    refine ⟨sound.beside ((served_beside safe.1 answered).with_main _) ?_, nofun⟩
    have hosted : (Loop.mainHost wording).serve op choice loop =
        some (answer, { loop with served := served }) := by
      change Option.map _ _ = _
      rw [answered]
      rfl
    have ensured := (main_holds wording).served sound.keyed trivial safe.1 hosted
    exact ⟨⟨alone.active, alone.fresh⟩, outputs, safe.2 answer _ ensured⟩
  · rename_i starting
    cases moved
    rw [starting] at main
    obtain ⟨alone, outputs, _⟩ := main
    refine ⟨sound.beside ((Beside.refl loop).with_main _) ?_, nofun⟩
    exact ⟨fun id waits => absurd (outputs id) waits, fun _ id _ => alone.fresh id⟩
  · cases moved
    exact ⟨sound.beside ((Beside.refl loop).with_main _) trivial, nofun⟩
  · rename_i value handling
    cases moved
    rw [handling] at main
    exact ⟨sound.beside ((Beside.refl loop).with_main _) main.1, fun _ => rfl⟩
  · rename_i task _ handling _
    obtain ⟨⟨after, later⟩, stepped, same⟩ := Option.map_eq_some_iff.mp moved
    cases same
    exact ⟨sound.main_moved handling stepped, nofun⟩
  · cases moved

/-- Storage answers a worker's save of a queued job. -/
def SavesKept (loop : Loop urls) : LoopEvent urls → Prop
  | .worker index move => ∀ worker ∈ loop.workers[index]?,
      worker.task.Admits (fun op choice s => ¬ LosesQueued s.served.world.jobs op choice) move loop
  | _ => True

omit sound in
theorem admits_of (h : reliable → task.Admits
      (fun op choice (s : Loop urls) => ¬ LosesQueued s.served.world.jobs op choice) move loop) :
    task.Admits (Admitted reliable) move loop := by
  cases task with
  | running program => trivial
  | calling operation program next =>
    cases program with
    | done result => trivial
    | step op rest =>
      cases move with
      | served choice => exact h
      | _ => trivial

theorem Loop.Sound.worker_stepped (kept : reliable → SavesKept loop (.worker index move))
    (moved : loop.moveWorker index move = some next) : next.Sound reliable := by
  unfold Loop.moveWorker at moved
  split at moved
  · cases moved
  rename_i worker found
  split at moved
  · rename_i result ended
    cases moved
    exact sound.worker_ended found ended
  · obtain ⟨⟨after, later⟩, stepped, same⟩ := Option.map_eq_some_iff.mp moved
    cases same
    exact sound.worker_moved found (admits_of fun holds => kept holds worker found) stepped

theorem Loop.Sound.reacted {event : LoopEvent urls} (kept : reliable → SavesKept loop event)
    (reacted : loop.react wording event = some (next, schedules)) :
    next.Sound reliable ∧ (schedules = true → next.main = .waiting) := by
  unfold Loop.react at reacted
  split at reacted
  · rename_i command waiting
    cases reacted
    exact ⟨sound.commanded waiting command, nofun⟩
  · rename_i request waiting
    cases reacted
    have settled : loop.idle.Settled reliable := by
      have main := sound.main
      rw [waiting] at main
      exact main
    exact ⟨sound.begun (noticing_settles (downloadRequested_settles wording request settled)), nofun⟩
  · rename_i waiting
    cases reacted
    exact ⟨sound, fun _ => waiting⟩
  · rename_i waiting
    split at reacted
    · cases reacted
    · rename_i first events pending
      exact sound.handled waiting pending (Option.some.inj reacted)
  · cases reacted
    obtain ⟨same, fewer⟩ := @passing_append loop.events [.inspected]
      (by rintro event member; rw [List.mem_singleton.mp member]; rfl)
    exact ⟨sound.with_events same fewer, nofun⟩
  · exact sound.main_stepped reacted
  · obtain ⟨moved, stepped, same⟩ := Option.map_eq_some_iff.mp reacted
    cases same
    exact ⟨sound.worker_stepped kept stepped, nofun⟩
  · cases reacted
    exact ⟨restart_sound loop sound.queued, nofun⟩
  · cases reacted

end

/-- One event, with the jobs it starts. -/
theorem Loop.Sound.step {reliable : Prop} {wording : Wording urls} {loop next : Loop urls}
    {event : LoopEvent urls} (sound : loop.Sound reliable) (kept : reliable → SavesKept loop event)
    (stepped : loop.step wording event = some next) : next.Sound reliable := by
  obtain ⟨⟨after, schedules⟩, reacted, same⟩ := Option.map_eq_some_iff.mp stepped
  obtain ⟨later, waits⟩ := sound.reacted kept reacted
  rw [← same]
  split
  · rename_i scheduling
    exact later.scheduled (waits scheduling)
  · exact later

theorem start_sound (reliable : Prop) (persisted : List DownloadJob) :
    (Loop.start urls persisted).Sound reliable :=
  restart_sound _ fun job engine member => by cases member

theorem sound_of_run {persisted : List DownloadJob} {events : List (LoopEvent urls)}
    (kept : reliable →
      Machine.Meets (Loop.step wording) SavesKept (Loop.start urls persisted) events)
    (ran : Machine.run (Loop.step wording) (Loop.start urls persisted) events = some loop) :
    loop.Sound reliable := by
  have start := @start_sound urls reliable persisted
  generalize Loop.start urls persisted = state at kept ran start
  induction events generalizing state with
  | nil =>
    cases ran
    exact start
  | cons event rest ih =>
    obtain ⟨next, stepped, ran⟩ := Option.bind_eq_some_iff.mp ran
    exact ih next (fun holds => (kept holds).2 next stepped) ran
      (start.step (fun holds => (kept holds).1) stepped)

/-! ## Scheduling over a run -/

/-- The call on the manager the main task is in. -/
def Loop.calling (loop : Loop urls) : Option Operation :=
  match loop.main with
  | .handling task => task.call
  | _ => none

/-- What the daemon's map of active jobs excludes. -/
structure Loop.Exclusive (loop : Loop urls) : Prop where
  bounded : loop.workers.length ≤ maxConcurrentDownloads
  active : ∀ id, id ∈ loop.activeJobs ↔ id ∈ loop.undelivered
  single : loop.undelivered.Nodup
  queued : ∀ job engine, .launched job engine ∈ loop.history → job.state = .queued
  own : ∀ worker ∈ loop.workers, ∀ operation ∈ worker.task.call,
    operation = .execute worker.id ∨ operation = .retry worker.id
  uncalled : ∀ operation ∈ loop.calling, ∀ id ∈ callTarget operation, id ∉ loop.activeJobs

/-- In every run, whatever clients, workers and surroundings do. -/
theorem scheduling_exclusive {wording : Wording urls} {persisted : List DownloadJob}
    {events : List (LoopEvent urls)} {loop : Loop urls}
    (ran : Machine.run (Loop.step wording) (Loop.start urls persisted) events = some loop) :
    loop.Exclusive := by
  have sound : loop.Sound False := sound_of_run (fun impossible => impossible.elim) ran
  refine ⟨?_, fun id => sound.delivers.mem_iff, sound.delivers.nodup_iff.mp sound.single,
    sound.queued, fun worker member => (sound.workers worker member).calls, ?_⟩
  · have fewer : loop.workers.length ≤ loop.activeJobs.length := by
      rw [sound.delivers.length_eq, Loop.undelivered, List.length_append, List.length_map]
      exact Nat.le_add_right _ _
    exact Nat.le_trans fewer sound.bounded
  · intro operation member
    unfold Loop.calling at member
    split at member
    · rename_i task handling
      have main := sound.main
      rw [handling] at main
      exact main.2 operation member
    · cases member

/-- A job as the repository holds it before its first execution. -/
def waitingJob (id : DownloadId) : DownloadJob :=
  DownloadJob.new id
    { request := ⟨⟨"https://cdn.example/v".toList⟩, [], none⟩
      destination := ⟨"/downloads", none, .rename⟩
      origin := .desktop } 0

/-- The manager loads its jobs, none of which was interrupted. -/
def startup : List (LoopEvent cdnCrate) :=
  [.main (.served (.listed none)), .main (.served .settled),
    .main (.served (.managed (.clock 0))), .main .proceeds]

theorem queued_job_started :
    ∃ loop, Machine.run (Loop.step plainWording) (Loop.start cdnCrate [waitingJob firstJob.1])
        (startup ++ [.captured, .worker 0 .proceeds]) = some loop ∧
      loop.workers.length = 1 ∧ loop.Exclusive := by
  have started : (Machine.run (Loop.step plainWording) (Loop.start cdnCrate [waitingJob firstJob.1])
      (startup ++ [.captured, .worker 0 .proceeds])).map (·.workers.length) = some 1 := by
    decide +kernel
  obtain ⟨loop, ran, one⟩ := Option.map_eq_some_iff.mp started
  exact ⟨loop, ran, one, scheduling_exclusive ran⟩

end Gunda.Gundad

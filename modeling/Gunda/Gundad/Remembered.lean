import Gunda.Gundad.Origins
import Gunda.Gundad.Scheduling

/-!
# The engine a job was created with

The engine a job is created with is held until the job is first scheduled, by this process.
After that it is worked out from the job's URL and resource: when a client resumes, retries
or restarts the job, and when a queued job is scheduled for which no engine is held.
-/
namespace Gunda.Gundad

open Gunda.Lib Gunda.Lib.Text
open Gunda.Core

variable {urls : UrlCrate}
variable {task : Nat} {choice : ServiceChoice} {served after : ServedWorld}

namespace Loop

def CreatedWith (loop : Loop urls) (id : DownloadId) (engine : JobEngine) : Prop :=
  .created id engine ∈ loop.history

/-- What is worked out for a job is what it was created with, if it was created by a client. -/
def Recovers (loop : Loop urls) (id : DownloadId) (derived : JobEngine) : Prop :=
  ∀ engine, loop.CreatedWith id engine → derived = engine

/-- Every worker of a job got the engine the job had been created with. -/
def EnginesKept (loop : Loop urls) : Prop :=
  ∀ newer older job used, loop.history = newer ++ .launched job used :: older →
    ∀ engine, .created job.id engine ∈ older → used = engine

/-- The main task is about to work out the engine of a job. -/
def asks (loop : Loop urls) : Option DownloadId :=
  match loop.main with
  | .handling (.running (.step (.own (.engineOf id)) _)) => some id
  | _ => none

/-- Each job that is scheduled without a held engine gets the one it was created with. -/
def LaunchesRecover : Nat → Loop urls → Prop
  | 0, _ => True
  | rounds + 1, loop => match loop.nextQueued with
      | none => True
      | some job =>
          (loop.pendingEngines job.id = none → loop.Recovers job.id (derivedEngine urls job)) ∧
            LaunchesRecover rounds (loop.launch job)

/-- Wherever an engine is worked out in a step, it is the one of the creation. -/
def StepRecovers (wording : Wording urls) (loop : Loop urls) (event : LoopEvent urls) : Prop :=
  (∀ id ∈ loop.asks, loop.Recovers id (loop.engineOf id)) ∧
    match loop.react wording event with
    | some (handled, true) =>
        LaunchesRecover (maxConcurrentDownloads - handled.activeJobs.length) handled
    | _ => True

end Loop

/-! ## Rows stay -/

/-- A new row has an identifier that no row had. -/
theorem serveAs_createRow {download : NewDownload} {createdAt : OffsetDateTime}
    {answer : Except RepositoryError DownloadJob}
    (h : serveAs task (.createRow download createdAt) choice served = some (answer, after)) :
    (∀ id, served.world.rows id ≠ none → after.world.rows id ≠ none) ∧
      ∀ job, answer = .ok job → served.world.rows job.id = none ∧ after.world.rows job.id ≠ none := by
  cases choice with
  | created result =>
    cases result with
    | error error =>
      cases h
      exact ⟨fun id kept => kept, fun job impossible => by cases impossible⟩
    | ok row =>
      simp only [serveAs, serve] at h
      split at h
      · rename_i free
        cases h
        constructor
        · intro id kept
          by_cases own : id = row.1
          · subst own
            exact absurd free kept
          · dsimp only
            rw [upsert_of_ne _ _ own]
            exact kept
        · intro job same
          cases same
          refine ⟨free, ?_⟩
          dsimp only
          rw [show (DownloadJob.new row.1 download row.2).id = row.1 from rfl, upsert_self]
          intro impossible
          cases impossible
      · cases h
  | _ => cases h

theorem serveAs_stored {op : ServiceOp} {answer : op.Answer}
    (h : serveAs task op choice served = some (answer, after)) :
    ∀ id, served.world.rows id ≠ none → after.world.rows id ≠ none := by
  cases op with
  | createRow download createdAt => exact (serveAs_createRow h).1
  | _ => exact fun id => not_imp_not.mpr ((serveAs_world h).2 (fun _ _ => nofun) id).mp

/-! ## Over a run -/

/-- Records of no creation and no launch. -/
def Record.Passing : Record → Prop
  | .created _ _ | .launched _ _ => False
  | _ => True

namespace Loop

variable {before loop next : Loop urls} {wording : Wording urls} {move : Move (CommandChoice urls)}

def origins (loop : Loop urls) : Origins := ⟨loop.CreatedWith, (loop.served.world.rows · ≠ none)⟩

/-- The history of jobs and engines is the same. -/
structure SameEngines (before after : Loop urls) : Prop where
  created : after.CreatedWith = before.CreatedWith
  kept : before.EnginesKept → after.EnginesKept

/-- Held engines are those of the creation, every worker got one of these, and the main
task will hold no other. -/
structure Remembers (loop : Loop urls) : Prop where
  known : loop.origins.Known
  held : ∀ id engine, loop.pendingEngines id = some engine → loop.Recovers id engine
  kept : loop.EnginesKept
  main : ∀ task, loop.main = .handling task →
    task.Safe (engineTerms urls) (fun _ _ => True) loop.origins

variable {after : Loop urls}

theorem SameEngines.of_eq (history : after.history = before.history) :
    SameEngines before after := by
  constructor
  · unfold CreatedWith
    rw [history]
  · unfold EnginesKept
    rw [history]
    exact id

theorem SameEngines.of_record (record : Record) (passing : record.Passing)
    (history : after.history = record :: before.history) :
    SameEngines before after := by
  constructor
  · funext id engine
    unfold CreatedWith
    rw [history]
    apply propext
    constructor
    · intro member
      cases List.mem_cons.mp member with
      | inl same =>
        rw [← same] at passing
        exact passing.elim
      | inr old => exact old
    · exact List.mem_cons_of_mem _
  · intro kept newer older job used split
    rw [history] at split
    cases newer with
    | nil =>
      rw [List.nil_append] at split
      rw [(List.cons.inj split).1] at passing
      exact passing.elim
    | cons first newer => exact kept newer older job used (List.cons.inj split).2

theorem Remembers.same (remembers : before.Remembers) (engines : SameEngines before after)
    (stored : ∀ id, before.served.world.rows id ≠ none → after.served.world.rows id ≠ none)
    (pending : ∀ id engine, after.pendingEngines id = some engine →
      before.pendingEngines id = some engine) (main : ∀ task, after.main = .handling task →
      task.Safe (engineTerms urls) (fun _ _ => True) after.origins) : after.Remembers where
  known id engine created := by
    change after.CreatedWith id engine at created
    rw [engines.created] at created
    exact stored id (remembers.known id engine created)
  held id engine holds used created := by
    rw [engines.created] at created
    exact remembers.held id engine (pending id engine holds) used created
  kept := engines.kept remembers.kept
  main := main

theorem Remembers.beside (remembers : before.Remembers) (engines : SameEngines before after)
    (served : after.served = before.served)
    (pending : after.pendingEngines = before.pendingEngines)
    (main : ∀ task, after.main = .handling task →
      task.Safe (engineTerms urls) (fun _ _ => True) after.origins) : after.Remembers := by
  apply remembers.same engines
  · intro id row
    rw [served]
    exact row
  · intro id engine held
    rw [← pending]
    exact held
  · exact main

theorem origins_eq (created : after.CreatedWith = before.CreatedWith)
    (rows : ∀ id, after.served.world.rows id = none ↔ before.served.world.rows id = none) :
    after.origins = before.origins := by
  unfold origins
  rw [created]
  congr 1
  funext id
  exact propext (not_congr (rows id))

/-! ### Launches -/

theorem created_launched (loop : Loop urls) (job : DownloadJob) :
    (loop.launch job).CreatedWith = loop.CreatedWith := by
  funext id engine
  apply propext
  constructor
  · intro member
    cases List.mem_cons.mp member with
    | inl same => cases same
    | inr old => exact old
  · exact List.mem_cons_of_mem _

section

variable (remembers : loop.Remembers)
include remembers

theorem Remembers.launched {job : DownloadJob} (recovers : loop.pendingEngines job.id = none →
      loop.Recovers job.id (derivedEngine urls job)) : (loop.launch job).Remembers := by
  have created := created_launched loop job
  constructor
  · intro id engine before
    change (loop.launch job).CreatedWith id engine at before
    rw [created] at before
    exact remembers.known id engine before
  · intro id engine holds used before
    rw [created] at before
    change (if id = job.id then none else loop.pendingEngines id) = some engine at holds
    split at holds
    · cases holds
    · exact remembers.held id engine holds used before
  · intro newer older other used split engine before
    cases newer with
    | nil =>
      rw [List.nil_append] at split
      obtain ⟨same, rest⟩ := List.cons.inj split
      cases same
      rw [← rest] at before
      cases held : loop.pendingEngines job.id with
      | none => exact recovers held engine before
      | some engine' => exact remembers.held _ _ held engine before
    | cons first newer => exact remembers.kept newer older other used (List.cons.inj split).2 engine before
  · intro task handling
    rw [origins_eq created fun _ => Iff.rfl]
    exact remembers.main task handling

theorem Remembers.launches {rounds : Nat}
    (recovers : LaunchesRecover rounds loop) : (launches rounds loop).Remembers := by
  induction rounds generalizing loop with
  | zero => exact remembers
  | succ rounds ih =>
    unfold Loop.launches
    unfold LaunchesRecover at recovers
    split
    · exact remembers
    · rename_i job found
      rw [found] at recovers
      exact ih (remembers.launched recovers.1) recovers.2

/-! ### The main task -/

omit remembers in
/-- The main task's next answer is one that its terms allow. -/
theorem main_answered {task : MainTask urls} (handling : loop.main = .handling task)
    (recovers : ∀ id ∈ loop.asks, loop.Recovers id (loop.engineOf id)) :
    task.Answered (engineTerms urls) (mainHost wording) origins move loop := by
  unfold Task.Answered
  split
  · rename_i operation _
    have same : SameEngines loop ((mainHost wording).noted operation loop) :=
      .of_record (.called operation) trivial rfl
    exact origins_eq same.created fun _ => Iff.rfl
  · rename_i op _ choice
    intro answer later performed
    have unmoved : later.history = loop.history → later.served = loop.served →
        later.origins = loop.origins := by
      intro history served
      refine origins_eq (SameEngines.of_eq history).created fun id => ?_
      rw [served]
    cases op with
    | queueCreated id engine =>
      cases choice <;> cases performed
      change Origins.mk _ _ = Origins.mk _ _
      congr 1
      funext other used
      apply propext
      change _ ∈ Record.created id engine :: loop.history ↔ _
      rw [List.mem_cons, Record.created.injEq]
      rfl
    | engineOf id =>
      cases choice <;> cases performed
      refine ⟨rfl, recovers id ?_⟩
      unfold asks
      rw [handling]
      rfl
    | _ =>
      cases choice <;> cases performed
      exact unmoved rfl rfl
  · rename_i op _ _ choice
    intro answer later served
    obtain ⟨⟨given, after⟩, answered, same⟩ := Option.map_eq_some_iff.mp served
    cases same
    cases op with
    | createRow download createdAt =>
      obtain ⟨stored, named⟩ := serveAs_createRow answered
      refine ⟨rfl, stored, fun job ok => ?_⟩
      obtain ⟨free, row⟩ := named job ok
      exact ⟨fun stored => stored free, row⟩
    | _ =>
      exact origins_eq rfl ((serveAs_world answered).2 (fun _ _ => nofun))
  · trivial

/-- What the main task sets its engines to is what was worked out on its terms. -/
theorem Remembers.performed {later : Loop urls} {op : CommandOp urls}
    {choice : CommandChoice urls} {answer : op.Answer}
    (required : (engineTerms urls).own.requires op loop.origins)
    (performed : (mainHost wording).perform op choice loop = some (answer, later))
    {task : MainTask urls} (safe : task.Safe (engineTerms urls) (fun _ _ => True) later.origins) :
    Loop.Remembers { later with main := .handling task } := by
  have main : ∀ other, Main.handling task = .handling other →
      other.Safe (engineTerms urls) (fun _ _ => True) later.origins := by
    intro other same
    cases same
    exact safe
  cases op with
  | queueCreated id engine =>
    cases choice <;> cases performed
    obtain ⟨unknown, stored⟩ := required
    constructor
    · intro other used created
      cases List.mem_cons.mp created with
      | inl same =>
        cases same
        exact stored
      | inr old => exact remembers.known other used old
    · intro other used holds used' created
      change (if other = id then some engine else loop.pendingEngines other) = some used at holds
      cases List.mem_cons.mp created with
      | inl same =>
        cases same
        rw [if_pos rfl] at holds
        exact (Option.some.inj holds).symm
      | inr old =>
        have different : other ≠ id := by
          intro same
          rw [same] at old
          exact unknown used' old
        rw [if_neg different] at holds
        exact remembers.held other used holds used' old
    · intro newer older job used split
      cases newer with
      | nil => cases (List.cons.inj split).1
      | cons first newer => exact remembers.kept newer older job used (List.cons.inj split).2
    · exact main
  | queueAgain id engine =>
    cases choice <;> cases performed
    constructor
    · exact remembers.known
    · intro other used holds used' created
      change (if other = id then some engine else loop.pendingEngines other) = some used at holds
      split at holds
      · rename_i same
        cases holds
        rw [same] at created
        exact required used' created
      · exact remembers.held other used holds used' created
    · exact remembers.kept
    · exact main
  | _ =>
    cases choice <;> cases performed
    exact remembers.beside (.of_eq rfl) rfl rfl main

/-- One move of the main task during a command. -/
theorem Remembers.main_moved {later : Loop urls} {task next : MainTask urls} (handling : loop.main = .handling task)
    (recovers : ∀ id ∈ loop.asks, loop.Recovers id (loop.engineOf id))
    (moved : task.step (mainHost wording) move loop = some (next, later)) :
    Loop.Remembers { later with main := .handling next } := by
  have safe := remembers.main task handling
  have safe' : next.Safe (engineTerms urls) (fun _ _ => True) later.origins :=
    safe.answered (main_answered handling recovers) moved
  have main : ∀ other, Main.handling next = .handling other →
      other.Safe (engineTerms urls) (fun _ _ => True) later.origins := by
    intro other same
    cases same
    exact safe'
  have taken : task.Moved (engineTerms urls) (mainHost wording) origins next loop later :=
    safe.moved moved
  cases taken with
  | noted operation begins after call =>
    cases after
    exact remembers.beside (.of_record (.called operation) trivial rfl) rfl rfl main
  | performed op choice answer required answered call =>
    exact remembers.performed required answered safe'
  | served op choice answer required answered call =>
    obtain ⟨⟨given, after⟩, served, same⟩ := Option.map_eq_some_iff.mp answered
    cases same
    exact remembers.same (.of_eq rfl) (serveAs_stored served) (fun _ _ held => held) main
  | returned same call =>
    cases same
    exact remembers.beside (.of_eq rfl) rfl rfl main

theorem Remembers.main_stepped {schedules : Bool}
    (recovers : ∀ id ∈ loop.asks, loop.Recovers id (loop.engineOf id))
    (moved : loop.moveMain wording move = some (next, schedules)) : next.Remembers := by
  unfold Loop.moveMain at moved
  split at moved
  · obtain ⟨⟨answer, after⟩, served, same⟩ := Option.map_eq_some_iff.mp moved
    cases same
    exact remembers.same (.of_eq rfl) (serveAs_stored served) (fun _ _ held => held) nofun
  · cases moved
    exact remembers.beside (.of_eq rfl) rfl rfl nofun
  · cases moved
    exact remembers.beside (.of_eq rfl) rfl rfl nofun
  · cases moved
    exact remembers.beside (.of_eq rfl) rfl rfl nofun
  · rename_i task _ handling _
    obtain ⟨⟨after, later⟩, stepped, same⟩ := Option.map_eq_some_iff.mp moved
    cases same
    exact remembers.main_moved handling recovers stepped
  · cases moved

/-! ### Workers -/

omit remembers in
/-- A worker's move stores no job and sets no engine. -/
theorem worker_unmoved {id : DownloadId} {reliable : Prop} {number : Nat}
    {task next : Task WorkerOp WorkerOp.Answer CallResult}
    (moved : task.Moved (workerTerms id reliable) (workerHost urls number) (worked · id) next
      before after) :
    SameEngines before after ∧ after.pendingEngines = before.pendingEngines ∧
      ∀ id, after.served.world.rows id = none ↔ before.served.world.rows id = none := by
  cases moved with
  | returned same call =>
    cases same
    exact ⟨.of_eq rfl, rfl, fun _ => Iff.rfl⟩
  | performed op choice answer required answered call =>
    cases op <;> cases answered <;> exact ⟨.of_eq rfl, rfl, fun _ => Iff.rfl⟩
  | noted operation begins same call =>
    cases same
    exact ⟨.of_record (.called operation) trivial rfl, rfl, fun _ => Iff.rfl⟩
  | served op choice answer required answered call =>
    obtain ⟨⟨given, world⟩, responded, same⟩ := Option.map_eq_some_iff.mp answered
    cases same
    refine ⟨.of_eq rfl, rfl, (serveAs_world responded).2 fun download createdAt created => ?_⟩
    rw [created] at required
    exact required.elim

theorem Remembers.worker_stepped {index : Nat} {move : Move Unit}
    (sound : loop.Sound False) (moved : loop.moveWorker index move = some next) :
    next.Remembers := by
  unfold Loop.moveWorker at moved
  split at moved
  · cases moved
  rename_i worker found
  split at moved
  · cases moved
    exact remembers.beside (.of_eq rfl) rfl rfl remembers.main
  · obtain ⟨⟨after, later⟩, stepped, same⟩ := Option.map_eq_some_iff.mp moved
    cases same
    have safe := (sound.workers worker (List.mem_of_getElem? found)).safe
    have taken : worker.task.Moved (workerTerms worker.id False) (workerHost urls worker.number)
        (worked · worker.id) after loop later := Task.Safe.moved safe stepped
    obtain ⟨engines, pending, rows⟩ := worker_unmoved taken
    have main := (aside_of_moved taken).main
    refine remembers.same ⟨engines.created, engines.kept⟩ (fun id => not_imp_not.mpr (rows id).mp)
      (fun id engine held => ?_) fun task handling => ?_
    · rw [← pending]
      exact held
    · change task.Safe _ _ later.origins
      rw [origins_eq engines.created rows]
      exact remembers.main task (main.symm.trans handling)

/-! ### Events -/

theorem Remembers.finished {id : DownloadId} {result : CallResult} :
    (loop.finish id result).Remembers := by
  obtain ⟨served, _, _, _, main, history⟩ := finish_fields loop id result
  have engines : SameEngines loop (loop.finish id result) := .of_eq history
  have pending : (loop.finish id result).pendingEngines = loop.pendingEngines := by
    unfold Loop.finish
    split <;> rfl
  apply remembers.beside engines served pending
  intro task handling
  rw [origins_eq engines.created fun id => by rw [served]]
  exact remembers.main task (main.symm.trans handling)

theorem Remembers.handled {event : WorkerEvent} {events : List WorkerEvent} :
    (handleWorkerEvent { loop with events := events } event).1.Remembers := by
  cases event with
  | finished id result =>
    have received : Remembers { loop with events := events } :=
      remembers.beside (.of_eq rfl) rfl rfl remembers.main
    exact received.finished
  | _ => exact remembers.beside (.of_eq rfl) rfl rfl remembers.main

theorem Remembers.begun {handler : Handler urls Unit}
    (safe : Fallible.wp (engineTerms urls).spec handler (fun _ _ => True) loop.origins) :
    (loop.begin handler).Remembers := by
  refine remembers.beside (.of_eq rfl) rfl rfl fun task same => ?_
  cases same
  exact safe

theorem Remembers.commanded (waiting : loop.main = .waiting) (command : Command) :
    (begin { loop with history := command.target.toList.map Record.commanded ++ loop.history }
      (command.handle wording)).Remembers := by
  cases command.target with
  | none => exact remembers.begun (handle_names wording command remembers.known)
  | some id =>
    have engines : SameEngines loop { loop with history := .commanded id :: loop.history } :=
      .of_record (.commanded id) trivial rfl
    have noted : Remembers { loop with history := .commanded id :: loop.history } := by
      refine remembers.beside engines rfl rfl fun task handling => ?_
      rw [show loop.main = .handling task from handling] at waiting
      cases waiting
    exact noted.begun (handle_names wording command noted.known)

theorem Remembers.reacted {event : LoopEvent urls} {schedules : Bool}
    (sound : loop.Sound False) (recovers : ∀ id ∈ loop.asks, loop.Recovers id (loop.engineOf id))
    (reacted : loop.react wording event = some (next, schedules)) : next.Remembers := by
  unfold Loop.react at reacted
  split at reacted
  · rename_i command waiting
    cases reacted
    exact remembers.commanded waiting command
  · cases reacted
    exact remembers.begun (noticing_names (downloadRequested_names wording _ remembers.known))
  · cases reacted
    exact remembers
  · split at reacted
    · cases reacted
    · have same := congrArg Prod.fst (Option.some.inj reacted)
      rw [← show _ = next from same]
      exact remembers.handled
  · cases reacted
    exact remembers.beside (.of_eq rfl) rfl rfl remembers.main
  · exact remembers.main_stepped recovers reacted
  · obtain ⟨moved, stepped, same⟩ := Option.map_eq_some_iff.mp reacted
    cases same
    exact remembers.worker_stepped sound stepped
  · cases reacted
    exact remembers.same (.of_record .started trivial rfl)
      (fun _ row => row) nofun nofun
  · cases reacted

end

theorem Remembers.step {wording : Wording urls} {loop next : Loop urls} {event : LoopEvent urls}
    (remembers : loop.Remembers) (sound : loop.Sound False)
    (recovers : loop.StepRecovers wording event)
    (stepped : loop.step wording event = some next) : next.Remembers := by
  obtain ⟨⟨after, schedules⟩, reacted, same⟩ := Option.map_eq_some_iff.mp stepped
  have later := remembers.reacted sound recovers.1 reacted
  cases schedules with
  | false =>
    cases same
    exact later
  | true =>
    cases same
    have launches := recovers.2
    rw [reacted] at launches
    exact later.launches launches

theorem start_remembers (persisted : List DownloadJob) :
    (start urls persisted).Remembers where
  known id engine created := by
    cases List.mem_cons.mp created with
    | inl same => cases same
    | inr old => cases old
  held id engine holds := nomatch holds
  kept newer older job used split := by
    cases newer with
    | nil => cases (List.cons.inj split).1
    | cons first newer => cases newer <;> cases (List.cons.inj split).2
  main task handling := nomatch handling

end Loop

/-- In a run in which every engine that is worked out is the one of the creation, every
worker of a job gets the engine that the job was created with. -/
theorem engines_kept {wording : Wording urls} {persisted : List DownloadJob}
    {events : List (LoopEvent urls)} {loop : Loop urls}
    (recovers : Machine.Meets (Loop.step wording) (Loop.StepRecovers wording)
      (Loop.start urls persisted) events)
    (ran : Machine.run (Loop.step wording) (Loop.start urls persisted) events = some loop) :
    loop.EnginesKept := by
  have kept : ∀ (state : Loop urls) event next, state.Sound False ∧ state.Remembers →
      state.StepRecovers wording event → state.step wording event = some next →
      next.Sound False ∧ next.Remembers := by
    intro state event next ⟨sound, remembers⟩ recovers stepped
    exact ⟨sound.step (fun impossible => impossible.elim) stepped,
      remembers.step sound recovers stepped⟩
  have final := Machine.invariant_of_meets kept
    ⟨start_sound False persisted, Loop.start_remembers persisted⟩ recovers ran
  exact final.2.kept

/-! ### Runs -/

def Record.creates (id : DownloadId) (engine : JobEngine) : Record → Bool
  | .created other used => other = id && used = engine
  | _ => false

instance CreatedWith.decide (loop : Loop urls) (id : DownloadId) (engine : JobEngine) :
    Decidable (loop.CreatedWith id engine) :=
  decidable_of_iff (loop.history.any (·.creates id engine) = true) <| by
    rw [List.any_eq_true]
    constructor
    · rintro ⟨record, member, creates⟩
      cases record with
      | created other used =>
        rw [Record.creates, Bool.and_eq_true, decide_eq_true_eq, decide_eq_true_eq] at creates
        rw [creates.1, creates.2] at member
        exact member
      | _ => cases creates
    · intro member
      refine ⟨_, member, ?_⟩
      rw [Record.creates, decide_eq_true rfl, decide_eq_true rfl]
      rfl

instance Recovers.decide (loop : Loop urls) (id : DownloadId) (derived : JobEngine) :
    Decidable (loop.Recovers id derived) :=
  decidable_of_iff (∀ engine ∈ [JobEngine.http, JobEngine.stream],
    loop.CreatedWith id engine → derived = engine) <| by
      constructor
      · intro h engine
        exact h engine (by cases engine <;> simp)
      · exact fun h engine _ => h engine

instance LaunchesRecover.decide (rounds : Nat) (loop : Loop urls) :
    Decidable (Loop.LaunchesRecover rounds loop) :=
  match rounds with
  | 0 => isTrue trivial
  | rounds + 1 => by
    unfold Loop.LaunchesRecover
    split
    · exact isTrue trivial
    · rename_i job _
      have rest := LaunchesRecover.decide rounds (loop.launch job)
      infer_instance

instance StepRecovers.decide (wording : Wording urls) (loop : Loop urls) (event : LoopEvent urls) :
    Decidable (loop.StepRecovers wording event) := by
  unfold Loop.StepRecovers
  split <;> infer_instance

/-- The client asks for the stream engine. -/
def streamInput (url : String) : CreateInput where
  url := url.toList
  directory := some "/downloads"
  preferredFilename := none
  selection := none
  pageUrl := none
  pageTitle := none
  engine := some "stream".toList

/-- The job is created and a worker is spawned for it. -/
def creating (url : String) : List (LoopEvent cdnCrate) :=
  [.commanded (.create (streamInput url)), .main .proceeds] ++
    ([.managed .settled, .managed (.clock 0), .created (.ok firstJob), .managed .settled,
      .managed .settled, .managed .settled].map fun choice => .main (.served choice)) ++
    [.main .proceeds, .main (.performed .settled), .main .proceeds]

/-- Another process starts over the rows and schedules the job. -/
def recreated (url : String) : List (LoopEvent cdnCrate) :=
  startup ++ creating url ++ (.restarted :: startup ++ [.captured])

/-- The path of the URL names a playlist. -/
theorem playlist_engine_kept :
    ∃ loop, Machine.run (Loop.step plainWording) (Loop.start cdnCrate [])
        (recreated "https://cdn.example/v.m3u8") = some loop ∧
      loop.workers.length = 1 ∧ loop.EnginesKept := by
  have ended : (Machine.run (Loop.step plainWording) (Loop.start cdnCrate [])
      (recreated "https://cdn.example/v.m3u8")).map (·.workers.length) = some 1 := by
    decide +kernel
  obtain ⟨loop, ran, one⟩ := Option.map_eq_some_iff.mp ended
  exact ⟨loop, ran, one, engines_kept (by decide +kernel) ran⟩

def Record.used : Record → Option (DownloadId × JobEngine)
  | .launched job engine => some (job.id, engine)
  | _ => none

/-- The path of the URL names no playlist: the second process works out the other engine. -/
theorem stream_engine_lost :
    ∃ loop, Machine.run (Loop.step plainWording) (Loop.start cdnCrate [])
        (recreated "https://cdn.example/v") = some loop ∧
      loop.CreatedWith firstJob.1 .stream ∧ ¬ loop.EnginesKept := by
  have ended : (Machine.run (Loop.step plainWording) (Loop.start cdnCrate [])
      (recreated "https://cdn.example/v")).map (fun loop =>
        (decide (loop.CreatedWith firstJob.1 .stream), loop.history.head?.bind (·.used))) =
          some (true, some (firstJob.1, .http)) := by
    decide +kernel
  obtain ⟨loop, ran, same⟩ := Option.map_eq_some_iff.mp ended
  have created : loop.CreatedWith firstJob.1 .stream :=
    of_decide_eq_true (congrArg Prod.fst same)
  refine ⟨loop, ran, created, fun kept => ?_⟩
  have last : loop.history.head?.bind (·.used) = some (firstJob.1, .http) := congrArg Prod.snd same
  obtain ⟨record, first, used⟩ := Option.bind_eq_some_iff.mp last
  obtain ⟨older, history⟩ := List.head?_eq_some_iff.mp first
  cases record with
  | launched job engine =>
    have named : (job.id, engine) = (firstJob.1, .http) := Option.some.inj used
    rw [Prod.mk.injEq] at named
    unfold Loop.CreatedWith at created
    rw [history, ← named.1] at created
    have before : .created job.id .stream ∈ older := by
      cases List.mem_cons.mp created with
      | inl impossible => cases impossible
      | inr old => exact old
    have same := kept [] older job engine history .stream before
    rw [named.2] at same
    cases same
  | _ => cases used

end Gunda.Gundad

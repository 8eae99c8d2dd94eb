import Gunda.Core.History

/-!
# Serialized updates

What the write lock and the ownership of an active job give each call. A call
saves only while it holds the lock, and only over a row that no execution is
working on or that it saved last itself. `discipline` states this, and every
call is proved to keep it.
-/
namespace Gunda.Core

open Gunda.Lib
open Gunda.Lib.Discipline (Stable Triple Attempt)

variable {task : Nat} {id : DownloadId} {world after before : World}
    {candidate persisted : DownloadJob} {updatedAt : OffsetDateTime}

/-- An execution is working on the job. -/
def DownloadJob.active (job : DownloadJob) : Prop :=
  job.state.requiresRecoveryAfterRestart = true

def World.lastWriter (world : World) (id : DownloadId) : Option Nat :=
  (lastSave world.saves id).map (·.task)

/-- An execution that has saved nothing yet finds its job still queued. -/
def BeginsQueued (calls : List Call) (task : Nat) (op : ManagerOp) (world : World) : Prop :=
  match op with
  | .save candidate =>
      executes calls task → (∀ row ∈ world.saves, row.task ≠ task) →
        ∀ row ∈ world.rows candidate.id, row.state = .queued
  | _ => True

instance (calls : List Call) (task : Nat) (op : ManagerOp) (world : World) :
    Decidable (BeginsQueued calls task op world) :=
  match op with
  | .save candidate =>
      inferInstanceAs (Decidable (executes calls task → (∀ row ∈ world.saves, row.task ≠ task) →
        ∀ row ∈ world.rows candidate.id, row.state = .queued))
  | .job _ | .lockWrites | .unlockWrites | .insert _ _ | .nowUtc | .requestKind | .prepare _
  | .setPauseSupported _ | .transferControlled _ | .finalize _ | .onProgress _ _ =>
      inferInstanceAs (Decidable True)

/-- What a save needs of the row it replaces. -/
structure MayReplace (calls : List Call) (task : Nat) (world : World) (row candidate : DownloadJob) :
    Prop where
  owned : row.active → world.lastWriter candidate.id = some task
  reached : Reached row candidate
  begun : executes calls task → row.state = .queued ∨ world.lastWriter candidate.id = some task

structure World.Consistent (world : World) : Prop where
  keyed : ∀ id job, world.rows id = some job → job.id = id
  keyedJobs : ∀ id job, world.jobs id = some job → job.id = id
  released : world.holder = none → world.jobs = world.rows

/-- The call saved this active job last, and the manager shows it so. -/
structure World.Owns (task : Nat) (job : DownloadJob) (world : World) : Prop where
  row : world.rows job.id = some job
  shown : world.jobs job.id = some job
  writer : world.lastWriter job.id = some task
  active : job.active

/-- What the moves of other calls leave alone. -/
structure Undisturbed (task : Nat) (before after : World) : Prop where
  consistent : before.Consistent → after.Consistent
  holder : after.holder = some task ↔ before.holder = some task
  held : before.holder = some task →
    after.rows = before.rows ∧ after.jobs = before.jobs ∧ after.saves = before.saves
  owned : ∀ job, before.Owns task job → after.Owns task job
  fresh : (∀ row ∈ before.saves, row.task ≠ task) → ∀ row ∈ after.saves, row.task ≠ task

theorem Undisturbed.refl (task : Nat) (world : World) : Undisturbed task world world :=
  ⟨id, Iff.rfl, fun _ => ⟨rfl, rfl, rfl⟩, fun _ => id, id⟩

theorem Undisturbed.trans {s t u : World} (first : Undisturbed task s t)
    (second : Undisturbed task t u) : Undisturbed task s u where
  consistent h := second.consistent (first.consistent h)
  holder := second.holder.trans first.holder
  held h := by
    obtain ⟨rows, jobs, saves⟩ := first.held h
    obtain ⟨rows', jobs', saves'⟩ := second.held (first.holder.mpr h)
    exact ⟨rows'.trans rows, jobs'.trans jobs, saves'.trans saves⟩
  owned job h := second.owned job (first.owned job h)
  fresh h := second.fresh (first.fresh h)

/-- What a call needs before it performs an operation. -/
def Permitted (calls : List Call) (task : Nat) (op : ManagerOp) (world : World) : Prop :=
  match op with
  | .save candidate =>
      world.holder = some task ∧ world.jobs = world.rows ∧
        ∀ row, world.rows candidate.id = some row → MayReplace calls task world row candidate
  | .insert id job =>
      world.holder = some task ∧ world.rows id = some job ∧ upsert world.jobs id job = world.rows
  | .unlockWrites => world.jobs = world.rows
  | _ => True

@[simp] theorem upsert_self (entries : DownloadId → Option DownloadJob) (id : DownloadId)
    (job : DownloadJob) : upsert entries id job id = some job := if_pos rfl

theorem upsert_of_ne (entries : DownloadId → Option DownloadJob) {other : DownloadId}
    (job : DownloadJob) (h : other ≠ id) : upsert entries id job other = entries other := if_neg h

/-- A successful save, as the surroundings perform it. -/
theorem World.save_eq_some (h : world.save task candidate updatedAt = some (persisted, after)) :
    ∃ previous, world.rows candidate.id = some previous ∧
      persisted = { candidate with updatedAt := updatedAt } ∧
      after = { world with
        rows := upsert world.rows candidate.id persisted
        saves := ⟨task, previous, persisted⟩ :: world.saves } := by
  unfold World.save at h
  split at h
  · cases h
  · rename_i previous found
    cases h
    exact ⟨previous, found, rfl, rfl⟩

theorem lastWriter_cons_self {row : SavedRow} :
    World.lastWriter { world with saves := row :: world.saves } row.saved.id = some row.task := by
  simp [World.lastWriter, lastSave]

theorem lastWriter_cons_of_ne {row : SavedRow} (h : row.saved.id ≠ id) :
    World.lastWriter { world with saves := row :: world.saves } id = world.lastWriter id := by
  simp [World.lastWriter, lastSave, h]

theorem World.Consistent.keyed_upsert {entries : DownloadId → Option DownloadJob}
    (keyed : ∀ id job, entries id = some job → job.id = id) {job : DownloadJob}
    (key : job.id = id) :
    ∀ other row, upsert entries id job other = some row → row.id = other := by
  intro other row entry
  by_cases same : other = id
  · subst same
    rw [upsert_self] at entry
    cases entry
    exact key
  · rw [upsert_of_ne _ _ same] at entry
    exact keyed other row entry

/-- Saving under the lock keeps the maps keyed by identifier. -/
theorem World.Consistent.saved (consistent : before.Consistent) (held : before.holder = some task)
    (saved : before.save task candidate updatedAt = some (persisted, after)) :
    after.Consistent := by
  obtain ⟨previous, found, stamped, rfl⟩ := World.save_eq_some saved
  refine ⟨Consistent.keyed_upsert consistent.keyed (by rw [stamped]), consistent.keyedJobs, ?_⟩
  intro free
  rw [show before.holder = none from free] at held
  cases held

variable {calls : List Call}

/-- Another call's save disturbs neither the lock's holder nor an owner. -/
theorem undisturbed_save {i j : Nat} (other : i ≠ j)
    (permitted : Permitted calls i (.save candidate) before)
    (saved : before.save i candidate updatedAt = some (persisted, after)) :
    Undisturbed j before after := by
  obtain ⟨held, shown, replaces⟩ := permitted
  have consistent := fun c : before.Consistent => c.saved held saved
  obtain ⟨previous, found, stamped, rfl⟩ := World.save_eq_some saved
  have key : persisted.id = candidate.id := by rw [stamped]
  refine ⟨consistent, Iff.rfl, ?_, ?_, ?_⟩
  · intro mine
    rw [held] at mine
    cases mine
    exact absurd rfl other
  · intro job owns
    have distinct : job.id ≠ candidate.id := by
      intro same
      have row := owns.row
      rw [same, found] at row
      cases row
      have writer := (replaces previous found).owned owns.active
      rw [← same, owns.writer] at writer
      cases writer
      exact other rfl
    have elsewhere : persisted.id ≠ job.id := by
      rw [key]
      exact distinct.symm
    refine ⟨?_, owns.shown, ?_, owns.active⟩
    · exact (upsert_of_ne _ _ distinct).trans owns.row
    · exact (lastWriter_cons_of_ne elsewhere).trans owns.writer
  · intro fresh row member
    cases member with
    | head => exact other
    | tail _ older => exact fresh row older

theorem undisturbed_insert {i j : Nat} {job : DownloadJob} (other : i ≠ j)
    (permitted : Permitted calls i (.insert id job) before) :
    Undisturbed j before { before with jobs := upsert before.jobs id job } := by
  obtain ⟨held, row, shown⟩ := permitted
  refine ⟨fun consistent => ⟨consistent.keyed, ?_, fun _ => shown⟩, Iff.rfl, ?_, ?_, fun h => h⟩
  · intro key entry found
    exact consistent.keyed key entry ((congrFun shown key).symm.trans found)
  · intro mine
    rw [held] at mine
    cases mine
    exact absurd rfl other
  · intro owned owns
    exact ⟨owns.row, (congrFun shown owned.id).trans owns.row, owns.writer, owns.active⟩

theorem undisturbed_respond {i j : Nat} {op : ManagerOp} {choice : Choice} {before after : World}
    {answer : op.Answer} (other : i ≠ j) (permitted : Permitted calls i op before)
    (answered : respond i op choice before = some (answer, after)) :
    Undisturbed j before after := by
  cases op with
  | save candidate =>
    cases choice with
    | stored result =>
      cases result with
      | ok updatedAt =>
        obtain ⟨⟨persisted, next⟩, saved, same⟩ := Option.map_eq_some_iff.mp answered
        cases same
        exact undisturbed_save other permitted saved
      | error failure =>
        cases answered
        exact .refl j before
    | _ => cases answered
  | insert id job =>
    cases choice with
    | settled =>
      cases answered
      exact undisturbed_insert other permitted
    | _ => cases answered
  | lockWrites =>
    cases choice with
    | settled =>
      simp only [respond] at answered
      split at answered
      · rename_i free
        cases answered
        refine ⟨fun c => ⟨c.keyed, c.keyedJobs, nofun⟩, ?_, ?_, fun _ o => ⟨o.1, o.2, o.3, o.4⟩, id⟩
        · simp [free, other]
        · intro mine
          rw [free] at mine
          cases mine
      · cases answered
    | _ => cases answered
  | unlockWrites =>
    cases choice with
    | settled =>
      simp only [respond] at answered
      split at answered
      · rename_i held
        cases answered
        refine ⟨fun c => ⟨c.keyed, c.keyedJobs, fun _ => permitted⟩, ?_, ?_,
          fun _ o => ⟨o.1, o.2, o.3, o.4⟩, id⟩
        · simp [held, other]
        · intro mine
          rw [held] at mine
          cases mine
          exact absurd rfl other
      · cases answered
    | _ => cases answered
  | _ =>
    cases choice <;> cases answered
    exact .refl j before

/-- The discipline of the calls on one manager. -/
def discipline (calls : List Call) : Discipline respond where
  requires := Permitted calls
  admitted := BeginsQueued calls
  rely := Undisturbed
  rely_refl := Undisturbed.refl
  rely_trans := Undisturbed.trans
  respects other _ permitted answered := undisturbed_respond other permitted answered

section Calls

variable (calls : List Call) (i : Nat)
variable {P E : World → Prop} {ε α : Type}

/-- An assertion about the saved rows alone. -/
def Local (P : World → Prop) : Prop :=
  ∀ s t : World, s.rows = t.rows → s.jobs = t.jobs → s.saves = t.saves → P s → P t

/-- The call is outside the lock. -/
def Free (P : World → Prop) (world : World) : Prop :=
  world.Consistent ∧ world.holder ≠ some i ∧ P world

/-- The call holds the lock, and the manager shows what is persisted. -/
def Held (P : World → Prop) (world : World) : Prop :=
  world.Consistent ∧ world.holder = some i ∧ world.jobs = world.rows ∧ P world

def Anything (_ : World) : Prop := True

/-- The call has saved nothing yet. -/
def Fresh (world : World) : Prop := ∀ row ∈ world.saves, row.task ≠ i

variable {calls i}

theorem local_anything : Local Anything := fun _ _ _ _ _ _ => trivial

theorem local_fresh : Local (Fresh i) := by
  intro s t _ _ saves fresh
  unfold Fresh
  rw [← saves]
  exact fresh

theorem local_owns (job : DownloadJob) : Local (World.Owns i job) := by
  intro s t rows jobs saves owns
  refine ⟨?_, ?_, ?_, owns.active⟩
  · rw [← rows]
    exact owns.row
  · rw [← jobs]
    exact owns.shown
  · unfold World.lastWriter
    rw [← saves]
    exact owns.writer

theorem stable_anything : Stable (discipline calls) i Anything := fun _ _ => trivial

theorem stable_fresh : Stable (discipline calls) i (Fresh i) :=
  fun fresh moved => moved.fresh fresh

theorem stable_owns (job : DownloadJob) : Stable (discipline calls) i (World.Owns i job) :=
  fun owns moved => moved.owned job owns

theorem stable_free (stable : Stable (discipline calls) i P) :
    Stable (discipline calls) i (Free i P) := by
  rintro s t ⟨consistent, free, holds⟩ moved
  exact ⟨moved.consistent consistent, fun held => free (moved.holder.mp held), stable holds moved⟩

theorem stable_held (localP : Local P) :
    Stable (discipline calls) i (Held i P) := by
  rintro s t ⟨consistent, held, shown, holds⟩ moved
  obtain ⟨rows, jobs, saves⟩ := moved.held held
  refine ⟨moved.consistent consistent, moved.holder.mpr held, ?_, ?_⟩
  · rw [rows, jobs]
    exact shown
  · exact localP s t rows.symm jobs.symm saves.symm holds

/-- Operations that only ask the surroundings. -/
def Asks : ManagerOp → Prop
  | .lockWrites | .unlockWrites | .save _ | .insert _ _ => False
  | _ => True

/-- Asking changes nothing, and an unlocked read answers what the manager shows. -/
theorem respond_asks {op : ManagerOp} {choice : Choice} {answer : op.Answer} {s t : World}
    (asks : Asks op) (answered : respond i op choice s = some (answer, t)) : t = s := by
  cases op <;> first
    | exact False.elim asks
    | (cases choice <;> cases answered; rfl)

theorem ask (op : ManagerOp) (asks : Asks op) (stable : Stable (discipline calls) i P) :
    Attempt (discipline calls) i P (perform op : Managed ε op.Answer) (fun _ => P) E := by
  refine .perform stable (fun _ => stable) ?_ ?_
  · intro s _ _
    cases op <;> first
      | exact trivial
      | exact False.elim asks
  · intro s choice answer t holds _ answered
    rw [respond_asks asks answered]
    exact holds

section

variable (stable : Stable (discipline calls) i P) (stableE : Stable (discipline calls) i E)
  (fails : ∀ world, P world → E world)
include stable stableE fails

theorem okOr_attempt (error : ε) (found : Option α) :
    Attempt (discipline calls) i P (okOr error found)
      (fun value world => found = some value ∧ P world) E := by
  cases found with
  | some value => exact .pure (fun h moved => ⟨h.1, stable h.2 moved⟩) fun _ h => ⟨rfl, h⟩
  | none => exact .throw stableE fails

theorem orElse_attempt {ε' : Type} (error : ε') (computed : Except ε α) :
    Attempt (discipline calls) i P (orElse error computed)
      (fun value world => computed = .ok value ∧ P world) E := by
  cases computed with
  | ok value => exact .pure (fun h moved => ⟨h.1, stable h.2 moved⟩) fun _ h => ⟨rfl, h⟩
  | error e => exact .throw stableE fails

end

/-- An unlocked read answers what the manager shows at that moment. -/
theorem readJob {Q : Option DownloadJob → World → Prop} (id : DownloadId)
    (stable : Stable (discipline calls) i P)
    (stableAfter : ∀ answer, Stable (discipline calls) i (Q answer))
    (read : ∀ s, P s → Q (s.jobs id) s) :
    Attempt (discipline calls) i P
      (perform (.job id) : Managed ε (Option DownloadJob)) Q E := by
  refine .perform stable stableAfter (fun _ _ _ => trivial) ?_
  intro s choice answer t holds _ answered
  cases choice <;> cases answered
  exact read s holds

/-- Between acquiring and dropping the guard the call sees what is persisted. -/
theorem locked {Q : α → World → Prop} {p : Managed ε α} (stableP : Stable (discipline calls) i P)
    (localP : Local P) (stableE : Stable (discipline calls) i E) (localE : Local E)
    (stableQ : ∀ value, Stable (discipline calls) i (Q value)) (localQ : ∀ value, Local (Q value))
    (inside : Attempt (discipline calls) i (Held i P) p (fun value => Held i (Q value)) (Held i E)) :
    Attempt (discipline calls) i (Free i P) (withWriteLock p) (fun value => Free i (Q value))
      (Free i E) := by
  have acquired : Triple (discipline calls) i (Free i P)
      (Program.perform ManagerOp.lockWrites) (fun _ => Held i P) := by
    refine Triple.perform (stable_free stableP) (fun _ => stable_held localP)
      (fun _ _ _ => trivial) ?_
    rintro s choice answer t ⟨consistent, _, holds⟩ _ answered
    cases choice with
    | settled =>
      simp only [respond] at answered
      split at answered
      · rename_i free
        cases answered
        exact ⟨⟨consistent.keyed, consistent.keyedJobs, nofun⟩, rfl, consistent.released free,
          localP s _ rfl rfl rfl holds⟩
      · cases answered
    | _ => cases answered
  have dropped : ∀ {R : World → Prop}, Stable (discipline calls) i R → Local R →
      Triple (discipline calls) i (Held i R)
        (Program.perform ManagerOp.unlockWrites) (fun _ => Free i R) := by
    intro R stableR localR
    refine Triple.perform (stable_held localR) (fun _ => stable_free stableR)
      (fun s held _ => held.2.2.1) ?_
    rintro s choice answer t ⟨consistent, held, shown, holds⟩ _ answered
    cases choice with
    | settled =>
      simp only [respond, if_pos held] at answered
      cases answered
      exact ⟨⟨consistent.keyed, consistent.keyedJobs, fun _ => shown⟩, nofun,
        localR s _ rfl rfl rfl holds⟩
    | _ => cases answered
  refine Triple.bind acquired fun _ => Triple.bind inside fun result => ?_
  cases result with
  | ok value =>
    exact Triple.bind (dropped (stableQ value) (localQ value)) fun _ =>
      Triple.done (stable_free (stableQ value)) fun _ => id
  | error e =>
    exact Triple.bind (dropped stableE localE) fun _ =>
      Triple.done (stable_free stableE) fun _ => id

/-- What makes a candidate fit to be saved from an assertion. -/
def Permits (calls : List Call) (i : Nat) (P : World → Prop) (candidate : DownloadJob) : Prop :=
  ∀ world, Held i P world → BeginsQueued calls i (.save candidate) world →
    ∀ row, world.rows candidate.id = some row → MayReplace calls i world row candidate

/-- A saved job: the candidate with a normalized timestamp, owned while active. -/
def Saved (i : Nat) (candidate persisted : DownloadJob) (world : World) : Prop :=
  (∃ updatedAt, persisted = { candidate with updatedAt := updatedAt }) ∧
    (candidate.active → world.Owns i persisted)

theorem local_saved (candidate persisted : DownloadJob) : Local (Saved i candidate persisted) :=
  fun s t rows jobs saves ⟨stamped, owns⟩ =>
    ⟨stamped, fun active => local_owns persisted s t rows jobs saves (owns active)⟩

theorem stable_saved (candidate persisted : DownloadJob) :
    Stable (discipline calls) i (Saved i candidate persisted) :=
  fun ⟨stamped, owns⟩ moved => ⟨stamped, fun active => moved.owned persisted (owns active)⟩

theorem saveJobLocked_attempt {candidate : DownloadJob} (localP : Local P)
    (permits : Permits calls i P candidate) :
    Attempt (discipline calls) i (Held i P) (saveJobLocked candidate)
      (fun persisted => Held i (Saved i candidate persisted)) (Held i Anything) := by
  -- between the save and the insertion only the manager's map is behind
  let Stored (persisted : DownloadJob) (world : World) : Prop :=
    world.Consistent ∧ world.holder = some i ∧
      upsert world.jobs candidate.id persisted = world.rows ∧
      (∃ updatedAt, persisted = { candidate with updatedAt := updatedAt }) ∧
      world.rows candidate.id = some persisted ∧ world.lastWriter candidate.id = some i
  have stableStored : ∀ persisted, Stable (discipline calls) i (Stored persisted) := by
    rintro persisted s t ⟨consistent, held, shown, stamped, row, writer⟩ moved
    obtain ⟨rows, jobs, saves⟩ := moved.held held
    refine ⟨moved.consistent consistent, moved.holder.mpr held, ?_, stamped, ?_, ?_⟩
    · rw [rows, jobs]
      exact shown
    · rw [rows]
      exact row
    · unfold World.lastWriter
      rw [saves]
      exact writer
  have stored : Attempt (discipline calls) i (Held i P)
      (ExceptT.mk (Program.perform (ManagerOp.save candidate)) : Managed RepositoryError _)
      Stored (Held i Anything) := by
    refine Triple.perform (stable_held localP) ?_ ?_ ?_
    · rintro (e | persisted)
      · exact stable_held local_anything
      · exact stableStored persisted
    · rintro s ⟨consistent, held, shown, holds⟩ admitted
      exact ⟨held, shown, permits s ⟨consistent, held, shown, holds⟩ admitted⟩
    · rintro s choice answer t ⟨consistent, held, shown, holds⟩ _ answered
      cases choice with
      | stored result =>
        cases result with
        | ok updatedAt =>
          obtain ⟨⟨persisted, next⟩, saved, same⟩ := Option.map_eq_some_iff.mp answered
          cases same
          have keyed := consistent.saved held saved
          obtain ⟨previous, found, stamped, rfl⟩ := World.save_eq_some saved
          refine ⟨keyed, held, ?_, ⟨updatedAt, stamped⟩, upsert_self _ _ _, ?_⟩
          · rw [shown]
          · have key : persisted.id = candidate.id := by rw [stamped]
            rw [← key]
            exact lastWriter_cons_self
        | error failure =>
          cases answered
          exact ⟨consistent, held, shown, trivial⟩
      | _ => cases answered
  refine .bind (stable_held local_anything) stored fun persisted => ?_
  refine .of_fact (fun _ stored => stored.2.2.2.1) fun ⟨updatedAt, stamped⟩ => ?_
  -- the repository changed the timestamp only, so the answer is consistent
  have expected : persisted.snapshot =
      { candidate.snapshot with updatedAt := persisted.snapshot.updatedAt } := by
    rw [stamped]
    rfl
  have key : persisted.id = candidate.id := by rw [stamped]
  rw [if_neg (not_not.mpr expected)]
  have inserted : Attempt (discipline calls) i (Stored persisted)
      (perform (.insert candidate.id persisted) : Managed RepositoryError Unit)
      (fun _ => Held i (Saved i candidate persisted)) (Held i Anything) := by
    refine .perform (stableStored persisted)
      (fun _ => stable_held (local_saved candidate persisted))
      (fun s stored _ => ⟨stored.2.1, stored.2.2.2.2.1, stored.2.2.1⟩) ?_
    rintro s choice answer t ⟨consistent, held, shown, _, row, writer⟩ _ answered
    cases choice <;> cases answered
    refine ⟨⟨consistent.keyed, ?_, fun _ => shown⟩, held, shown, ⟨updatedAt, stamped⟩,
      fun active => ⟨?_, ?_, ?_, ?_⟩⟩
    · exact World.Consistent.keyed_upsert consistent.keyedJobs key
    · rw [key]
      exact row
    · rw [key]
      exact upsert_self _ _ _
    · rw [key]
      exact writer
    · rw [stamped]
      exact active
  refine .bind (stable_held local_anything) inserted fun _ => ?_
  exact .pure (stable_held (local_saved candidate persisted)) fun _ => id

theorem commitJob_attempt {candidate : DownloadJob} (stable : Stable (discipline calls) i P)
    (localP : Local P) (permits : Permits calls i P candidate) :
    Attempt (discipline calls) i (Free i P) (commitJob candidate)
      (fun persisted => Free i (Saved i candidate persisted)) (Free i Anything) :=
  locked stable localP stable_anything local_anything (stable_saved candidate)
    (local_saved candidate) (saveJobLocked_attempt localP permits)

end Calls

end Gunda.Core

import Gunda.Core.Manager
import Gunda.Lib.Trace

/-!
# Preconditions of the manager's steps

Rules for the small programs the manager is written with, over any surroundings:
each gives the precondition of one step, and those of the larger programs are
assembled from them.
-/
namespace Gunda.Core

open Gunda.Lib
open Fallible (andThen_ok wp wp_bind)

/-- The operations of a manager's program, newest first. -/
abbrev ManagerTrace := Trace ManagerOp ManagerOp.Answer

variable {σ ε ε' α : Type} (S : Spec ManagerOp ManagerOp.Answer σ)

theorem wp_perform (op : ManagerOp) (Q : Except ε op.Answer → σ → Prop) (s : σ) :
    wp S (perform op) Q s ↔
      S.requires op s ∧ ∀ answer t, S.ensures op s answer t → Q (.ok answer) t := Iff.rfl

theorem wp_okOr (error : ε) (found : Option α) (Q : Except ε α → σ → Prop) (s : σ) :
    wp S (okOr error found) Q s ↔
      (found = none → Q (.error error) s) ∧ ∀ value, found = some value → Q (.ok value) s := by
  cases found <;> simp [okOr]

theorem wp_orElse (error : ε') (computed : Except ε α) (Q : Except ε' α → σ → Prop) (s : σ) :
    wp S (orElse error computed) Q s ↔
      (∀ e, computed = .error e → Q (.error error) s) ∧
        ∀ value, computed = .ok value → Q (.ok value) s := by
  cases computed <;> simp [orElse]

theorem wp_repositoryFailure (p : Managed RepositoryError α)
    (Q : Except DownloadManagerError α → σ → Prop) (s : σ) :
    wp S (repositoryFailure p) Q s ↔
      wp S p (fun result t => Q (result.mapError .repository) t) s :=
  Fallible.wp_adapt S _ p Q s

/-- A checked computation between two operations. -/
theorem wp_repositoryResult (computed : Except RepositoryError α)
    (Q : Except DownloadManagerError α → σ → Prop) (s : σ) :
    wp S (repositoryFailure (ExceptT.mk (pure computed))) Q s ↔
      (∀ error, computed = .error error → Q (.error (.repository error)) s) ∧
        ∀ value, computed = .ok value → Q (.ok value) s := by
  rw [wp_repositoryFailure, Fallible.wp_result]
  cases computed <;> simp [Except.mapError]

/-- The clock is read, then the lifecycle decides. -/
theorem wp_executionTransition (job : DownloadJob) (next : DownloadState)
    (Q : Except RepositoryError DownloadJob → σ → Prop) (s : σ) :
    wp S (executionTransition job next) Q s ↔
      S.requires .nowUtc s ∧ ∀ now t, S.ensures .nowUtc s now t →
        (job.state.canTransitionTo next = false →
          Q (.error (invalidRepositoryData "execution requested an invalid lifecycle transition"))
            t) ∧
        (job.state.canTransitionTo next = true →
          Q (.ok { job with state := next, updatedAt := now }) t) := by
  unfold executionTransition
  rw [wp_bind, wp_perform]
  simp only [andThen_ok, wp_orElse]
  cases h : job.state.canTransitionTo next <;> simp [DownloadJob.transitionTo, h]

/-- The guard is dropped after the program, whatever it answers. -/
theorem wp_withWriteLock (p : Managed ε α) (Q : Except ε α → σ → Prop) (s : σ) :
    wp S (withWriteLock p) Q s ↔
      S.requires .lockWrites s ∧ ∀ t, S.ensures .lockWrites s () t →
        wp S p (fun result u =>
          S.requires .unlockWrites u ∧ ∀ v, S.ensures .unlockWrites u () v → Q result v) t := by
  change Program.wp S (Program.perform ManagerOp.lockWrites >>= _) Q s ↔ _
  rw [Program.wp_bind, Program.wp_perform]
  constructor
  · intro h
    refine ⟨h.1, fun t locked => ?_⟩
    have inside := h.2 () t locked
    rw [Program.wp_bind] at inside
    refine Program.wp_mono inside fun result u unlocked => ⟨unlocked.1, fun v => unlocked.2 () v⟩
  · intro h
    refine ⟨h.1, fun _ t locked => ?_⟩
    rw [Program.wp_bind]
    refine Program.wp_mono (h.2 t locked) fun result u unlocked => ⟨unlocked.1, fun _ => unlocked.2⟩

/-- Storage answered the candidate with its own timestamp. -/
def Stamped (candidate persisted : DownloadJob) : Prop :=
  persisted = { candidate with updatedAt := persisted.updatedAt }

theorem stamped_iff (candidate persisted : DownloadJob) :
    persisted.snapshot = { candidate.snapshot with updatedAt := persisted.snapshot.updatedAt } ↔
      Stamped candidate persisted := by
  constructor
  · intro same
    exact DownloadJob.snapshot_injective same
  · intro same
    rw [same]
    rfl

/-- A save is answered by an error, by an inconsistent row, or by the candidate with
storage's timestamp, which the manager then shows. -/
theorem wp_saveJobLocked (candidate : DownloadJob)
    (Q : Except RepositoryError DownloadJob → σ → Prop) (s : σ) :
    wp S (saveJobLocked candidate) Q s ↔
      S.requires (.save candidate) s ∧
        ∀ answer t, S.ensures (.save candidate) s answer t →
          (∀ error, answer = .error error → Q (.error error) t) ∧
          ∀ persisted, answer = .ok persisted →
            (¬ Stamped candidate persisted →
              Q (.error (invalidRepositoryData
                "repository returned an inconsistent updated download")) t) ∧
            (Stamped candidate persisted →
              S.requires (.insert candidate.id persisted) t ∧
                ∀ u, S.ensures (.insert candidate.id persisted) t () u → Q (.ok persisted) u) := by
  unfold saveJobLocked
  rw [wp_bind]
  change (S.requires (.save candidate) s ∧ ∀ answer t, S.ensures (.save candidate) s answer t →
    _) ↔ _
  refine and_congr_right fun _ => forall_congr' fun answer => forall_congr' fun t =>
    imp_congr_right fun _ => ?_
  cases answer with
  | error failure => simp
  | ok persisted =>
    have consistent := stamped_iff candidate persisted
    rw [Program.wp_done, andThen_ok]
    by_cases stamped : Stamped candidate persisted
    · rw [if_neg (not_not.mpr (consistent.mpr stamped)), wp_bind, wp_perform]
      simp [stamped]
      exact fun _ => ⟨fun h u => h () u, fun h _ u => h u⟩
    · rw [if_pos (fun same => stamped (consistent.mp same)), wp_bind, Fallible.wp_throw]
      simp [stamped]

end Gunda.Core

import Gunda.Core.Manager
import Gunda.Http.Client

/-!
# Saved progress of a direct download

`gunda-http/src/resume_state.rs` and the store of `gunda-storage/src/http_resume.rs`:
the validator and size of one representation, and how much of it is durable.
-/
namespace Gunda.Http

open Gunda.Core (RepositoryErrorKind)

structure HttpResumeState where
  strongEtag : StrongEntityTag
  totalBytes : Nat
  durableBytes : Nat
  within : durableBytes ≤ totalBytes
  deriving DecidableEq, Repr

def HttpResumeState.new (strongEtag : StrongEntityTag) (totalBytes durableBytes : Nat) :
    Option HttpResumeState :=
  if h : durableBytes ≤ totalBytes then some ⟨strongEtag, totalBytes, durableBytes, h⟩ else none

variable {state : HttpResumeState}

theorem HttpResumeState.new_eq_some {tag : StrongEntityTag} {total durable : Nat}
    (h : HttpResumeState.new tag total durable = some state) :
    state.strongEtag = tag ∧ state.totalBytes = total ∧ state.durableBytes = durable := by
  unfold HttpResumeState.new at h
  split at h
  · cases h
    exact ⟨rfl, rfl, rfl⟩
  · cases h

/-! ## The store -/

/-- What the store can keep of a count. -/
def maxStored : Nat := 2 ^ 63 - 1

/-- `HttpResumeStore::initialize`: a row that is there already is not replaced. -/
def initializeState (row : Option HttpResumeState) (strongEtag : StrongEntityTag)
    (totalBytes : Nat) : Except RepositoryErrorKind HttpResumeState :=
  if maxStored < totalBytes then .error .constraintViolation
  else if row.isSome then .error .constraintViolation
  else .ok ⟨strongEtag, totalBytes, 0, Nat.zero_le _⟩

/-- `HttpResumeStore::save_checkpoint`: the row keeps its representation, and its
checkpoint does not move back. -/
def saveCheckpoint (row : Option HttpResumeState) (state : HttpResumeState) :
    Except RepositoryErrorKind HttpResumeState :=
  if maxStored < state.totalBytes then .error .constraintViolation
  else match row with
    | none => .error .notFound
    | some stored =>
        if stored.strongEtag = state.strongEtag ∧ stored.totalBytes = state.totalBytes ∧
            stored.durableBytes ≤ state.durableBytes then .ok state
        else .error .constraintViolation

theorem initializeState_ok {row : Option HttpResumeState} {tag : StrongEntityTag} {total : Nat}
    (h : initializeState row tag total = .ok state) :
    row = none ∧ state = ⟨tag, total, 0, Nat.zero_le _⟩ := by
  unfold initializeState at h
  split at h
  · cases h
  · split at h
    · cases h
    · rename_i absent
      cases h
      exact ⟨Option.not_isSome_iff_eq_none.mp absent, rfl⟩

theorem saveCheckpoint_ok {row : Option HttpResumeState} {saved : HttpResumeState}
    (h : saveCheckpoint row state = .ok saved) :
    saved = state ∧ ∃ stored ∈ row, stored.strongEtag = state.strongEtag ∧
      stored.totalBytes = state.totalBytes ∧ stored.durableBytes ≤ state.durableBytes := by
  unfold saveCheckpoint at h
  split at h
  · cases h
  · split at h
    · cases h
    · rename_i stored
      split at h
      · rename_i kept
        cases h
        exact ⟨rfl, stored, rfl, kept⟩
      · cases h

end Gunda.Http

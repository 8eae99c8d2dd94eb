import Mathlib.Data.Option.Basic

/-!
# Download jobs

The aggregate of `gunda-core/src/download`: lifecycle states, progress, failures
and the job with its lifecycle methods. Byte counts are natural numbers; the
methods only compare them. Timestamps are integers, as the code only orders them.
-/
namespace Gunda.Core

variable {downloadedBytes : Nat} {totalBytes : Option Nat}

/-- Identifier of a persisted job; the constructor refuses values below one. -/
structure DownloadId where
  value : Int
  positive : 0 < value
  deriving DecidableEq

theorem two_positive : (0 : Int) < 2 := by decide

inductive DownloadState where
  | queued | inspecting | downloading | paused | finalizing
  | completed | failed | cancelled | interrupted
  deriving DecidableEq, Repr

namespace DownloadState

def canTransitionTo : DownloadState → DownloadState → Bool
  | .queued, .inspecting | .queued, .paused | .queued, .cancelled => true
  | .inspecting, .downloading | .inspecting, .paused | .inspecting, .failed
  | .inspecting, .interrupted | .inspecting, .cancelled => true
  | .downloading, .paused | .downloading, .finalizing | .downloading, .failed
  | .downloading, .interrupted | .downloading, .cancelled => true
  | .paused, .queued | .paused, .cancelled => true
  | .finalizing, .completed | .finalizing, .failed | .finalizing, .interrupted => true
  | .failed, .queued | .failed, .cancelled => true
  | .interrupted, .queued | .interrupted, .cancelled => true
  | _, _ => false

def canRestart : DownloadState → Bool
  | .queued | .paused | .interrupted | .failed | .cancelled | .completed => true
  | _ => false

/-- Work owned by the current process: what a restart has to reconcile. -/
def requiresRecoveryAfterRestart : DownloadState → Bool
  | .inspecting | .downloading | .finalizing => true
  | _ => false

theorem canTransitionTo_inspecting {s : DownloadState} (h : s.canTransitionTo .inspecting = true) :
    s = .queued := by
  cases s <;> first | rfl | cases h

/-- A job can be restarted exactly when no process owns its execution. -/
theorem canRestart_eq_not_active (s : DownloadState) :
    s.canRestart = !s.requiresRecoveryAfterRestart := by
  cases s <;> rfl

end DownloadState

structure InvalidStateTransition where
  source : DownloadState
  target : DownloadState
  deriving DecidableEq

/-- A progress checkpoint; it never exceeds a known total. -/
structure DownloadProgress where
  downloadedBytes : Nat
  totalBytes : Option Nat
  within : ∀ total ∈ totalBytes, downloadedBytes ≤ total
  deriving DecidableEq

structure InvalidDownloadProgress where
  downloadedBytes : Nat
  totalBytes : Nat
  deriving DecidableEq

def DownloadProgress.new (downloadedBytes : Nat) :
    Option Nat → Except InvalidDownloadProgress DownloadProgress
  | some totalBytes =>
      if h : totalBytes < downloadedBytes then .error ⟨downloadedBytes, totalBytes⟩
      else .ok ⟨downloadedBytes, some totalBytes, by
        intro total member
        cases member
        exact Nat.le_of_not_lt h⟩
  | none => .ok ⟨downloadedBytes, none, by rintro _ ⟨⟩⟩

theorem DownloadProgress.new_error {error : InvalidDownloadProgress}
    (h : DownloadProgress.new downloadedBytes totalBytes = .error error) :
    ∃ total ∈ totalBytes, total < downloadedBytes := by
  cases totalBytes with
  | none => cases h
  | some total =>
    simp only [DownloadProgress.new] at h
    split at h
    · exact ⟨total, rfl, ‹_›⟩
    · cases h

theorem DownloadProgress.new_ok {progress : DownloadProgress}
    (h : DownloadProgress.new downloadedBytes totalBytes = .ok progress) :
    progress.downloadedBytes = downloadedBytes ∧ progress.totalBytes = totalBytes := by
  cases totalBytes with
  | none =>
    cases h
    exact ⟨rfl, rfl⟩
  | some total =>
    simp only [DownloadProgress.new] at h
    split at h
    · cases h
    · cases h
      exact ⟨rfl, rfl⟩

theorem DownloadProgress.new_of_le (within : ∀ total ∈ totalBytes, downloadedBytes ≤ total) :
    DownloadProgress.new downloadedBytes totalBytes = .ok ⟨downloadedBytes, totalBytes, within⟩ := by
  cases totalBytes with
  | none => rfl
  | some total => exact dif_neg (Nat.not_lt.mpr (within total rfl))

def DownloadProgress.default : DownloadProgress := ⟨0, none, by rintro _ ⟨⟩⟩

inductive FailureKind where
  | network | authentication | remoteRejected | invalidResponse | unsupportedResource
  | permissionDenied | diskFull | integrity | storage | internal
  deriving DecidableEq, Repr

structure DownloadFailure where
  kind : FailureKind
  message : String
  retryable : Bool
  deriving DecidableEq, Repr

inductive ResourceKind where
  | unknown | file | hls | dash
  deriving DecidableEq, Repr

structure ResourceDescriptor where
  kind : ResourceKind
  displayName : Option String
  contentType : Option String
  deriving DecidableEq, Repr

/-- A parsed URL, held as its serialization: two URLs are equal when these are. -/
structure Url where
  serialization : List Char
  deriving DecidableEq, Repr

inductive HeaderSensitivity where
  | «public» | sensitive
  deriving DecidableEq, Repr

structure RequestHeader where
  name : String
  value : String
  sensitivity : HeaderSensitivity
  deriving DecidableEq, Repr

/-- Selector of one track of a presentation, opaque to the core. -/
structure ExecutionSelection where
  value : List Char
  deriving DecidableEq, Repr

namespace ExecutionSelection

def maxLen : Nat := 128

/-- Empty, long and free-form selectors are refused; every character kept is one byte. -/
def new (value : List Char) : Option ExecutionSelection :=
  if value = [] ∨ maxLen < value.length then none
  else if value.all fun c => c.isAlphanum || ['-', '_', '.', ':', ';', ',', '='].contains c then
    some ⟨value⟩
  else none

theorem new_eq_some {value : List Char} {selection : ExecutionSelection}
    (h : new value = some selection) : selection.value = value := by
  unfold new at h
  split at h
  · cases h
  · split at h
    · cases h
      rfl
    · cases h

end ExecutionSelection

structure RequestContext where
  url : Url
  headers : List RequestHeader
  selection : Option ExecutionSelection
  deriving DecidableEq, Repr

inductive FileConflictPolicy where
  | rename | overwrite | fail
  deriving DecidableEq, Repr

structure DownloadDestination where
  directory : String
  preferredFilename : Option String
  conflictPolicy : FileConflictPolicy
  deriving DecidableEq, Repr

structure ResolvedDestination where
  finalPath : String
  deriving DecidableEq, Repr

inductive DownloadOrigin where
  | desktop | cli
  | browser (pageUrl : Url) (pageTitle : Option String)
  deriving DecidableEq, Repr

structure NewDownload where
  request : RequestContext
  destination : DownloadDestination
  origin : DownloadOrigin
  deriving DecidableEq, Repr

abbrev OffsetDateTime := Int

structure DownloadJobSnapshot where
  id : DownloadId
  download : NewDownload
  resolvedDestination : Option ResolvedDestination
  resource : Option ResourceDescriptor
  state : DownloadState
  progress : DownloadProgress
  lastFailure : Option DownloadFailure
  createdAt : OffsetDateTime
  updatedAt : OffsetDateTime
  deriving DecidableEq

structure DownloadJob where
  id : DownloadId
  request : RequestContext
  origin : DownloadOrigin
  destination : DownloadDestination
  resolvedDestination : Option ResolvedDestination
  resource : Option ResourceDescriptor
  state : DownloadState
  progress : DownloadProgress
  lastFailure : Option DownloadFailure
  createdAt : OffsetDateTime
  updatedAt : OffsetDateTime
  deriving DecidableEq

namespace DownloadJob

variable {job next : DownloadJob} {at_ : OffsetDateTime}

def new (id : DownloadId) (download : NewDownload) (createdAt : OffsetDateTime) : DownloadJob where
  id := id
  request := download.request
  origin := download.origin
  destination := download.destination
  resolvedDestination := none
  resource := none
  state := .queued
  progress := .default
  lastFailure := none
  createdAt := createdAt
  updatedAt := createdAt

def snapshot (job : DownloadJob) : DownloadJobSnapshot where
  id := job.id
  download := ⟨job.request, job.destination, job.origin⟩
  resolvedDestination := job.resolvedDestination
  resource := job.resource
  state := job.state
  progress := job.progress
  lastFailure := job.lastFailure
  createdAt := job.createdAt
  updatedAt := job.updatedAt

/-- A snapshot loses nothing of the aggregate. -/
theorem snapshot_injective {a b : DownloadJob} (h : a.snapshot = b.snapshot) : a = b := by
  cases a
  cases b
  simp only [snapshot, DownloadJobSnapshot.mk.injEq, NewDownload.mk.injEq] at h
  obtain ⟨id, ⟨request, destination, origin⟩, resolved, resource, state, progress, failure,
    created, updated⟩ := h
  simp only [mk.injEq]
  exact ⟨id, request, origin, destination, resolved, resource, state, progress, failure,
    created, updated⟩

def transitionTo (job : DownloadJob) (next : DownloadState) (updatedAt : OffsetDateTime) :
    Except InvalidStateTransition DownloadJob :=
  if job.state.canTransitionTo next then .ok { job with state := next, updatedAt := updatedAt }
  else .error ⟨job.state, next⟩

def restart (job : DownloadJob) (updatedAt : OffsetDateTime) :
    Except InvalidStateTransition DownloadJob :=
  if job.state.canRestart then
    .ok { job with
      state := .queued
      progress := .default
      resource := none
      resolvedDestination := none
      lastFailure := none
      updatedAt := updatedAt }
  else .error ⟨job.state, .queued⟩

def updateProgress (job : DownloadJob) (progress : DownloadProgress)
    (updatedAt : OffsetDateTime) : DownloadJob :=
  { job with progress := progress, updatedAt := updatedAt }

def setResource (job : DownloadJob) (resource : ResourceDescriptor)
    (updatedAt : OffsetDateTime) : DownloadJob :=
  { job with resource := some resource, updatedAt := updatedAt }

def resolveDestination (job : DownloadJob) (destination : ResolvedDestination)
    (updatedAt : OffsetDateTime) : DownloadJob :=
  { job with resolvedDestination := some destination, updatedAt := updatedAt }

def fail (job : DownloadJob) (failure : DownloadFailure) (updatedAt : OffsetDateTime) :
    Except InvalidStateTransition DownloadJob :=
  if job.state.canTransitionTo .failed then
    .ok { job with state := .failed, lastFailure := some failure, updatedAt := updatedAt }
  else .error ⟨job.state, .failed⟩

theorem transitionTo_ok {state : DownloadState} (h : job.transitionTo state at_ = .ok next) :
    job.state.canTransitionTo state = true ∧
      next = { job with state := state, updatedAt := at_ } := by
  unfold transitionTo at h
  split at h
  · exact ⟨‹_›, (Except.ok.inj h).symm⟩
  · cases h

theorem fail_ok {failure : DownloadFailure} (h : job.fail failure at_ = .ok next) :
    job.state.canTransitionTo .failed = true ∧
      next = { job with state := .failed, lastFailure := some failure, updatedAt := at_ } := by
  unfold fail at h
  split at h
  · exact ⟨‹_›, (Except.ok.inj h).symm⟩
  · cases h

theorem restart_ok (h : job.restart at_ = .ok next) :
    job.state.canRestart = true ∧ next.state = .queued ∧ next.id = job.id := by
  unfold restart at h
  split at h
  · cases Except.ok.inj h
    exact ⟨‹_›, rfl, rfl⟩
  · cases h

@[simp] theorem updateProgress_state (job : DownloadJob) (progress : DownloadProgress)
    (at_ : OffsetDateTime) : (job.updateProgress progress at_).state = job.state := rfl

@[simp] theorem resolveDestination_id (job : DownloadJob) (destination : ResolvedDestination)
    (at_ : OffsetDateTime) : (job.resolveDestination destination at_).id = job.id := rfl

@[simp] theorem resolveDestination_state (job : DownloadJob) (destination : ResolvedDestination)
    (at_ : OffsetDateTime) : (job.resolveDestination destination at_).state = job.state := rfl

end DownloadJob

end Gunda.Core

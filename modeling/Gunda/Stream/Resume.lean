import Gunda.Core.Manager
import Gunda.Lib.Result
import Mathlib.Algebra.Ring.Nat

/-!
# Saved progress of a segmented download

`gunda-stream/src/resume.rs` and the store of `gunda-storage/src/stream_resume.rs`:
one checkpoint a track, which a save may move forward and never back.
-/
namespace Gunda.Stream

open Gunda.Core (RepositoryErrorKind)

/-- The sixteen bytes of the digest, as the two words they are written from. -/
structure PlanFingerprint where
  first : UInt64
  second : UInt64
  deriving DecidableEq

structure TrackCheckpoint where
  nextResource : Nat
  durableBytes : Nat
  deriving DecidableEq, Repr

def TrackCheckpoint.start : TrackCheckpoint := ⟨0, 0⟩

structure StreamResumeState where
  fingerprint : PlanFingerprint
  tracks : List TrackCheckpoint
  oneOrTwo : tracks ≠ [] ∧ tracks.length ≤ 2
  deriving DecidableEq

namespace StreamResumeState

def new (fingerprint : PlanFingerprint) (tracks : List TrackCheckpoint) :
    Option StreamResumeState :=
  if h : tracks ≠ [] ∧ tracks.length ≤ 2 then some ⟨fingerprint, tracks, h⟩ else none

/-- The track's checkpoint moves forward; `none` where it would move back. -/
def withTrack (state : StreamResumeState) (track : Nat) (checkpoint : TrackCheckpoint) :
    Option StreamResumeState := do
  let current ← state.tracks[track]?
  if checkpoint.nextResource < current.nextResource ∨
      checkpoint.durableBytes < current.durableBytes then
    none
  new state.fingerprint (state.tracks.set track checkpoint)

def startingBytes (state : StreamResumeState) : Nat :=
  (state.tracks.map (·.durableBytes)).foldl (fun total bytes => min (total + bytes) (2 ^ 64 - 1)) 0

theorem new_eq_some {fingerprint : PlanFingerprint} {tracks : List TrackCheckpoint}
    {state : StreamResumeState} (h : new fingerprint tracks = some state) :
    state.fingerprint = fingerprint ∧ state.tracks = tracks := by
  unfold new at h
  split at h
  · cases h
    exact ⟨rfl, rfl⟩
  · cases h

/-- A state the checks accept is the old one with a later checkpoint in its place. -/
theorem withTrack_eq_some {state next : StreamResumeState} {track : Nat}
    {checkpoint : TrackCheckpoint} (h : state.withTrack track checkpoint = some next) :
    next.fingerprint = state.fingerprint ∧ next.tracks = state.tracks.set track checkpoint ∧
      ∃ current, state.tracks[track]? = some current ∧
        current.nextResource ≤ checkpoint.nextResource ∧
        current.durableBytes ≤ checkpoint.durableBytes := by
  unfold withTrack at h
  obtain ⟨current, found, h⟩ := Option.bind_eq_some_iff.mp h
  split at h
  · cases h
  · rename_i forward
    obtain ⟨same, tracks⟩ := new_eq_some h
    exact ⟨same, tracks, current, found, by omega, by omega⟩

end StreamResumeState

/-! ## The store -/

/-- What the store can keep of a count. -/
def maxStored : Nat := 2 ^ 63 - 1

/-- `StreamResumeStore::initialize`: a row with every track at its start. -/
def initializeState (row : Option StreamResumeState) (fingerprint : PlanFingerprint)
    (trackCount : Nat) : Except RepositoryErrorKind StreamResumeState :=
  match StreamResumeState.new fingerprint (List.replicate trackCount .start) with
  | none => .error .invalidData
  | some state => if row.isSome then .error .constraintViolation else .ok state

/-- `StreamResumeStore::save_checkpoint`: the row belongs to the same plan, and no
checkpoint of it moves back. -/
def saveCheckpoint (row : Option StreamResumeState) (state : StreamResumeState) :
    Except RepositoryErrorKind StreamResumeState :=
  match row with
  | none => .error .notFound
  | some stored =>
      if stored.fingerprint ≠ state.fingerprint then .error .notFound
      else if stored.tracks.length ≠ state.tracks.length then .error .constraintViolation
      else if (stored.tracks.zip state.tracks).all fun (old, new) =>
          new.nextResource ≤ maxStored && new.durableBytes ≤ maxStored &&
            old.nextResource ≤ new.nextResource && old.durableBytes ≤ new.durableBytes then
        .ok state
      else .error .constraintViolation

variable {row : Option StreamResumeState} {state : StreamResumeState}

theorem initializeState_ok {fingerprint : PlanFingerprint} {trackCount : Nat}
    (h : initializeState row fingerprint trackCount = .ok state) :
    state.fingerprint = fingerprint ∧ state.tracks = List.replicate trackCount .start := by
  unfold initializeState at h
  split at h
  · cases h
  · rename_i fresh created
    split at h
    · cases h
    · cases h
      exact StreamResumeState.new_eq_some created

/-- Only the row of the same plan takes a checkpoint. -/
theorem saveCheckpoint_same_plan {saved : StreamResumeState}
    (h : saveCheckpoint row state = .ok saved) :
    ∃ stored ∈ row, stored.fingerprint = state.fingerprint := by
  unfold saveCheckpoint at h
  split at h
  · cases h
  · rename_i stored
    split at h
    · cases h
    · rename_i same
      exact ⟨stored, rfl, not_not.mp same⟩

theorem saveCheckpoint_ok {saved : StreamResumeState} (h : saveCheckpoint row state = .ok saved) :
    saved = state := by
  unfold saveCheckpoint at h
  split at h
  · cases h
  · split at h
    · cases h
    · split at h
      · cases h
      · split at h
        · cases h
          rfl
        · cases h

end Gunda.Stream

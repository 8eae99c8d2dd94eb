import Gunda.Http.Resume
import Gunda.Lib.Transaction
import Gunda.Stream.Resume

/-!
# The stores of saved progress

`gunda-storage/src/stream_resume.rs` and `http_resume.rs` over the tables of their
migrations: a save is a conditional update of every track in one transaction, or of
the one row of a direct download.
-/
namespace Gunda.Storage

open Gunda.Lib
open Fallible (Yields)
open Sql (Within spec)
open Gunda.Core (DownloadId RepositoryErrorKind)
open Gunda.Stream (PlanFingerprint TrackCheckpoint StreamResumeState)
open Gunda.Http (StrongEntityTag HttpResumeState)

/-! ## Tables -/

structure StreamRow where
  planFingerprint : PlanFingerprint
  trackCount : Nat
  deriving DecidableEq

structure HttpRow where
  strongEtag : Text
  totalBytes : Nat
  durableBytes : Nat
  deriving DecidableEq

/-- The three tables by their primary keys. -/
structure ResumeTables where
  streamResumeState : DownloadId → Option StreamRow
  streamResumeTracks : DownloadId → Nat → Option TrackCheckpoint
  httpResumeState : DownloadId → Option HttpRow

inductive ResumeStatement where
  | selectTrackCount (id : DownloadId) (fingerprint : PlanFingerprint)
  | updateTrack (id : DownloadId) (track : Nat) (checkpoint : TrackCheckpoint)
  | updateDurable (id : DownloadId) (strongEtag : Text) (totalBytes durableBytes : Nat)
  | selectHttp (id : DownloadId)

/-- The rows that are found, or how many are affected. -/
abbrev ResumeStatement.Result : ResumeStatement → Type
  | .selectTrackCount .. => Option Nat
  | .updateTrack .. | .updateDurable .. => Nat
  | .selectHttp _ => Option HttpRow

namespace ResumeTables

def setTrack (tables : ResumeTables) (id : DownloadId) (track : Nat)
    (checkpoint : TrackCheckpoint) : ResumeTables :=
  { tables with
    streamResumeTracks := fun other index =>
      if other = id ∧ index = track then some checkpoint
      else tables.streamResumeTracks other index }

def setHttp (tables : ResumeTables) (id : DownloadId) (row : HttpRow) : ResumeTables :=
  { tables with
    httpResumeState := fun other => if other = id then some row else tables.httpResumeState other }

/-- One statement; `none` where a constraint of the table refuses it. -/
def run : (statement : ResumeStatement) → ResumeTables → Option (statement.Result × ResumeTables)
  | .selectTrackCount id fingerprint, tables =>
      some (((tables.streamResumeState id).filter (·.planFingerprint = fingerprint)).map
        (·.trackCount), tables)
  | .updateTrack id track checkpoint, tables =>
      if (tables.streamResumeTracks id track).any fun old =>
          old.nextResource ≤ checkpoint.nextResource && old.durableBytes ≤ checkpoint.durableBytes then
        some (1, tables.setTrack id track checkpoint)
      else some (0, tables)
  | .updateDurable id strongEtag totalBytes durableBytes, tables =>
      match tables.httpResumeState id with
      | some row =>
          if row.strongEtag = strongEtag ∧ row.totalBytes = totalBytes ∧
              row.durableBytes ≤ durableBytes then
            if durableBytes ≤ row.totalBytes then
              some (1, tables.setHttp id { row with durableBytes := durableBytes })
            else none
          else some (0, tables)
      | none => some (0, tables)
  | .selectHttp id, tables => some (tables.httpResumeState id, tables)

end ResumeTables

abbrev ResumeSession (α : Type) : Type := Sql.Session ResumeStatement.Result RepositoryErrorKind α

def encodeCount (value : Nat) : ResumeSession Unit :=
  if Stream.maxStored < value then throw .constraintViolation else pure ()

/-! ## Segmented downloads -/

namespace SqliteStreamResumeStore

/-- The checkpoints from this track on, one conditional update each. -/
def updateTracks (id : DownloadId) : Nat → List TrackCheckpoint → ResumeSession Unit
  | _, [] => pure ()
  | track, checkpoint :: rest => do
      encodeCount checkpoint.nextResource
      encodeCount checkpoint.durableBytes
      let affected : Nat ←
        Sql.execute (ResumeStatement.updateTrack id track checkpoint) .internal
      if affected ≠ 1 then
        throw .constraintViolation
      updateTracks id (track + 1) rest

def saveCheckpoint (id : DownloadId) (state : StreamResumeState) :
    ResumeSession StreamResumeState :=
  Sql.transaction .internal .internal do
    let found : Option Nat ←
      Sql.execute (ResumeStatement.selectTrackCount id state.fingerprint) .internal
    match found with
    | none => throw .notFound
    | some trackCount =>
        if trackCount ≠ state.tracks.length then
          throw .constraintViolation
        updateTracks id 0 state.tracks
        pure state

end SqliteStreamResumeStore

/-! ## Direct downloads -/

namespace SqliteHttpResumeStore

def decodeState (row : HttpRow) : Except RepositoryErrorKind HttpResumeState :=
  match StrongEntityTag.parse row.strongEtag with
  | none => .error .invalidData
  | some tag => match HttpResumeState.new tag row.totalBytes row.durableBytes with
    | none => .error .invalidData
    | some state => .ok state

def find (id : DownloadId) : ResumeSession (Option HttpResumeState) := do
  let found : Option HttpRow ← Sql.execute (ResumeStatement.selectHttp id) .internal
  match found with
  | none => pure none
  | some row => some <$> ExceptT.mk (pure (decodeState row))

def saveCheckpoint (id : DownloadId) (state : HttpResumeState) :
    ResumeSession HttpResumeState := do
  encodeCount state.totalBytes
  encodeCount state.durableBytes
  let affected : Nat ← Sql.execute (ResumeStatement.updateDurable id state.strongEtag.value
    state.totalBytes state.durableBytes) .internal
  if affected = 1 then
    pure state
  else if (← find id).isNone then
    throw .notFound
  else throw .constraintViolation

end SqliteHttpResumeStore

/-! ## What a save may change -/

/-- The checkpoints of a job from this track on; every other row is kept. -/
def ResumeTables.withTracks (tables : ResumeTables) (id : DownloadId) (first : Nat)
    (checkpoints : List TrackCheckpoint) : ResumeTables :=
  { tables with
    streamResumeTracks := fun other track =>
      if other = id ∧ first ≤ track ∧ track < first + checkpoints.length then
        checkpoints[track - first]?
      else tables.streamResumeTracks other track }

/-- Each checkpoint has a row that it does not move back. -/
def ResumeTables.Advances (tables : ResumeTables) (id : DownloadId) (first : Nat)
    (checkpoints : List TrackCheckpoint) : Prop :=
  ∀ index checkpoint, checkpoints[index]? = some checkpoint →
    ∃ old, tables.streamResumeTracks id (first + index) = some old ∧
      old.nextResource ≤ checkpoint.nextResource ∧ old.durableBytes ≤ checkpoint.durableBytes

/-- A save of either store. -/
inductive SaveRequest where
  | stream (id : DownloadId) (state : StreamResumeState)
  | http (id : DownloadId) (state : HttpResumeState)

namespace SaveRequest

def save : SaveRequest → ResumeSession Unit
  | .stream id state => do
      let _ ← SqliteStreamResumeStore.saveCheckpoint id state
  | .http id state => do
      let _ ← SqliteHttpResumeStore.saveCheckpoint id state

/-- The row belongs to the attempt that saves, and nothing of it moves back. -/
def Permitted (tables : ResumeTables) : SaveRequest → Prop
  | .stream id state =>
      tables.streamResumeState id = some ⟨state.fingerprint, state.tracks.length⟩ ∧
      tables.Advances id 0 state.tracks
  | .http id state => ∃ durableBytes ≤ state.durableBytes,
      tables.httpResumeState id = some ⟨state.strongEtag.value, state.totalBytes, durableBytes⟩

def saved (tables : ResumeTables) : SaveRequest → ResumeTables
  | .stream id state => tables.withTracks id 0 state.tracks
  | .http id state =>
      tables.setHttp id ⟨state.strongEtag.value, state.totalBytes, state.durableBytes⟩

/-- The tables before and after a save, by its result. -/
def Answered (request : SaveRequest) (before : ResumeTables) :
    Except RepositoryErrorKind Unit → ResumeTables → Prop
  | .ok (), after => request.Permitted before ∧ after = request.saved before
  | .error _, after => after = before

end SaveRequest

/-- Saves that ran to their end one after the other, with their results. -/
inductive Saves : ResumeTables → List (SaveRequest × Except RepositoryErrorKind Unit) →
    ResumeTables → Prop where
  | nil {tables : ResumeTables} : Saves tables [] tables
  | cons {tables after : ResumeTables} {request : SaveRequest} {choices : List Bool}
      {result : Except RepositoryErrorKind Unit} {c : Connection ResumeTables}
      {later : List (SaveRequest × Except RepositoryErrorKind Unit)}
      (finished : Program.finish (Connection.surroundings ResumeTables.run) request.save.run choices
        (.idle tables) = some (result, c))
      (rest : Saves c.stored later after) : Saves tables ((request, result) :: later) after

/-- What belongs to an attempt is kept, and its progress does not decrease. -/
structure ResumeTables.Continues (before after : ResumeTables) : Prop where
  attempts : after.streamResumeState = before.streamResumeState
  tracks : ∀ id track old, before.streamResumeTracks id track = some old →
    ∃ new, after.streamResumeTracks id track = some new ∧
      old.nextResource ≤ new.nextResource ∧ old.durableBytes ≤ new.durableBytes
  noTracks : ∀ id track, before.streamResumeTracks id track = none →
    after.streamResumeTracks id track = none
  representations : ∀ id old, before.httpResumeState id = some old →
    ∃ durableBytes, old.durableBytes ≤ durableBytes ∧
      after.httpResumeState id = some ⟨old.strongEtag, old.totalBytes, durableBytes⟩
  noRepresentations : ∀ id, before.httpResumeState id = none → after.httpResumeState id = none

/-! ## One save -/

section Save

variable {tables stored pending : ResumeTables} {id : DownloadId}
variable {first : Nat} {checkpoint : TrackCheckpoint}

theorem encodeCount_within {value : Nat} :
    Within ResumeTables.run stored (encodeCount value) (fun _ t => t = pending) pending := by
  unfold encodeCount
  split
  · exact .fail _
  · exact .pure rfl

theorem ResumeTables.withTracks_nil : tables.withTracks id first [] = tables := by
  simp only [ResumeTables.withTracks, List.length_nil]
  congr
  funext other track
  rw [if_neg (by omega)]

/-- The rows of the first checkpoint and of the others. -/
theorem ResumeTables.withTracks_cons {rest : List TrackCheckpoint} :
    tables.withTracks id first (checkpoint :: rest) =
      (tables.setTrack id first checkpoint).withTracks id (first + 1) rest := by
  simp only [ResumeTables.withTracks, ResumeTables.setTrack, List.length_cons]
  congr
  funext other track
  by_cases own : other = id
  · by_cases here : track = first
    · subst here
      simp [own]
    · by_cases later : first + 1 ≤ track
      · have shifted : track - first = track - (first + 1) + 1 := by omega
        simp only [own, here, shifted, List.getElem?_cons_succ, true_and, and_false, if_false]
        have bounds : (first ≤ track ∧ track < first + (rest.length + 1)) ↔
            first + 1 ≤ track ∧ track < first + 1 + rest.length := by omega
        rw [if_congr bounds rfl rfl]
      · have outside : ¬ (first ≤ track ∧ track < first + (rest.length + 1)) := by omega
        have below : ¬ (first + 1 ≤ track ∧ track < first + 1 + rest.length) := by omega
        simp only [own, here, outside, below, and_false, if_false]
  · simp [own]

/-- Updating a track leaves the rows of the later ones to be checked. -/
theorem ResumeTables.advances_cons {old : TrackCheckpoint} {rest : List TrackCheckpoint}
    (found : tables.streamResumeTracks id first = some old)
    (nextResource : old.nextResource ≤ checkpoint.nextResource)
    (durableBytes : old.durableBytes ≤ checkpoint.durableBytes)
    (later : (tables.setTrack id first checkpoint).Advances id (first + 1) rest) :
    tables.Advances id first (checkpoint :: rest) := by
  intro index new listed
  cases index with
  | zero =>
    cases listed
    exact ⟨old, found, nextResource, durableBytes⟩
  | succ index =>
    obtain ⟨row, known, kept⟩ := later index new listed
    have elsewhere : first + 1 + index ≠ first := by omega
    simp only [ResumeTables.setTrack, elsewhere, and_false, if_false] at known
    exact ⟨row, by rw [← known]; congr 1; omega, kept⟩

theorem ResumeTables.run_updateTrack {track : Nat} {affected : Nat} {after : ResumeTables}
    (ran : ResumeTables.run (.updateTrack id track checkpoint) tables = some (affected, after)) :
    affected = 1 ∧ after = tables.setTrack id track checkpoint ∧
        (∃ old, tables.streamResumeTracks id track = some old ∧
          old.nextResource ≤ checkpoint.nextResource ∧ old.durableBytes ≤ checkpoint.durableBytes) ∨
      affected = 0 ∧ after = tables := by
  simp only [ResumeTables.run] at ran
  split at ran
  · rename_i forward
    cases ran
    obtain ⟨old, found, kept⟩ := (Option.any_eq_true _ _).mp forward
    simp only [Bool.and_eq_true, decide_eq_true_eq] at kept
    exact Or.inl ⟨rfl, rfl, old, found, kept⟩
  · cases ran
    exact Or.inr ⟨rfl, rfl⟩

theorem updateTracks_within {track : Nat} {checkpoints : List TrackCheckpoint} :
    Within ResumeTables.run stored
      (SqliteStreamResumeStore.updateTracks id track checkpoints)
      (fun _ t => pending.Advances id track checkpoints ∧
        t = pending.withTracks id track checkpoints) pending := by
  induction checkpoints generalizing track pending with
  | nil =>
    apply Within.pure
    refine ⟨?_, ResumeTables.withTracks_nil.symm⟩
    intro index checkpoint listed
    cases listed
  | cons checkpoint rest ih =>
    apply Within.bind encodeCount_within
    intro _ t unchanged
    subst unchanged
    apply Within.bind encodeCount_within
    intro _ t unchanged
    subst unchanged
    apply Within.bind (Within.execute fun _ _ ran => ResumeTables.run_updateTrack ran)
    intro affected t updated
    obtain ⟨one, rfl, old, found, kept⟩ | ⟨none, -⟩ := updated
    · rw [if_neg (fun other => other one)]
      apply Within.mono ih
      intro _ after reached
      obtain ⟨later, written⟩ := reached
      refine ⟨ResumeTables.advances_cons found kept.1 kept.2 later, ?_⟩
      rw [written, ResumeTables.withTracks_cons]
    · rw [if_pos (by omega)]
      exact Within.throw_bind

theorem saveCheckpoint_stream {state : StreamResumeState} :
    Yields (spec ResumeTables.run) (fun c => c = .idle tables)
      (SqliteStreamResumeStore.saveCheckpoint id state)
      (fun _ c => ∃ after, c = .idle after ∧
        (SaveRequest.stream id state).Permitted tables ∧
        after = (SaveRequest.stream id state).saved tables) (.idle tables) := by
  apply Sql.transaction_yields
  apply Within.bind (Within.execute fun _ _ ran => ran)
  intro found t selected
  cases selected
  cases known : tables.streamResumeState id with
  | none => exact Within.fail _
  | some row =>
    simp only [Option.filter_some, decide_eq_true_eq]
    by_cases own : row.planFingerprint = state.fingerprint
    · rw [if_pos own, Option.map_some]
      dsimp only
      by_cases count : row.trackCount = state.tracks.length
      · rw [if_neg (fun other => other count)]
        apply Within.bind updateTracks_within
        intro _ after reached
        apply Within.pure
        refine ⟨⟨?_, reached.1⟩, reached.2⟩
        rw [known, ← own, ← count]
      · rw [if_pos count]
        exact Within.throw_bind
    · rw [if_neg own]
      exact Within.fail _

theorem ResumeTables.run_updateDurable {strongEtag : Text} {totalBytes durableBytes affected : Nat}
    {after : ResumeTables} (ran : ResumeTables.run
      (.updateDurable id strongEtag totalBytes durableBytes) tables = some (affected, after)) :
    affected = 1 ∧ after = tables.setHttp id ⟨strongEtag, totalBytes, durableBytes⟩ ∧
        (∃ old ≤ durableBytes, tables.httpResumeState id = some ⟨strongEtag, totalBytes, old⟩) ∨
      affected = 0 ∧ after = tables := by
  simp only [ResumeTables.run] at ran
  cases known : tables.httpResumeState id with
  | none =>
    rw [known] at ran
    cases ran
    exact Or.inr ⟨rfl, rfl⟩
  | some row =>
    rw [known] at ran
    dsimp only at ran
    by_cases own : row.strongEtag = strongEtag ∧ row.totalBytes = totalBytes ∧
        row.durableBytes ≤ durableBytes
    · rw [if_pos own] at ran
      obtain ⟨rfl, rfl, forward⟩ := own
      split at ran
      · cases ran
        exact Or.inl ⟨rfl, rfl, row.durableBytes, forward, rfl⟩
      · cases ran
    · rw [if_neg own] at ran
      cases ran
      exact Or.inr ⟨rfl, rfl⟩

theorem encodeCount_yields {value : Nat} :
    Yields (spec ResumeTables.run) (fun c => c = .idle tables) (encodeCount value)
      (fun _ c => c = .idle tables) (.idle tables) := by
  unfold encodeCount
  split
  · exact .fail _ rfl
  · exact .pure rfl

theorem find_yields :
    Yields (spec ResumeTables.run) (fun c => c = .idle tables)
      (SqliteHttpResumeStore.find id) (fun _ c => c = .idle tables) (.idle tables) := by
  apply Yields.bind Sql.execute_yields
  intro found c reached
  obtain ⟨after, rfl, selected⟩ := reached
  cases selected
  cases tables.httpResumeState id with
  | none => exact Yields.pure rfl
  | some row =>
    dsimp only
    cases SqliteHttpResumeStore.decodeState row with
    | error e => exact Yields.fail e rfl
    | ok state => exact Yields.pure rfl

theorem saveCheckpoint_http {state : HttpResumeState} :
    Yields (spec ResumeTables.run) (fun c => c = .idle tables)
      (SqliteHttpResumeStore.saveCheckpoint id state)
      (fun _ c => ∃ after, c = .idle after ∧ (SaveRequest.http id state).Permitted tables ∧
        after = (SaveRequest.http id state).saved tables) (.idle tables) := by
  apply Yields.bind encodeCount_yields
  intro _ c unchanged
  subst unchanged
  apply Yields.bind encodeCount_yields
  intro _ c unchanged
  subst unchanged
  apply Yields.bind Sql.execute_yields
  intro affected c reached
  obtain ⟨after, rfl, ran⟩ := reached
  obtain ⟨one, rfl, old, forward, known⟩ | ⟨none, rfl⟩ := ResumeTables.run_updateDurable ran
  · rw [if_pos one]
    exact Yields.pure ⟨_, rfl, ⟨old, forward, known⟩, rfl⟩
  · rw [if_neg (by omega)]
    apply Yields.bind find_yields
    intro found c unchanged
    subst unchanged
    split
    · exact Yields.fail _ rfl
    · exact Yields.fail _ rfl

end Save

/-! ## Any number of saves -/

variable {request : SaveRequest} {result : Except RepositoryErrorKind Unit}

theorem save_answered {tables : ResumeTables} {choices : List Bool} {c : Connection ResumeTables}
    (finished : Program.finish (Connection.surroundings ResumeTables.run) request.save.run choices
      (.idle tables) = some (result, c)) : request.Answered tables result c.stored := by
  have yields : Yields (spec ResumeTables.run) (fun c => c = .idle tables) request.save
      (fun _ c => ∃ after, c = .idle after ∧ request.Permitted tables ∧
        after = request.saved tables) (.idle tables) := by
    cases request with
    | stream id state =>
      exact .bind saveCheckpoint_stream fun _ _ reached => .pure reached
    | http id state =>
      exact .bind saveCheckpoint_http fun _ _ reached => .pure reached
  have reached := Program.finish_of_wp yields finished
  cases result with
  | ok value =>
    obtain ⟨after, rfl, permitted, written⟩ := reached
    exact ⟨permitted, written⟩
  | error e => exact congrArg Connection.stored reached

namespace ResumeTables.Continues

variable {before between after : ResumeTables}

theorem refl : before.Continues before where
  attempts := rfl
  tracks := fun _ _ old known => ⟨old, known, le_rfl, le_rfl⟩
  noTracks := fun _ _ unknown => unknown
  representations := fun _ old known => ⟨old.durableBytes, le_rfl, known⟩
  noRepresentations := fun _ unknown => unknown

theorem trans (first : before.Continues between) (second : between.Continues after) :
    before.Continues after where
  attempts := second.attempts.trans first.attempts
  tracks := by
    intro id track old known
    obtain ⟨new, found, nextResource, durableBytes⟩ := first.tracks id track old known
    obtain ⟨last, kept, further, more⟩ := second.tracks id track new found
    exact ⟨last, kept, nextResource.trans further, durableBytes.trans more⟩
  noTracks := fun id track unknown => second.noTracks id track (first.noTracks id track unknown)
  representations := by
    intro id old known
    obtain ⟨durableBytes, forward, found⟩ := first.representations id old known
    obtain ⟨last, further, kept⟩ := second.representations id _ found
    exact ⟨last, forward.trans further, kept⟩
  noRepresentations := fun id unknown => second.noRepresentations id (first.noRepresentations id unknown)

end ResumeTables.Continues

theorem continues_of_permitted {tables : ResumeTables} (permitted : request.Permitted tables) :
    tables.Continues (request.saved tables) := by
  cases request with
  | stream id state =>
    obtain ⟨attempt, advances⟩ := permitted
    refine { ResumeTables.Continues.refl with attempts := rfl, tracks := ?_, noTracks := ?_ }
    · intro other track old known
      simp only [SaveRequest.saved, ResumeTables.withTracks, Nat.zero_le, true_and, Nat.zero_add,
        Nat.sub_zero]
      by_cases own : other = id ∧ track < state.tracks.length
      · obtain ⟨rfl, listed⟩ := own
        obtain ⟨row, found, forward⟩ := advances track _ (List.getElem?_eq_getElem listed)
        rw [Nat.zero_add, known] at found
        cases found
        rw [if_pos ⟨rfl, listed⟩, List.getElem?_eq_getElem listed]
        exact ⟨_, rfl, forward⟩
      · rw [if_neg own]
        exact ⟨old, known, le_rfl, le_rfl⟩
    · intro other track unknown
      simp only [SaveRequest.saved, ResumeTables.withTracks, Nat.zero_le, true_and, Nat.zero_add,
        Nat.sub_zero]
      by_cases own : other = id ∧ track < state.tracks.length
      · obtain ⟨rfl, listed⟩ := own
        obtain ⟨row, found, -⟩ := advances track _ (List.getElem?_eq_getElem listed)
        rw [Nat.zero_add, unknown] at found
        cases found
      · rw [if_neg own]
        exact unknown
  | http id state =>
    obtain ⟨durableBytes, forward, known⟩ := permitted
    refine { ResumeTables.Continues.refl with
      attempts := rfl, representations := ?_, noRepresentations := ?_ }
    · intro other old row
      by_cases own : other = id
      · subst own
        rw [known] at row
        cases row
        exact ⟨state.durableBytes, forward, if_pos rfl⟩
      · exact ⟨old.durableBytes, le_rfl, (if_neg own).trans row⟩
    · intro other unknown
      have own : other ≠ id := by
        rintro rfl
        rw [known] at unknown
        cases unknown
      exact (if_neg own).trans unknown

theorem continues_of_answered {before after : ResumeTables}
    (answered : request.Answered before result after) :
    before.Continues after := by
  cases result with
  | ok value =>
    obtain ⟨permitted, rfl⟩ := answered
    exact continues_of_permitted permitted
  | error e =>
    cases answered
    exact .refl

/-- In any run of saves an attempt's identity is kept and its progress never decreases; each save
that succeeds was permitted and writes its own rows only, and each that fails changes none. -/
theorem saves_keep_attempts {before after : ResumeTables}
    {log : List (SaveRequest × Except RepositoryErrorKind Unit)} (run : Saves before log after) :
    before.Continues after ∧
      ∀ earlier request result later, log = earlier ++ (request, result) :: later →
        ∃ t u, Saves before earlier t ∧ before.Continues t ∧ request.Answered t result u ∧
          Saves u later after ∧ u.Continues after := by
  induction run with
  | nil =>
    refine ⟨ResumeTables.Continues.refl, ?_⟩
    intro earlier request result later listed
    cases earlier with
    | nil => cases listed
    | cons head rest => cases listed
  | @cons tables after request choices result c later finished rest ih =>
    have answered := save_answered finished
    have continued := continues_of_answered answered
    refine ⟨continued.trans ih.1, ?_⟩
    intro earlier other found last listed
    cases earlier with
    | nil =>
      cases listed
      exact ⟨tables, c.stored, Saves.nil, ResumeTables.Continues.refl, answered, rest, ih.1⟩
    | cons head between =>
      cases listed
      obtain ⟨t, u, reached, kept, here, remaining, onwards⟩ := ih.2 between other found last rfl
      exact ⟨t, u, Saves.cons finished reached, continued.trans kept, here, remaining, onwards⟩

/-! ### A save that fails after its first track -/

def storedFingerprint : PlanFingerprint := ⟨1, 2⟩

def storedTag : StrongEntityTag := ⟨"\"v1\"".toList, by decide⟩

def sampleTables : ResumeTables where
  streamResumeState id := if id.value = 1 then some ⟨storedFingerprint, 2⟩ else none
  streamResumeTracks id track := if id.value = 1 ∧ track < 2 then some ⟨0, 0⟩ else none
  httpResumeState id := if id.value = 2 then some ⟨storedTag.value, 100, 40⟩ else none

def sampleSaves : List SaveRequest :=
  [.stream ⟨1, Int.one_pos⟩ ⟨storedFingerprint, [⟨2, 20⟩, ⟨1, 10⟩], by decide⟩,
   .stream ⟨1, Int.one_pos⟩ ⟨storedFingerprint, [⟨3, 30⟩, ⟨0, 5⟩], by decide⟩,
   .http ⟨2, Core.two_positive⟩ ⟨storedTag, 100, 60, by decide⟩]

theorem second_track_moves_back : ∃ after,
    Saves sampleTables (sampleSaves.zip [.ok (), .error .constraintViolation, .ok ()]) after ∧
    after.streamResumeTracks ⟨1, by decide⟩ 0 = some ⟨2, 20⟩ ∧
    after.httpResumeState ⟨2, by decide⟩ = some ⟨storedTag.value, 100, 60⟩ ∧
    sampleTables.Continues after := by
  have run : Saves sampleTables
      (sampleSaves.zip [.ok (), .error .constraintViolation, .ok ()]) _ :=
    @Saves.cons _ _ _ [true, true, true, true, true] _ _ _ rfl
      (@Saves.cons _ _ _ [true, true, true, true, true] _ _ _ rfl
        (@Saves.cons _ _ _ [true] _ _ _ rfl Saves.nil))
  exact ⟨_, run, by decide, by decide, (saves_keep_attempts run).1⟩

end Gunda.Storage

import Gunda.Core.Recovery
import Gunda.Storage.RoundTrip

/-!
# Saves of stored jobs

Which saves the repository accepts, and what they leave as it was.
-/
namespace Gunda.Storage

open Gunda.Lib
open Gunda.Core (DownloadId DownloadJob Url)

variable {codec : PathCodec String} {parse : Text → Option Url}
variable {tables : RepositoryTables} {jobs : List DownloadJob} {job : DownloadJob}
variable {id : DownloadId} {current : DownloadJob}

/-- The job with its timestamps as they are stored. -/
def normalized (job : DownloadJob) : DownloadJob :=
  { job with createdAt := floored job.createdAt, updatedAt := floored job.updatedAt }

/-- The job was created as the other one was, to the millisecond. -/
structure SameCreation (current job : DownloadJob) : Prop where
  id : current.id = job.id
  request : current.request = job.request
  origin : current.origin = job.origin
  destination : current.destination = job.destination
  createdAt : current.createdAt = floored job.createdAt

/-- The numbers of a job can be stored. -/
structure Writable (job : DownloadJob) : Prop where
  createdAt : InYears job.createdAt
  updatedAt : InYears job.updatedAt
  counted : Counted job.progress

/-! ## One row changed -/

/-- The tables with the row of a job replaced. -/
def RepositoryTables.replace (codec : PathCodec String) (tables : RepositoryTables)
    (job : DownloadJob) : RepositoryTables :=
  { tables with
    downloads := tables.downloads.map fun row =>
      if row.id = job.id.value then rowOf codec job else row }

/-- The jobs with one replaced. -/
def replaceJob (jobs : List DownloadJob) (job : DownloadJob) : List DownloadJob :=
  jobs.map fun other => if other.id = job.id then job else other

theorem rowOf_id_iff {other : DownloadJob} :
    (rowOf codec other).id = id.value ↔ other.id = id := id_eq_iff

section

variable (same : SameCreation current job)
include same

theorem rowOf_update :
    (rowOf codec current).update (updatedDownload job job.progress.downloadedBytes
      (job.progress.totalBytes.map (↑)) (job.updatedAt / 1000000)
      (job.resolvedDestination.map fun destination => codec.written destination.finalPath)) =
      rowOf codec (normalized job) := by
  have updated : floored job.updatedAt / 1000000 = job.updatedAt / 1000000 := floored_div _
  unfold rowOf normalized DownloadRow.update updatedDownload
  rw [same.id, same.request, same.origin, same.destination, same.createdAt, updated]

theorem SameCreation.constructed
    (constructed : Constructed parse ⟨current.request, current.destination, current.origin⟩) :
    Constructed parse ⟨job.request, job.destination, job.origin⟩ := by
  rw [← same.request, ← same.origin, ← same.destination]
  exact constructed

theorem storable_normalized (storable : Storable parse current)
    (writable : Writable job) : Storable parse (normalized job) where
  constructed := same.constructed storable.constructed
  headers := same.request ▸ storable.headers
  createdAt := ⟨writable.createdAt.floored, floored_floored _⟩
  updatedAt := ⟨writable.updatedAt.floored, floored_floored _⟩

end

section

variable (represents : Represents codec parse tables jobs)
include represents

theorem replaceJob_headers (member : current ∈ jobs) (same : SameCreation current job) :
    (replaceJob jobs (normalized job)).flatMap headersOf = jobs.flatMap headersOf := by
  unfold replaceJob
  rw [List.flatMap_map]
  refine List.flatMap_congr fun other inside => ?_
  split
  · rename_i own
    have one : other = current := represents.unique inside member (own.trans same.id.symm)
    rw [one]
    unfold headersOf normalized
    rw [same.id, same.request]
  · rfl

theorem Represents.replaceJob
    (member : current ∈ jobs) (same : SameCreation current job) (writable : Writable job) :
    Represents codec parse (tables.replace codec (normalized job))
      (replaceJob jobs (normalized job)) := by
  have ids (other : DownloadJob) :
      (if other.id = (normalized job).id then normalized job else other).id = other.id := by
    split
    · rename_i own
      exact own.symm
    · rfl
  refine ⟨?_, ?_, ?_, ?_, ?_, represents.started⟩
  · change tables.downloads.map _ = _
    rw [represents.rows, List.map_map, Storage.replaceJob, List.map_map]
    refine List.map_congr_left fun other inside => ?_
    dsimp only [Function.comp]
    by_cases own : other.id = (normalized job).id
    · rw [if_pos own, if_pos (rowOf_id_iff.mpr own)]
    · rw [if_neg own, if_neg fun equal => own (rowOf_id_iff.mp equal)]
  · rw [replaceJob_headers represents member same]
    exact represents.headers
  · refine List.pairwise_map.mpr (represents.ascending.imp fun {first second} less => ?_)
    rw [ids first, ids second]
    exact less
  · intro other inside
    obtain ⟨old, before, made⟩ := List.mem_map.mp inside
    rw [← made]
    split
    · exact storable_normalized same (represents.storable current member) writable
    · exact represents.storable old before
  · intro other inside
    obtain ⟨old, before, made⟩ := List.mem_map.mp inside
    rw [← made, ids old]
    exact represents.below old before

/-! ## Accepted saves -/

theorem runs_updateDownload
    (member : current ∈ jobs) (same : SameCreation current job) (writable : Writable job) :
    RepositoryTables.run (.updateDownload (updatedDownload job job.progress.downloadedBytes
      (job.progress.totalBytes.map (↑)) (job.updatedAt / 1000000)
      (job.resolvedDestination.map fun destination => codec.written destination.finalPath))
      job.id.value) tables = some (1, tables.replace codec (normalized job)) := by
  have after := represents.replaceJob member same writable
  have rows : (tables.downloads.map fun row => if row.id = job.id.value then row.update
      (updatedDownload job job.progress.downloadedBytes (job.progress.totalBytes.map (↑))
        (job.updatedAt / 1000000) (job.resolvedDestination.map fun destination =>
          codec.written destination.finalPath)) else row) =
      (tables.replace codec (normalized job)).downloads := by
    change _ = tables.downloads.map _
    refine List.map_congr_left fun row inside => ?_
    by_cases own : row.id = job.id.value
    · rw [represents.rows] at inside
      obtain ⟨other, old, made⟩ := List.mem_map.mp inside
      have found : other.id = current.id :=
        (rowOf_id_iff.mp (made.symm ▸ own)).trans same.id.symm
      have changed : (rowOf codec current).update _ = _ := rowOf_update same
      rw [represents.unique old member found] at made
      rw [made] at changed
      rw [if_pos own, changed]
      exact (if_pos own).symm
    · rw [if_neg own]
      exact (if_neg own).symm
  have checked : (tables.replace codec (normalized job)).downloads.all DownloadRow.meetsChecks = true :=
    List.all_eq_true.mpr fun row inside => (after.checked inside).1
  have one : tables.downloads.countP (·.id = job.id.value) = 1 := by
    have counted : (jobs.map (·.id)).count job.id = 1 :=
      List.count_eq_one_of_mem represents.distinct (List.mem_map.mpr ⟨current, member, same.id⟩)
    rw [List.count, List.countP_map] at counted
    rw [represents.rows, List.countP_map, ← counted]
    refine List.countP_congr fun other inside => ?_
    simp only [Function.comp_apply, decide_eq_true_eq, beq_iff_eq]
    exact rowOf_id_iff
  unfold RepositoryTables.run RepositoryTables.updateRow
  dsimp only
  rw [rows, if_pos checked, one]
  rfl

omit represents in
theorem encodeByteCount_ok {value : Nat} (small : value < 2 ^ 63) :
    encodeByteCount value = .ok (value : Int) := if_pos small

omit represents in
theorem encode_totals {totals : Option Nat} (small : ∀ total ∈ totals, total < 2 ^ 63) :
    totals.mapM encodeByteCount = .ok (totals.map (Nat.cast : Nat → Int)) := by
  cases totals with
  | none => rfl
  | some total =>
    change some <$> encodeByteCount total = _
    rw [encodeByteCount_ok (small total rfl)]
    rfl

omit represents in
theorem encode_resolved (codec : PathCodec String) (job : DownloadJob) :
    (job.resolvedDestination.mapM fun destination => codec.encode destination.finalPath) =
      .ok (job.resolvedDestination.map fun destination => codec.written destination.finalPath) := by
  cases job.resolvedDestination with
  | none => rfl
  | some destination =>
    change some <$> codec.encode destination.finalPath = _
    rw [codec.encode_eq]
    rfl

omit represents in
theorem found_id (found : jobs.find? (·.id = id) = some current) : current.id = id := by
  have own := List.find?_some found
  exact of_decide_eq_true own

theorem Represents.find (member : current ∈ jobs) (same : current.id = id) :
    jobs.find? (·.id = id) = some current := by
  cases found : jobs.find? (·.id = id) with
  | none => exact absurd (decide_eq_true same) (List.find?_eq_none.mp found current member)
  | some other =>
    have equal : other.id = current.id := (found_id found).trans same.symm
    rw [represents.unique (List.mem_of_find?_eq_some found) member equal]

theorem completes_save (member : current ∈ jobs)
    (same : SameCreation current job) (writable : Writable job) :
    Sql.Completes RepositoryTables.run (save codec parse job) tables (.ok (normalized job))
      (tables.replace codec (normalized job)) := by
  have open_ : Public job.request.headers :=
    same.request ▸ (represents.storable current member).headers
  have found : jobs.find? (·.id = job.id) = some current := represents.find member same.id
  have selected := runs_selectDownload represents job.id
  rw [found] at selected
  have unchanged : ¬ (current.request ≠ job.request ∨ current.origin ≠ job.origin ∨
      current.destination ≠ job.destination ∨ current.createdAt ≠ floored job.createdAt) := by
    rw [same.request, same.origin, same.destination, same.createdAt]
    simp only [ne_eq, not_true_eq_false, or_self, not_false_eq_true]
  unfold save
  rw [ensurePersistable_ok open_, encodeTimestamp_ok writable.createdAt,
    encodeTimestamp_ok writable.updatedAt]
  refine .lift_bind (.lift_bind (.lift_bind ?_))
  rw [decodeTimestamp_ok writable.createdAt, decodeTimestamp_ok writable.updatedAt,
    encodeByteCount_ok writable.counted.1, encode_totals writable.counted.2, encode_resolved]
  refine .lift_bind (.lift_bind (.lift_bind
    (.lift_bind (.lift_bind ?_))))
  refine .transaction (.bind (.execute selected) ?_)
  refine .bind (runs_downloadId current tables tables) ?_
  refine .bind (runs_loadHeaders represents member tables) ?_
  rw [toJob_rowOf (represents.storable current member)]
  refine .bind (.lift _) ?_
  rw [if_neg unchanged]
  refine .bind (.execute (runs_updateDownload represents member same writable)) ?_
  exact .pure _

/-- A save of a job that still has the creation time it was loaded with is answered as a
recovery expects of a repository. -/
theorem completes_save_milliseconds (member : current ∈ jobs) (same : SameCreation current job)
    (loaded : job.createdAt = current.createdAt) (writable : Writable job) :
    Sql.Completes RepositoryTables.run (save codec parse job) tables
      (.ok { job with updatedAt := Core.milliseconds.normalize job.updatedAt })
      (tables.replace codec (normalized job)) := by
  have answered : normalized job =
      { job with updatedAt := Core.milliseconds.normalize job.updatedAt } := by
    unfold normalized
    rw [← same.createdAt, ← loaded]
    rfl
  rw [← answered]
  exact completes_save represents member same writable

/-! ## Refused saves -/

omit represents in
theorem encode_totals_small {totals : Option Nat} {encoded : Option Int}
    (h : totals.mapM encodeByteCount = .ok encoded) : ∀ total ∈ totals, total < 2 ^ 63 := by
  intro total known
  cases known
  change some <$> encodeByteCount total = _ at h
  cases one : encodeByteCount total with
  | error error =>
    rw [one] at h
    cases h
  | ok value => exact (encodeByteCount_eq one).1

/-- A job that was not created as the stored one does not replace it. -/
theorem runs_otherCreation (other : ¬ ∃ current ∈ jobs, SameCreation current job) {β : Type}
    (next : RepositorySession β) : ∃ error, Sql.Runs RepositoryTables.run tables (do
      let found : Option DownloadRow ← execute (.selectDownload job.id.value)
        "could not load download for update"
      match found with
      | none => throw ⟨.notFound, "download does not exist"⟩
      | some row => do
          let storedId ← lift row.downloadId
          let headers ← loadHeaders storedId
          let current ← lift (row.toJob codec parse storedId headers)
          if current.request ≠ job.request ∨ current.origin ≠ job.origin ∨
              current.destination ≠ job.destination ∨ current.createdAt ≠ floored job.createdAt then
            throw ⟨.constraintViolation, "download creation metadata cannot be changed"⟩
          next) tables (.error error) tables := by
  have selected := runs_selectDownload represents job.id
  cases found : jobs.find? (·.id = job.id) with
  | none =>
    rw [found] at selected
    exact ⟨_, Sql.Runs.bind (.execute selected) (.throw _)⟩
  | some current =>
    rw [found] at selected
    have member := List.mem_of_find?_eq_some found
    have changed : current.request ≠ job.request ∨ current.origin ≠ job.origin ∨
        current.destination ≠ job.destination ∨ current.createdAt ≠ floored job.createdAt := by
      by_contra unchanged
      simp only [ne_eq, not_or, not_not] at unchanged
      obtain ⟨request, origin, destination, created⟩ := unchanged
      exact other ⟨current, member, found_id found, request, origin, destination, created⟩
    refine ⟨⟨.constraintViolation, "download creation metadata cannot be changed"⟩,
      Sql.Runs.bind (.execute selected) ?_⟩
    refine .bind (runs_downloadId current tables tables) ?_
    refine .bind (runs_loadHeaders represents member tables) ?_
    rw [toJob_rowOf (represents.storable current member)]
    refine .bind (.lift _) ?_
    rw [if_pos changed]
    exact .bind_error (.throw _)

/-- A save is refused where a number cannot be stored and where no job was created as this
one. -/
theorem save_refused (refused : ¬ (Writable job ∧ ∃ current ∈ jobs, SameCreation current job)) :
    Sql.Refuses RepositoryTables.run (save codec parse job) tables := by
  refine .lift_bind fun _ persistable => ?_
  refine .lift_bind fun createdAtUnixMs encodedCreated => ?_
  refine .lift_bind fun updatedAtUnixMs encodedUpdated => ?_
  refine .lift_bind fun createdAt decodedCreated => ?_
  refine .lift_bind fun updatedAt decodedUpdated => ?_
  refine .lift_bind fun downloadedBytes encodedBytes => ?_
  refine .lift_bind fun totalBytes encodedTotals => ?_
  refine .lift_bind fun resolvedDestinationPath _ => ?_
  rw [encodeTimestamp_eq encodedCreated] at decodedCreated
  rw [encodeTimestamp_eq encodedUpdated] at decodedUpdated
  obtain ⟨createdInYears, rfl⟩ := inYears_of_decoded decodedCreated
  obtain ⟨updatedInYears, rfl⟩ := inYears_of_decoded decodedUpdated
  have writable : Writable job := ⟨createdInYears, updatedInYears,
    (encodeByteCount_eq encodedBytes).1, encode_totals_small encodedTotals⟩
  have other : ¬ ∃ current ∈ jobs, SameCreation current job := fun same => refused ⟨writable, same⟩
  obtain ⟨error, ran⟩ := runs_otherCreation represents other _
  exact .transaction ran

end

end Gunda.Storage

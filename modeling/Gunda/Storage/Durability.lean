import Gunda.Storage.Saving

/-!
# The durable round trip

What creations and saves lead to, from the empty tables on and whatever statements fail, and
what the repository then finds, accepts and refuses.
-/
namespace Gunda.Storage

open Gunda.Lib
open Gunda.Core (RepositoryError DownloadId DownloadJob ExecutionSelection NewDownload
  OffsetDateTime Url)

section

variable (codec : PathCodec String) (parse : Text → Option Url)

/-- The tables that creations and saves lead to. The choices say which statements fail. -/
inductive Reached : RepositoryTables → Prop
  | empty : Reached .empty
  | created {tables after : RepositoryTables} {download : NewDownload} {createdAt : OffsetDateTime}
      {choices : List Bool} {outcome : Except RepositoryError DownloadJob}
      (reached : Reached tables) (constructed : Constructed parse download)
      (ran : Program.finish (Connection.surroundings RepositoryTables.run)
        (create codec download createdAt).run choices (.idle tables) =
          some (outcome, .idle after)) : Reached after
  | saved {tables after : RepositoryTables} {job : DownloadJob} {choices : List Bool}
      {outcome : Except RepositoryError DownloadJob} (reached : Reached tables)
      (ran : Program.finish (Connection.surroundings RepositoryTables.run)
        (save codec parse job).run choices (.idle tables) = some (outcome, .idle after)) :
      Reached after

/-- The lookups find the jobs, and so does the listing. -/
structure Reads (tables : RepositoryTables) (jobs : List DownloadJob) : Prop where
  found : ∀ id, Sql.Completes RepositoryTables.run (findById codec parse id) tables
    (.ok (jobs.find? (·.id = id))) tables
  listed : Sql.Completes RepositoryTables.run (list codec parse) tables (.ok jobs) tables

end

/-- The columns of a row that its creation writes. -/
def DownloadRow.creation (row : DownloadRow) : InsertedDownload × Option Text where
  fst := {
    sourceUrl := row.sourceUrl
    origin := row.origin
    sourcePageUrl := row.sourcePageUrl
    sourcePageTitle := row.sourcePageTitle
    destinationDirectory := row.destinationDirectory
    preferredFilename := row.preferredFilename
    conflictPolicy := row.conflictPolicy
    createdAtUnixMs := row.createdAtUnixMs }
  snd := row.executionSelection

/-- The row is the same but for what a save of that job writes. -/
structure SavedRow (id : Int) (before after : DownloadRow) : Prop where
  others : before.id ≠ id → after = before
  creation : after.creation = before.creation
  id : after.id = before.id

/-- The tables are the same but for what a save of that job writes. -/
structure SavedTables (id : Int) (before after : RepositoryTables) : Prop where
  downloads : List.Forall₂ (SavedRow id) before.downloads after.downloads
  headers : after.downloadHeaders = before.downloadHeaders
  sequence : after.sequence = before.sequence

variable {codec : PathCodec String} {parse : Text → Option Url}
variable {tables : RepositoryTables} {jobs : List DownloadJob}

/-! ## What is reached -/

variable {outcome : Except RepositoryError DownloadJob} {choices : List Bool}

section

variable (represents : Represents codec parse tables jobs)
include represents

/-- A program that ends in one way leaves rows of jobs where some of its statements fail. -/
theorem Represents.after {program : RepositorySession DownloadJob}
    {result : Except RepositoryError DownloadJob} {later after : RepositoryTables}
    (completes : Sql.Completes RepositoryTables.run program tables result later)
    (ran : Program.finish (Connection.surroundings RepositoryTables.run) program.run choices
      (.idle tables) = some (outcome, .idle after))
    (holds : ∃ jobs, Represents codec parse later jobs) :
    ∃ jobs, Represents codec parse after jobs := by
  cases completes.finished ran with
  | inl whole =>
    cases whole.2
    exact holds
  | inr nothing =>
    cases nothing.2
    exact ⟨jobs, represents⟩

theorem represents_created {download : NewDownload} {createdAt : OffsetDateTime}
    {after : RepositoryTables} (constructed : Constructed parse download)
    (ran : Program.finish (Connection.surroundings RepositoryTables.run)
      (create codec download createdAt).run choices (.idle tables) = some (outcome, .idle after)) :
    ∃ jobs, Represents codec parse after jobs := by
  by_cases accepted : Public download.request.headers ∧ InYears createdAt ∧
      tables.sequence + 1 < 2 ^ 63
  · obtain ⟨open_, inYears, left⟩ := accepted
    have started := represents.started
    let id : DownloadId := ⟨tables.sequence + 1, by omega⟩
    have next : id.value = tables.sequence + 1 := rfl
    have completes := completes_create represents constructed open_ inYears next left
    exact represents.after completes ran
      ⟨_, represents.withJob (storable_new id constructed open_ inYears) next⟩
  · obtain ⟨error, completes⟩ := @create_refused codec _ _ _ accepted
    exact represents.after completes ran ⟨jobs, represents⟩

theorem represents_saved {job : DownloadJob} {after : RepositoryTables}
    (ran : Program.finish (Connection.surroundings RepositoryTables.run)
      (save codec parse job).run choices (.idle tables) = some (outcome, .idle after)) :
    ∃ jobs, Represents codec parse after jobs := by
  by_cases accepted : Writable job ∧ ∃ current ∈ jobs, SameCreation current job
  · obtain ⟨writable, current, member, same⟩ := accepted
    exact represents.after (completes_save represents member same writable) ran
      ⟨_, represents.replaceJob member same writable⟩
  · obtain ⟨error, completes⟩ := save_refused represents accepted
    exact represents.after completes ran ⟨jobs, represents⟩

end

theorem Reached.represents (reached : Reached codec parse tables) :
    ∃ jobs, Represents codec parse tables jobs := by
  induction reached with
  | empty => exact ⟨[], represents_empty⟩
  | created reached constructed ran ih =>
    obtain ⟨jobs, represents⟩ := ih
    exact represents_created represents constructed ran
  | saved reached ran ih =>
    obtain ⟨jobs, represents⟩ := ih
    exact represents_saved represents ran

/-! ## What each call does -/

theorem Represents.reads (represents : Represents codec parse tables jobs) :
    Reads codec parse tables jobs where
  found := completes_findById represents
  listed := completes_list represents

theorem savedTables_replace {job current : DownloadJob}
    (represents : Represents codec parse tables jobs) (member : current ∈ jobs)
    (same : SameCreation current job) :
    SavedTables job.id.value tables (tables.replace codec (normalized job)) where
  downloads := by
    refine List.forall₂_map_right_iff.mpr (List.forall₂_same.mpr fun row inside => ?_)
    rw [represents.rows] at inside
    obtain ⟨other, old, made⟩ := List.mem_map.mp inside
    by_cases own : row.id = (normalized job).id.value
    · have one : other.id = current.id :=
        (rowOf_id_iff.mp (made.symm ▸ own)).trans same.id.symm
      rw [represents.unique old member one] at made
      rw [if_pos own, ← rowOf_update same, made]
      exact ⟨fun different => absurd own different, rfl, rfl⟩
    · rw [if_neg own]
      exact ⟨fun _ => rfl, rfl, rfl⟩
  headers := rfl
  sequence := rfl

theorem mem_replaceJob {job current : DownloadJob} (member : current ∈ jobs)
    (same : SameCreation current job) : normalized job ∈ replaceJob jobs (normalized job) :=
  List.mem_map.mpr ⟨current, member, if_pos same.id⟩

/-- A download with one header and a selection. -/
def plainDownload : NewDownload where
  request := {
    url := ⟨"https://a.test/f".toList⟩
    headers := [⟨"Accept", "video/mp4", .public⟩]
    selection := ExecutionSelection.new "video=1080".toList }
  destination := ⟨"/downloads", some "f.mp4", .rename⟩
  origin := .browser ⟨"https://a.test/".toList⟩ (some "A")

theorem plainDownload_constructed : Constructed (fun text => some ⟨text⟩) plainDownload where
  url := rfl
  page := by
    intro pageUrl pageTitle browser
    cases browser
    rfl
  selection := by
    intro selection chosen
    cases chosen
    rfl
  headers := by decide

end Gunda.Storage

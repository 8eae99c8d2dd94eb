import Gunda.Core.Manager
import Mathlib.Data.List.Basic

/-!
# Histories of saved rows

What an uninterrupted lifecycle looks like in the repository: every row is
reached from the row it replaces, and an execution replaces only a queued row or
its own. Histories are lists of saves, newest first.
-/
namespace Gunda.Core

/-- The saved row follows from the previous one by an allowed transition, a
restart, or a progress checkpoint of a downloading job. -/
def Reached (previous saved : DownloadJob) : Prop :=
  previous.state.canTransitionTo saved.state = true ∨
  (∃ updatedAt, previous.restart updatedAt = .ok saved) ∨
  (previous.state = .downloading ∧ saved = previous.updateProgress saved.progress saved.updatedAt)

theorem Reached.of_transitionTo {previous saved : DownloadJob} {state : DownloadState}
    {updatedAt : OffsetDateTime} (h : previous.transitionTo state updatedAt = .ok saved) :
    Reached previous saved := by
  obtain ⟨allowed, rfl⟩ := DownloadJob.transitionTo_ok h
  exact .inl allowed

/-- Storage normalizes the timestamp of what it saves. -/
theorem Reached.normalized {previous saved : DownloadJob} (h : Reached previous saved)
    (updatedAt : OffsetDateTime) : Reached previous { saved with updatedAt := updatedAt } := by
  rcases h with transition | ⟨at_, restarted⟩ | ⟨downloading, progress⟩
  · exact .inl transition
  · refine .inr (.inl ⟨updatedAt, ?_⟩)
    unfold DownloadJob.restart at restarted ⊢
    split at restarted
    · cases restarted
      simp only [*, if_true]
    · cases restarted
  · refine .inr (.inr ⟨downloading, ?_⟩)
    rw [progress]
    rfl

/-- Inspection begins on a queued row only. -/
theorem Reached.begins {previous saved : DownloadJob} (h : Reached previous saved)
    (inspecting : saved.state = .inspecting) : previous.state = .queued := by
  rcases h with transition | ⟨at_, restarted⟩ | ⟨downloading, progress⟩
  · rw [inspecting] at transition
    exact DownloadState.canTransitionTo_inspecting transition
  · have queued := (DownloadJob.restart_ok restarted).2.1
    rw [inspecting] at queued
    cases queued
  · rw [progress, DownloadJob.updateProgress_state, downloading] at inspecting
    cases inspecting

/-- The newest save of a job in a history. -/
def lastSave (saves : List SavedRow) (id : DownloadId) : Option SavedRow :=
  saves.find? (·.saved.id = id)

/-- A property of every save together with the history before it. -/
def EachSave (P : SavedRow → List SavedRow → Prop) (saves : List SavedRow) : Prop :=
  ∀ newer row older, saves = newer ++ row :: older → P row older

theorem eachSave_nil (P : SavedRow → List SavedRow → Prop) : EachSave P [] := by
  intro newer row older split
  cases newer <;> cases split

theorem eachSave_cons {P : SavedRow → List SavedRow → Prop} {row : SavedRow}
    {saves : List SavedRow} (first : P row saves) (rest : EachSave P saves) :
    EachSave P (row :: saves) := by
  intro newer other older split
  cases newer with
  | nil =>
    cases split
    exact first
  | cons head tail =>
    cases split
    exact rest tail other older rfl

def Call.isExecute : Call → Bool
  | .execute _ => true
  | _ => false

/-- The task is an execution. -/
def executes (calls : List Call) (task : Nat) : Prop := calls[task]?.any Call.isExecute = true

instance (calls : List Call) (task : Nat) : Decidable (executes calls task) :=
  inferInstanceAs (Decidable (_ = true))

/-- No update of a job is lost. Every saved row is reached from the row persisted
immediately before it; an execution that replaces another call's row finds it
queued, so it never overwrites a pause or a cancellation; and between two calls
that begin the same job the job was queued again. -/
structure NoLostUpdate (calls : List Call) (saves : List SavedRow) : Prop where
  reached : EachSave (fun row older =>
    Reached row.previous row.saved ∧
      ∀ earlier ∈ lastSave older row.saved.id, earlier.saved = row.previous) saves
  kept : EachSave (fun row older =>
    executes calls row.task → ∀ earlier ∈ lastSave older row.saved.id,
      earlier.task ≠ row.task → earlier.saved.state = .queued) saves
  begunOnce : ∀ newer second between first older,
    saves = newer ++ second :: (between ++ first :: older) →
    first.saved.id = second.saved.id →
    first.saved.state = .inspecting → second.saved.state = .inspecting →
    ∃ row ∈ between, row.saved.id = first.saved.id ∧ row.saved.state = .queued

theorem lastSave_append_cons {between older : List SavedRow} {first row : SavedRow}
    (found : lastSave (between ++ first :: older) first.saved.id = some row) :
    row = first ∨ row ∈ between ∧ row.saved.id = first.saved.id := by
  unfold lastSave at found
  rw [List.find?_append] at found
  cases inside : between.find? (·.saved.id = first.saved.id) with
  | none =>
    rw [inside, List.find?_cons_of_pos (by simp)] at found
    cases found
    exact .inl rfl
  | some other =>
    rw [inside] at found
    cases found
    exact .inr ⟨List.mem_of_find?_eq_some inside, by simpa using List.find?_some inside⟩

theorem lastSave_isSome (between older : List SavedRow) (first : SavedRow) :
    ∃ row, lastSave (between ++ first :: older) first.saved.id = some row := by
  have found : (lastSave (between ++ first :: older) first.saved.id).isSome := by
    unfold lastSave
    rw [List.find?_isSome]
    exact ⟨first, by simp, by simp⟩
  exact Option.isSome_iff_exists.mp found

/-- Between two saves that begin a job there is one that queued it. -/
theorem queued_between {newer between older saves : List SavedRow} {first second : SavedRow}
    (reached : EachSave (fun row older =>
      Reached row.previous row.saved ∧
        ∀ earlier ∈ lastSave older row.saved.id, earlier.saved = row.previous) saves)
    (split : saves = newer ++ second :: (between ++ first :: older))
    (same : first.saved.id = second.saved.id) (begun : first.saved.state = .inspecting)
    (again : second.saved.state = .inspecting) :
    ∃ row ∈ between, row.saved.id = first.saved.id ∧ row.saved.state = .queued := by
  obtain ⟨step, persisted⟩ := reached newer second _ split
  have queued : second.previous.state = .queued := step.begins again
  obtain ⟨row, found⟩ := lastSave_isSome between older first
  rw [← same] at persisted
  have previous : row.saved = second.previous := persisted row found
  rcases lastSave_append_cons found with rfl | ⟨member, id⟩
  · rw [← previous, begun] at queued
    cases queued
  · exact ⟨row, member, id, by rw [previous, queued]⟩

end Gunda.Core

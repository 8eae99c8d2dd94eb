import Gunda.Http.Resumption

/-!
# Restarts of direct downloads

A restart takes the partial file before its row, and may be cut off between the two.
What is prepared afterwards takes up all of the saved bytes, or starts over.
-/
namespace Gunda.Http

open Gunda.Lib
open Fallible (Asks Yields)

variable {origin : Origin} {urls : UrlLibrary} {canonicalReason : Nat → Option String}
  {stored : Bool} {w t u : PartialWorld}

/-! ## Looking at the files -/

/-- The operations that only look. -/
def Looks : HttpOp → Prop
  | .inspectOutput _ | .inspectPartial | .openExisting | .metadata | .identity | .matchesPath => True
  | _ => False

theorem looks_unmoved {op : HttpOp} {choice : HttpChoice} {answer : op.Answer} (looks : Looks op)
    (found : surroundings op choice w = some (answer, t)) : Unmoved w t := by
  cases op with
  | inspectOutput path =>
    cases choice <;> cases found
    exact .refl w
  | inspectPartial =>
    rw [inspectPartial_cases found]
    exact .refl w
  | openExisting => exact openExisting_cases found
  | metadata | identity | matchesPath =>
    obtain ⟨same, -⟩ := askFile_cases found
    rw [same]
    exact .refl w
  | _ => cases looks

theorem inspectResumeCandidate_looks (planned : Option String) (durableBytes : Nat) :
    Asks Looks (inspectResumeCandidate planned durableBytes) := by
  unfold inspectResumeCandidate inspectOutput expectPartial openPartial orFail
  repeat' first
    | exact .perform trivial
    | trivial
    | split
    | refine .bind ?_ fun _ => ?_

/-! ## Taking the file and the row away -/

/-- How far a restart has come: the file goes first, and then its row. -/
def Leaves (w t : PartialWorld) : Prop :=
  t.file = w.file ∧ t.row = w.row ∨ t.file = none ∧ (t.row = w.row ∨ t.row = none)

/-- A part of a restart of `w`, which may be cut off before any of its operations. -/
def Restarting (origin : Origin) (w : PartialWorld) {ε α : Type} (p : Attempt ε α)
    (P : α → PartialWorld → Prop) (t : PartialWorld) : Prop :=
  Fallible.Yields (partialSpec origin fun _ t => Leaves w t) (Leaves w) p P t

theorem Restarting.ask {ε : Type} {op : HttpOp} {P : op.Answer → PartialWorld → Prop}
    (left : Leaves w t)
    (answered : ∀ choice answer u, surroundings op choice t = some (answer, u) → P answer u) :
    Restarting origin w (HttpOp.perform op : Attempt ε op.Answer) P t := by
  refine .perform left fun answer u found => ?_
  obtain ⟨⟨choice, found⟩, -⟩ := found
  exact answered choice answer u found

/-- An operation that fails where the restart has come as far. -/
theorem Restarting.tried {δ ε : Type} {failure : δ → ε} {result : Except δ Unit}
    {P : PartialWorld → Prop} (came : (result = .ok () → P u) ∧ Leaves w u) :
    Restarting origin w (orFail failure result) (fun _ => P) u := by
  cases result with
  | ok value => exact came.1 rfl
  | error error => exact came.2

theorem removePartialForRestart_leaves :
    Restarting origin w removePartialForRestart (fun _ t => t.file = none ∧ t.row = w.row) w := by
  have start : Leaves w w := Or.inl ⟨rfl, rfl⟩
  unfold removePartialForRestart
  refine Yields.bind (P := fun state t => t = w ∧ (state = .missing → w.file = none))
    (Restarting.ask start fun choice state t found => ?_) fun state t seen => ?_
  · refine ⟨inspectPartial_cases found, fun missing => ?_⟩
    obtain ⟨_, inspected, same⟩ := Option.map_eq_some_iff.mp found
    cases same
    cases missing
    cases choice with
    | proceeds =>
      cases present : w.file with
      | none => rfl
      | some file => simp [inspectFile, present] at inspected
    | _ => cases inspected
  · obtain ⟨same, none_⟩ := seen
    subst same
    split
    · exact ⟨none_ rfl, rfl⟩
    · exact start
    · exact start
    · exact start
    · refine Yields.bind (P := fun _ u => u.file = t.file ∧ u.row = t.row)
        (Yields.adapt ?_) fun _ u same => ?_
      · refine Program.wp_mono (Program.Asks.keeps (I := fun u => u.file = t.file ∧ u.row = t.row)
          (inspectResumeCandidate_looks none 0) _ (fun _ _ _ same => Or.inl same) ?_ ⟨rfl, rfl⟩) ?_
        · intro op u answer v looks same found
          obtain ⟨⟨choice, found⟩, -⟩ := found
          have unmoved := looks_unmoved looks found
          exact ⟨unmoved.file.trans same.1, unmoved.row.trans same.2⟩
        · intro result u same
          cases result with
          | ok value => exact same
          | error error => exact Or.inl same
      · refine Yields.bind (Restarting.ask (Or.inl same) fun _ _ _ found =>
          removePartial_cases found) fun answer v came => Restarting.tried ?_
        rcases came with ⟨rfl, kind, rfl⟩ | rfl
        · exact ⟨nofun, Or.inl same⟩
        · exact ⟨fun _ => ⟨rfl, same.2⟩, Or.inr ⟨rfl, Or.inl same.2⟩⟩

theorem resetForRestart_leaves (unsaved : stored = false → w.row = none) :
    Restarting origin w (resetForRestart stored) (fun _ t => t.file = none ∧ t.row = none) w := by
  unfold resetForRestart
  refine .bind (.adapt removePartialForRestart_leaves)
    fun _ t removed => ?_
  have gone : Leaves w t := Or.inr ⟨removed.1, Or.inl removed.2⟩
  cases stored with
  | false => exact ⟨removed.1, removed.2.trans (unsaved rfl)⟩
  | true =>
    refine Yields.bind (Restarting.ask gone fun _ _ _ found => rowAnswer_cases found)
      fun answer u came => Restarting.tried ?_
    rcases came with ⟨_, _, same, -, rfl⟩ | ⟨kind, rfl, rfl | ⟨_, _, same, rfl⟩⟩
    · cases same
      exact ⟨fun _ => ⟨removed.1, rfl⟩, Or.inr ⟨removed.1, Or.inr rfl⟩⟩
    · exact ⟨nofun, gone⟩
    · cases same
      exact ⟨nofun, Or.inr ⟨removed.1, Or.inr rfl⟩⟩

/-! ## What is prepared next -/

/-- A preparation from there succeeded, with nothing reported yet. -/
def Prepares (origin : Origin) (urls : UrlLibrary) (canonicalReason : Nat → Option String)
    (stored : Bool) (w : PartialWorld) (prepared : HttpPrepared) : Prop :=
  ∃ input t, Program.Steps (partialRuns origin)
    ((prepare urls canonicalReason stored input).run, { w with reports := [] })
    (.done (.ok prepared), t)

/-- All that is saved is taken up, with its file there, and nothing else is. -/
theorem prepared_of_reached {prepared : HttpPrepared}
    (reached : Reached origin urls canonicalReason stored w)
    (prepares : Prepares origin urls canonicalReason stored w prepared) :
    match w.row with
    | none => prepared.startingBytes = 0
    | some state => prepared.startingBytes = state.durableBytes ∧
        prepared.metadata.contentLength = some state.totalBytes ∧ ∃ file, w.file = some file ∧
          file.content.take state.durableBytes =
            (origin.tagged state.strongEtag).take state.durableBytes := by
  have backed := backed_of_reached reached
  obtain ⟨input, t, ran⟩ := prepares
  have run : Program.Steps (partialSpec origin (required origin stored 0)) _ _ :=
    Program.steps_requires _ ran
  obtain ⟨unmoved, bytes, -, ready⟩ := Yields.value (prepare_secures (backed.quiet 0)) run
  have row : t.row = w.row := unmoved.row
  rw [← row]
  split at ready
  · rw [ready.2.1]
    exact ready.2.2.1
  · obtain ⟨saved, ⟨file, present, -⟩, tagged, start, -, length⟩ := ready
    have there : w.file = some file := unmoved.file.symm.trans present
    have total := (backed.rows _ (row.symm.trans saved)).total
    rw [saved]
    exact ⟨start, by rw [length, tagged, total], file, there,
      durable_front (backed.quiet 0) (row.symm.trans saved) there⟩

/-- A restart, wherever it is cut off, leaves the file with its row, or no file. One that
succeeds leaves neither, and what is prepared next starts over; while the row alone is
left, nothing is prepared. -/
theorem restart_starts_over
    {program : Program HttpOp HttpOp.Answer (Except RestartResetError Unit)}
    (reached : Reached origin urls canonicalReason stored w)
    (ran : Program.Steps (partialRuns origin)
      ((resetForRestart stored).run, { w with reports := [] }) (program, t)) :
    Leaves w t ∧
    (program = .done (.ok ()) → t.file = none ∧ t.row = none ∧
      ∀ prepared, Prepares origin urls canonicalReason stored t prepared →
        prepared.startingBytes = 0) ∧
    (t.file = none → t.row ≠ none →
      ∀ prepared, ¬ Prepares origin urls canonicalReason stored t prepared) := by
  have after := Reached.restart reached ran
  have run : Program.Steps (partialSpec origin fun _ t => Leaves w t) _ _ :=
    Program.steps_requires _ ran
  have leaves := @resetForRestart_leaves origin stored { w with reports := [] }
    (backed_of_reached reached).unsaved
  refine ⟨?_, fun done => ?_, fun gone kept prepared prepares => ?_⟩
  · refine Program.invariant_of_wp (fun _ _ met => met) (fun result u ended => ?_) run leaves
    cases result with
    | ok value => exact Or.inr ⟨ended.1, Or.inr ended.2⟩
    | error error => exact ended
  · subst done
    obtain ⟨file, row⟩ := Yields.value leaves run
    refine ⟨file, row, fun prepared prepares => ?_⟩
    have starts := prepared_of_reached after prepares
    rw [row] at starts
    exact starts
  · obtain ⟨state, row⟩ := Option.ne_none_iff_exists'.mp kept
    have starts := prepared_of_reached after prepares
    rw [row, gone] at starts
    obtain ⟨-, -, _, impossible, -⟩ := starts
    cases impossible

/-- The two bytes that were saved are taken away with their row. -/
theorem restart_starts_over_example :
    ∃ w t, Reached replacedOrigin plainUrls (fun _ => none) true w ∧ w.content = [1, 2] ∧
      Leaves w t ∧ t.file = none ∧ t.row = none := by
  have first : (runAttempt .empty (fileInput none none) bodyBreaksOff).any (fun broken =>
      broken.2.content = [1, 2] ∧ ((resetForRestart true).run.finish surroundings
        (List.replicate 8 .proceeds) { broken.2 with reports := [] }).any (·.1.isOk)) = true := by
    decide +kernel
  obtain ⟨⟨ending, w⟩, ran, restarted⟩ := (Option.any_eq_true _ _).mp first
  obtain ⟨saved, restarted⟩ := of_decide_eq_true restarted
  obtain ⟨⟨result, t⟩, finished, succeeded⟩ := (Option.any_eq_true _ _).mp restarted
  have reached := Reached.attempt Reached.start (runAttempt_ran (by simp [bodyBreaksOff]) ran)
  have run : Program.Steps (partialRuns replacedOrigin) _ (.done result, t) :=
    Program.steps_of_choices (fun choice member op s answer t answered => by
      cases List.eq_of_mem_replicate member
      cases op with
      | exchange asked => cases answered
      | _ => exact ⟨⟨_, answered⟩, trivial⟩) finished
  cases result with
  | error error => cases succeeded
  | ok value =>
    obtain ⟨left, gone, -⟩ := restart_starts_over reached run
    exact ⟨w, t, reached, saved, left, (gone rfl).1, (gone rfl).2.1⟩

end Gunda.Http

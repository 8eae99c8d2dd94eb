import Gunda.Http.Attempts

/-!
# Interrupted direct downloads

Attempts at one job against a changing origin, each cut off anywhere, perhaps followed
by a crash, by publication or by a restart: the partial file never mixes two
representations.
-/
namespace Gunda.Http

open Gunda.Lib Gunda.Lib.DurableFile
open Fallible (Yields)
open Gunda.Core (DownloadFailure ExecutionInput)

variable (origin : Origin) (urls : UrlLibrary) (canonicalReason : Nat → Option String)
  (stored : Bool)

/-- An attempt up to its publication. -/
def attempt (input : ExecutionInput) : Preparing PartialOutcome := do
  let prepared ← prepare urls canonicalReason stored input
  transferControlled canonicalReason prepared

/-- Every way an operation of a run can come out. -/
def partialRuns : Spec HttpOp HttpOp.Answer PartialWorld := partialSpec origin fun _ _ => True

/-- A run of an attempt with nothing reported yet, up to any of its operations. -/
def AttemptRun (w : PartialWorld) (input : ExecutionInput)
    (after : Program HttpOp HttpOp.Answer (Except DownloadFailure PartialOutcome) × PartialWorld) :
    Prop :=
  Program.Steps (partialRuns origin)
    ((attempt urls canonicalReason stored input).run, { w with reports := [] }) after

/-- What is left of a job's partial file and row by its history. -/
inductive Reached : PartialWorld → Prop where
  | start : Reached .empty
  | attempt {w t : PartialWorld} {input : ExecutionInput}
      {program : Program HttpOp HttpOp.Answer (Except DownloadFailure PartialOutcome)}
      (reached : Reached w)
      (ran : AttemptRun origin urls canonicalReason stored w input (program, t)) : Reached t
  | crash {w t : PartialWorld} (reached : Reached w) (crashed : w.Crash t) : Reached t
  /-- Publication takes the partial file's name away. -/
  | published {w : PartialWorld} (reached : Reached w) : Reached { w with file := none }
  | restart {w t : PartialWorld}
      {program : Program HttpOp HttpOp.Answer (Except RestartResetError Unit)}
      (reached : Reached w)
      (ran : Program.Steps (partialRuns origin)
        ((resetForRestart stored).run, { w with reports := [] }) (program, t)) : Reached t

section

variable {origin : Origin} {urls : UrlLibrary} {canonicalReason : Nat → Option String}
  {stored : Bool} {w t : PartialWorld}

variable {least : Nat}

/-- What holds before every operation, wherever the attempt counts from. -/
def attemptSpec (origin : Origin) (stored : Bool) : Spec HttpOp HttpOp.Answer PartialWorld :=
  partialSpec origin fun op w =>
    Backed origin stored w ∧ ∀ block, op = .write block → Extends origin w block

theorem required_backed (op : HttpOp) (w : PartialWorld) (met : required origin stored least op w) :
    Backed origin stored w ∧ ∀ block, op = .write block → Extends origin w block := by
  cases op with
  | write block =>
    obtain ⟨sound, continues⟩ := met
    refine ⟨sound.backed, fun other same => ?_⟩
    cases same
    exact continues
  | _ => exact ⟨Sound.backed met, by rintro _ ⟨⟩⟩

theorem Secures.counted {ε α : Type} {p : Attempt ε α} {P : α → PartialWorld → Prop}
    (h : Secures origin stored least p P w) :
    Yields (attemptSpec origin stored) (Backed origin stored) p P w :=
  Yields.weaken h required_backed fun _ sound => sound.backed

theorem Backed.quiet (backed : Backed origin stored w) (least : Nat) :
    Sound origin stored least { w with reports := [] } :=
  ⟨⟨backed.rows, backed.unsaved⟩, Rising.nil least⟩

/-- An attempt ends with one representation, or where it can be taken up again. -/
theorem attempt_yields (input : ExecutionInput) (backed : Backed origin stored w) :
    Yields (attemptSpec origin stored) (Backed origin stored)
      (attempt urls canonicalReason stored input)
      (fun outcome t => ∃ least bytes, Ended origin stored least bytes outcome t)
      { w with reports := [] } := by
  refine Yields.bind (Secures.counted (prepare_secures (backed.quiet 0)))
    fun prepared t reached => ?_
  obtain ⟨unmoved, bytes, ready⟩ := reached
  have quiet : t.reports = [] := unmoved.reports
  have sound := (backed.quiet prepared.startingBytes).unmoved unmoved
  refine Yields.mono (transferControlled_secures sound ready quiet).counted
    fun outcome u ended => ?_
  exact ⟨_, bytes, ended⟩

theorem Ended.backed {bytes : Bytes} {outcome : PartialOutcome}
    (ended : Ended origin stored least bytes outcome t) : Backed origin stored t := by
  cases outcome with
  | stopped count => exact ended.sound.backed
  | finished download => exact ended.sound.backed

theorem removePartialForRestart_secures (sound : Sound origin stored least w) :
    Secures origin stored least removePartialForRestart
      (fun _ t => Sound origin stored least t) w := by
  unfold removePartialForRestart
  refine .bind (.ask sound fun _ _ _ found _ => inspectPartial_cases found)
    fun state t same => ?_
  subst same
  split
  · exact .pure sound
  · exact .fail _ sound
  · exact .fail _ sound
  · exact .fail _ sound
  · refine .bind (.adapt (inspectResumeCandidate_secures _ _ sound))
      fun _ u inspected => ?_
    have sound' := sound.unmoved inspected.1
    refine .bind (.ask sound' fun _ _ _ found _ => removePartial_cases found)
      fun answer v came => ?_
    cases came with
    | inl kept =>
      obtain ⟨same, kind, failed⟩ := kept
      subst same failed
      exact sound'
    | inr gone =>
      subst gone
      exact .tried (fun _ _ => sound'.removed) fun _ _ => sound'.removed

theorem backed_cleared : Backed origin stored { w with row := none } :=
  ⟨by rintro _ ⟨⟩, fun _ => rfl⟩

theorem resetForRestart_yields (backed : Backed origin stored w) :
    Yields (attemptSpec origin stored) (Backed origin stored) (resetForRestart stored)
      (fun _ t => Backed origin stored t) { w with reports := [] } := by
  unfold resetForRestart
  refine Yields.bind
    (Secures.counted (Secures.adapt (removePartialForRestart_secures (backed.quiet 0))))
    fun _ t sound => ?_
  split
  · refine Yields.bind (Secures.counted (Secures.ask sound fun _ _ _ found _ =>
      rowAnswer_cases found)) fun answer u came => ?_
    cases came with
    | inl cleared =>
      obtain ⟨value, row, same, answered, landed⟩ := cleared
      cases same
      subst answered landed
      exact backed_cleared
    | inr failed =>
      obtain ⟨kind, answered, landed⟩ := failed
      subst answered
      cases landed with
      | inl same =>
        subst same
        exact sound.backed
      | inr moved =>
        obtain ⟨value, row, same, landed⟩ := moved
        cases same
        subst landed
        exact backed_cleared
  · exact sound.backed

/-- A run of any of these is sound wherever it is cut off. -/
theorem backed_of_run {ε α : Type} {p : Attempt ε α} {P : α → PartialWorld → Prop}
    (yields : Yields (attemptSpec origin stored) (Backed origin stored) p P w)
    (final : ∀ value t, P value t → Backed origin stored t)
    {program : Program HttpOp HttpOp.Answer (Except ε α)}
    (ran : Program.Steps (partialRuns origin) (p.run, w) (program, t)) :
    Backed origin stored t := by
  have run : Program.Steps (attemptSpec origin stored) (p.run, w) (program, t) :=
    Program.steps_requires _ ran
  have first : ∀ op w, (attemptSpec origin stored).requires op w → Backed origin stored w :=
    fun _ _ met => met.1
  refine Program.invariant_of_wp first ?_ run yields
  intro result t reached
  cases result with
  | ok value => exact final value t reached
  | error failure => exact reached

theorem backed_of_reached (reached : Reached origin urls canonicalReason stored w) :
    Backed origin stored w := by
  induction reached with
  | start => exact ⟨by rintro _ ⟨⟩, fun _ => rfl⟩
  | attempt reached ran ih =>
    refine backed_of_run (attempt_yields _ ih) (fun outcome t ended => ?_) ran
    obtain ⟨_, _, ended⟩ := ended
    exact ended.backed
  | @crash w t reached crashed ih =>
    refine ⟨fun state found => ?_, fun off => crashed.row.trans (ih.unsaved off)⟩
    rw [crashed.row] at found
    have backing := ih.rows state found
    refine ⟨backing.represented, backing.total, fun present there => ?_⟩
    have before := crashed.file
    have kept := backing.kept
    rw [there] at before
    generalize w.file = earlier at before kept
    cases before with
    | damaged file rest => exact (kept file rfl).damage rest
  | published reached ih => exact ⟨fun state found =>
      ⟨(ih.rows state found).represented, (ih.rows state found).total, by rintro _ ⟨⟩⟩, ih.unsaved⟩
  | restart reached ran ih =>
    exact backed_of_run (resetForRestart_yields ih) (fun _ _ backed => backed) ran

/-- The durable bytes of whatever interrupted attempts leave are a front of the
representation that the saved validator names. A run of an attempt from there writes
only what continues one representation, that one where a validator is saved, and where
it reports a finished transfer the file holds one representation and nothing else. -/
theorem one_representation_in_file (reached : Reached origin urls canonicalReason stored w) :
    (∀ state ∈ w.row, ∀ file ∈ w.file,
      state.totalBytes = (origin.tagged state.strongEtag).length ∧
      state.durableBytes ≤ file.content.length ∧
      file.content.take state.durableBytes =
        (origin.tagged state.strongEtag).take state.durableBytes) ∧
    ∀ input program t, AttemptRun origin urls canonicalReason stored w input (program, t) →
      (∀ block next, program = .step (.write block) next → Extends origin t block) ∧
      (∀ download, program = .done (.ok (.finished download)) →
        origin.represents t.content ∧ download.writtenBytes = t.content.length ∧
        ∀ state ∈ t.row, t.content = origin.tagged state.strongEtag) := by
  have backed := backed_of_reached reached
  constructor
  · intro state saved file present
    have backing := backed.rows state saved
    have front := durable_front (backed.quiet 0) saved present
    have counted := congrArg List.length front
    have within := state.within
    rw [List.length_take, List.length_take, ← backing.total] at counted
    exact ⟨backing.total, by omega, front⟩
  · intro input program t ran
    have run : Program.Steps (attemptSpec origin stored) _ (program, t) :=
      Program.steps_requires _ ran
    have met := Program.wp_steps run (attempt_yields input backed)
    constructor
    · intro block next asks
      subst asks
      exact met.1.2 block rfl
    · intro download finished
      subst finished
      obtain ⟨least, bytes, ended⟩ := met
      have held : t.content = bytes := ended.content
      refine ⟨held ▸ ended.represented, ?_, fun state saved => held.trans (ended.validator state saved)⟩
      rw [held]
      exact ended.written

end

/-! ## A run -/

def plainUrls : UrlLibrary where
  join _ _ := none
  scheme _ := "https".toList
  path url := url.serialization
  host _ := some "media".toList
  username _ := []
  password _ := none
  sameOrigin _ _ := true

def firstTag : StrongEntityTag := ⟨"\"one\"".toList, by decide⟩

/-- The origin had one representation under the first tag, and another one after it. -/
def replacedOrigin : Origin where
  represents bytes := bytes = [1, 2, 3, 4] ∨ bytes = [5, 6]
  tagged tag := if tag = firstTag then [1, 2, 3, 4] else [5, 6]

def wholeBroken : Response :=
  ⟨200, [("etag".toList, firstTag.value), ("content-length".toList, "4".toList)], [[1, 2]],
    some .transport⟩

def restOfIt : Response :=
  ⟨206, [("etag".toList, firstTag.value), ("content-range".toList, "bytes 2-3/4".toList)], [[3, 4]],
    none⟩

def fileInput (total : Option Nat) (planned : Option Core.ResolvedDestination) : ExecutionInput where
  id := ⟨1, Int.one_pos⟩
  request := ⟨⟨"/file.bin".toList⟩, [], none⟩
  destination := ⟨"/downloads", none, .rename⟩
  progress := ⟨0, total, fun _ _ => Nat.zero_le _⟩
  resource := none
  resolvedDestination := planned

def runAttempt (w : PartialWorld) (input : ExecutionInput) (choices : List HttpChoice) :
    Option (Except DownloadFailure PartialOutcome × PartialWorld) :=
  (attempt plainUrls (fun _ => none) true input).run.finish surroundings choices
    { w with reports := [] }

/-- Two bytes are saved before the body breaks off. -/
def bodyBreaksOff : List HttpChoice :=
  [.proceeds, .sends wholeBroken, .answers false, .proceeds, .answers false, .proceeds, .proceeds,
    .proceeds, .answers false, .proceeds, .proceeds, .proceeds, .answers false, .answers false,
    .proceeds, .proceeds, .proceeds]

/-- The other two are asked for under the validator. -/
def restIsTaken : List HttpChoice :=
  [.proceeds, .proceeds, .proceeds, .proceeds, .proceeds, .proceeds, .sends restOfIt,
    .answers false, .proceeds, .proceeds, .proceeds, .answers false, .proceeds, .proceeds, .proceeds,
    .answers false, .answers false, .proceeds, .proceeds, .proceeds, .answers false]

theorem wholeBroken_served : replacedOrigin.ServesFull wholeBroken := by
  refine ⟨[1, 2, 3, 4], ⟨Or.inl rfl, ?_⟩, ⟨[3, 4], rfl, by rintro ⟨⟩⟩, ?_⟩
  · intro tag named
    have same : responseStrongEtag wholeBroken.headers = some firstTag := by decide
    rw [same] at named
    cases named
    rfl
  · intro metadata inspected length known
    have four : inspectHeaders wholeBroken.headers = .ok ⟨some 4, none, some firstTag⟩ := by decide
    rw [four] at inspected
    cases inspected
    cases known
    rfl

theorem restOfIt_served (request : Exchange) : replacedOrigin.ServesRange request restOfIt := by
  intro range named
  have interval : contentRange restOfIt.headers = .ok ⟨2, 3, 4, by decide, by decide⟩ := by decide
  rw [interval] at named
  cases named
  refine ⟨[1, 2, 3, 4], ⟨Or.inl rfl, ?_⟩, rfl, ⟨[], rfl, fun _ => rfl⟩, ?_⟩
  · intro tag found
    have same : responseStrongEtag restOfIt.headers = some firstTag := by decide
    rw [same] at found
    cases found
    rfl
  · intro unnamed
    cases unnamed

theorem runAttempt_ran {w t : PartialWorld} {input : ExecutionInput} {choices : List HttpChoice}
    {result : Except DownloadFailure PartialOutcome}
    (honest : ∀ response, .sends response ∈ choices → response = wholeBroken ∨ response = restOfIt)
    (ran : runAttempt w input choices = some (result, t)) :
    AttemptRun replacedOrigin plainUrls (fun _ => none) true w input (.done result, t) := by
  refine Program.steps_of_choices (fun choice member op s answer t answered => ?_) ran
  refine ⟨⟨choice, answered⟩, ?_⟩
  cases op with
  | exchange request =>
    cases choice with
    | sends response =>
      cases answered
      cases honest response member with
      | inl same =>
        subst same
        exact ⟨fun _ => wholeBroken_served, by rintro ⟨⟩⟩
      | inr same =>
        subst same
        exact ⟨by rintro ⟨⟩, fun _ => restOfIt_served request⟩
    | refuses error =>
      cases answered
      exact trivial
    | _ => cases answered
  | _ => trivial

theorem one_representation_in_file_example :
    ∃ w t input program, Reached replacedOrigin plainUrls (fun _ => none) true w ∧
      w.content = [1, 2] ∧
      AttemptRun replacedOrigin plainUrls (fun _ => none) true w input (program, t) ∧
      replacedOrigin.represents t.content := by
  have first : (runAttempt .empty (fileInput none none) bodyBreaksOff).isSome = true := by
    decide +kernel
  obtain ⟨⟨ending, broken⟩, ran⟩ := Option.isSome_iff_exists.mp first
  have second : ((runAttempt .empty (fileInput none none) bodyBreaksOff).bind fun broken =>
      runAttempt broken.2 (fileInput (some 4) (some ⟨"/downloads/file.bin"⟩)) restIsTaken).any
        (fun ended => ended.1.toOption.any fun outcome => match outcome with
          | .finished _ => true
          | .stopped _ => false) = true := by decide +kernel
  have saved : (runAttempt .empty (fileInput none none) bodyBreaksOff).any (fun broken =>
      broken.2.content = [1, 2]) = true := by decide +kernel
  rw [ran] at second saved
  obtain ⟨⟨result, t⟩, continued, complete⟩ := (Option.any_eq_true _ _).mp second
  have began := runAttempt_ran (by simp [bodyBreaksOff]) ran
  have went_on := runAttempt_ran (by simp [restIsTaken]) continued
  have reached := Reached.attempt Reached.start began
  cases result with
  | error failure => cases complete
  | ok outcome =>
    cases outcome with
    | stopped count => cases complete
    | finished download =>
      have whole := ((one_representation_in_file reached).2 _ _ t went_on).2 download rfl
      exact ⟨broken, t, _, _, reached, by simpa using saved, went_on, whole.1⟩

end Gunda.Http

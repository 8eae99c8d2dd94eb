import Gunda.Lib.Progress
import Gunda.Stream.Staging

/-!
# Checkpoints of a segmented transfer

A checkpoint is backed by its staging file: the durable bytes are the bodies of the
track's first resources, and synchronized. Every operation of `write_track` keeps
every checkpoint backed, so a run may be cut off and resumed anywhere.
-/
namespace Gunda.Stream

open Gunda.Lib Gunda.Lib.DurableFile
open Gunda.Core (Url RequestHeader DownloadFailure)

section

variable (bodies : Bodies) (plan : TrackPlan)

def bodyOf (resource : StreamResource) : Bytes := bodies resource.url resource.byteInterval

/-- The bodies of a track's first resources. -/
def front (track count : Nat) : Bytes :=
  ((plan.resourcesOf track).take count).flatMap (bodyOf bodies)

structure CheckpointBacked (file : Option StagingFile) (track : Nat)
    (checkpoint : TrackCheckpoint) : Prop where
  inPlan : checkpoint.nextResource ≤ (plan.resourcesOf track).length
  counted : checkpoint.durableBytes = (front bodies plan track checkpoint.nextResource).length
  kept : Retains file (front bodies plan track checkpoint.nextResource)

/-- Every checkpoint of the row is backed by the staging file of its track. -/
structure Backed (w : Staging) : Prop where
  tracks : ∀ state ∈ w.row, state.tracks.length = plan.trackCount
  checkpoints : ∀ state ∈ w.row, ∀ track checkpoint, state.tracks[track]? = some checkpoint →
    CheckpointBacked bodies plan (w.files (stagedPath track plan.trackCount)) track checkpoint

structure Sound (least : Nat) (w : Staging) : Prop where
  backed : Backed bodies plan w
  rising : Rising least w.reports

end

section Front

variable {bodies : Bodies} {plan : TrackPlan} {track : Nat}

theorem front_succ {count : Nat} {resource : StreamResource}
    (found : (plan.resourcesOf track)[count]? = some resource) :
    front bodies plan track (count + 1) = front bodies plan track count ++ bodyOf bodies resource := by
  unfold front
  rw [List.take_add_one, found, List.flatMap_append]
  simp

theorem front_leads {count other : Nat} (h : count ≤ other) :
    front bodies plan track count <+: front bodies plan track other := by
  have split : (plan.resourcesOf track).take count <+: (plan.resourcesOf track).take other :=
    List.take_prefix_take_left h
  obtain ⟨rest, joined⟩ := split
  unfold front
  rw [← joined, List.flatMap_append]
  exact List.prefix_append _ _

end Front

/-! ## What the files may undergo -/

section Backed

variable {bodies : Bodies} {plan : TrackPlan} {w : Staging}

/-- A change of one file keeps the checkpoints backed where it keeps what they rely on. -/
theorem Backed.put (backed : Backed bodies plan w) (path : StagingPath) {file : Option StagingFile}
    (keeps : ∀ state ∈ w.row, ∀ track checkpoint, state.tracks[track]? = some checkpoint →
      path = stagedPath track plan.trackCount →
      Retains file (front bodies plan track checkpoint.nextResource)) :
    Backed bodies plan (w.put path file) := by
  refine ⟨backed.tracks, fun state saved track checkpoint found => ?_⟩
  have before := backed.checkpoints state saved track checkpoint found
  refine ⟨before.inPlan, before.counted, ?_⟩
  by_cases same : stagedPath track plan.trackCount = path
  · rw [same, Staging.put_same]
    exact keeps state saved track checkpoint found same.symm
  · rw [Staging.put_other w file same]
    exact before.kept

/-- A change that keeps whatever a file keeps. -/
theorem Backed.modify (backed : Backed bodies plan w) (path : StagingPath)
    {change : StagingFile → StagingFile}
    (keeps : ∀ file front, Retains (some file) front → Retains (some (change file)) front) :
    Backed bodies plan (w.modify path change) := by
  refine backed.put path fun state saved track checkpoint found same => ?_
  have before := (backed.checkpoints state saved track checkpoint found).kept
  rw [← same] at before
  cases present : w.files path with
  | none =>
    rw [present] at before
    exact before
  | some file =>
    rw [present] at before
    exact keeps file _ before

theorem Backed.crash {after : Staging} (backed : Backed bodies plan w)
    (crashed : w.Crash after) : Backed bodies plan after := by
  refine ⟨fun state saved => backed.tracks state (crashed.row ▸ saved), ?_⟩
  intro state saved track checkpoint found
  have before := backed.checkpoints state (crashed.row ▸ saved) track checkpoint found
  exact ⟨before.inPlan, before.counted, before.kept.crash (crashed.files _)⟩

end Backed

/-! ## Outcomes -/

section Outcomes

variable (bodies : Bodies) (plan : TrackPlan) (least : Nat)

/-- The staging area, sound before every operation. -/
def stagingSpec : Spec TransferOp TransferOp.Answer Staging :=
  (staging bodies).spec fun _ w => Sound bodies plan least w

/-- A transfer ends in `P`, or fails where the staging area is still sound. -/
def Yields {α : Type} (p : Transfer α) (P : α → Staging → Prop) (w : Staging) : Prop :=
  Fallible.Yields (stagingSpec bodies plan least) (Sound bodies plan least) p P w

end Outcomes

section Rules

variable {bodies : Bodies} {plan : TrackPlan} {least : Nat} {α β : Type} {w : Staging}
  {P : α → Staging → Prop}

theorem Yields.pure {value : α} (h : P value w) :
    Yields bodies plan least (pure value : Transfer α) P w := h

theorem Yields.fail (failure : DownloadFailure) (sound : Sound bodies plan least w) :
    Yields bodies plan least (throw failure : Transfer α) P w := sound

theorem Yields.fail_bind {next : β → Transfer α} (failure : DownloadFailure)
    (sound : Sound bodies plan least w) :
    Yields bodies plan least ((throw failure : Transfer β) >>= next) P w := sound

theorem Yields.mono {p : Transfer α} {R : α → Staging → Prop} (h : Yields bodies plan least p P w)
    (weaker : ∀ value t, P value t → R value t) : Yields bodies plan least p R w :=
  Fallible.Yields.mono h weaker

theorem Yields.bind {p : Transfer α} {next : α → Transfer β} {R : β → Staging → Prop}
    (h : Yields bodies plan least p P w)
    (continued : ∀ value t, P value t → Yields bodies plan least (next value) R t) :
    Yields bodies plan least (p >>= next) R w :=
  Fallible.Yields.bind h continued

theorem Yields.ask {op : TransferOp} {P : op.Answer → Staging → Prop}
    (sound : Sound bodies plan least w)
    (answered : ∀ choice answer t, staging bodies op choice w = some (answer, t) → P answer t) :
    Yields bodies plan least (perform op) P w := by
  refine ⟨sound, fun answer t found => ?_⟩
  obtain ⟨choice, found⟩ := found
  exact answered choice answer t found

theorem Yields.tried {ε : Type} {failure : ε → DownloadFailure} {result : Except ε α}
    (done : ∀ value, result = .ok value → P value w)
    (failed : ∀ error, result = .error error → Sound bodies plan least w) :
    Yields bodies plan least (attempt failure result) P w := by
  cases result with
  | ok value => exact done value rfl
  | error error => exact failed error rfl

theorem Yields.tried_bind {ε : Type} {failure : ε → DownloadFailure} {result : Except ε β}
    {next : β → Transfer α} (sound : Sound bodies plan least w)
    (continued : ∀ value, result = .ok value → Yields bodies plan least (next value) P w) :
    Yields bodies plan least (attempt failure result >>= next) P w := by
  cases result with
  | ok value => exact continued value rfl
  | error error => exact .fail _ sound

theorem fileAnswer_cases {path : StagingPath} {choice : StagingChoice} {t : Staging}
    {change : StagingFile → StagingFile} {result : Except IoErrorKind Unit}
    (h : fileAnswer path choice w change = some (result, t)) :
    (result = .ok () ∧ t = w.modify path change) ∨
      ∃ error rest, result = .error error ∧ t = w.modify path (·.damage rest) := by
  cases choice with
  | proceeds =>
    cases h
    exact .inl ⟨rfl, rfl⟩
  | fails error rest =>
    cases h
    exact .inr ⟨error, rest, rfl, rfl⟩
  | _ => cases h

end Rules

/-! ## The state of a track being written -/

/-- The row of a run that saves checkpoints of one track. -/
inductive RowMoved (track limit : Nat) :
    Option StreamResumeState → Option StreamResumeState → Prop where
  | unsaved : RowMoved track limit none none
  | moved {before after : StreamResumeState} {checkpoint : TrackCheckpoint}
      (inside : track < before.tracks.length)
      (tracks : after.tracks = before.tracks.set track checkpoint)
      (behind : checkpoint.nextResource ≤ limit) :
      RowMoved track limit (some before) (some after)

/-- The track's file holds the bodies of its first resources and `extra` after them;
`start` is the staging area the run began in. -/
structure Writing (bodies : Bodies) (plan : TrackPlan) (least : Nat) (start : Staging)
    (track next : Nat) (extra : Bytes) (w : Staging) : Prop where
  sound : Sound bodies plan least w
  inPlan : next ≤ (plan.resourcesOf track).length
  holds : ∃ file, w.files (stagedPath track plan.trackCount) = some file ∧
    file.content = front bodies plan track next ++ extra
  others : ∀ path, path ≠ stagedPath track plan.trackCount → w.files path = start.files path
  rows : RowMoved track next start.row w.row

section Writing

variable {bodies : Bodies} {plan : TrackPlan} {least track next : Nat} {start w : Staging}
  {extra : Bytes}

variable {change : StagingFile → StagingFile} {t : Staging} {path : StagingPath}
    {result : Except IoErrorKind Unit} {row : Option StreamResumeState} {state : StreamResumeState}
    {choice : StagingChoice} {count base : Nat} {cursor : TrackCursor}

theorem Sound.modify (sound : Sound bodies plan least w) (path : StagingPath)
    (keeps : ∀ file front, Retains (some file) front → Retains (some (change file)) front) :
    Sound bodies plan least (w.modify path change) :=
  ⟨sound.backed.modify path keeps, sound.rising⟩

theorem Sound.damage (sound : Sound bodies plan least w) (path : StagingPath) (rest : Bytes) :
    Sound bodies plan least (w.modify path (·.damage rest)) :=
  sound.modify path fun _ _ kept => kept.damage rest

section

variable (h : Writing bodies plan least start track next extra w)
include h

theorem Writing.with_content {extra' : Bytes}
    (sound : Sound bodies plan least (w.modify (stagedPath track plan.trackCount) change))
    (content : ∀ file : StagingFile, file.content = front bodies plan track next ++ extra →
      (change file).content = front bodies plan track next ++ extra') :
    Writing bodies plan least start track next extra'
      (w.modify (stagedPath track plan.trackCount) change) := by
  obtain ⟨file, present, held⟩ := h.holds
  refine ⟨sound, h.inPlan, ⟨change file, ?_, content file held⟩, ?_, h.rows⟩
  · unfold Staging.modify
    rw [Staging.put_same, present]
    rfl
  · intro path different
    unfold Staging.modify
    rw [Staging.put_other w _ different]
    exact h.others path different

theorem Writing.modify {extra' : Bytes}
    (keeps : ∀ file front, Retains (some file) front → Retains (some (change file)) front)
    (content : ∀ file : StagingFile, file.content = front bodies plan track next ++ extra →
      (change file).content = front bodies plan track next ++ extra') :
    Writing bodies plan least start track next extra'
      (w.modify (stagedPath track plan.trackCount) change) :=
  h.with_content (h.sound.modify _ keeps) content

/-- Neither the row nor the reports have moved. -/
structure Quiet (w t : Staging) : Prop where
  row : t.row = w.row
  reports : t.reports = w.reports

omit h in
theorem Quiet.trans {w u : Staging} (first : Quiet w t) (second : Quiet t u) : Quiet w u :=
  ⟨second.row.trans first.row, second.reports.trans first.reports⟩

omit h in
theorem Quiet.modify (w : Staging) (path : StagingPath) (change : StagingFile → StagingFile) :
    Quiet w (w.modify path change) := ⟨rfl, rfl⟩

omit h in
/-- What follows a file operation that came out either way. -/
theorem Yields.settle {P : Unit → Staging → Prop}
    (came : (result = .ok () ∧ t = w.modify path change) ∨
      ∃ error rest, result = .error error ∧ t = w.modify path (·.damage rest))
    (sound : Sound bodies plan least w) (done : P () (w.modify path change)) :
    Yields bodies plan least (attempt stagingFailure result) P t := by
  cases came with
  | inl ok =>
    obtain ⟨rfl, rfl⟩ := ok
    exact .pure done
  | inr failed =>
    obtain ⟨error, rest, rfl, rfl⟩ := failed
    exact .fail _ (sound.damage path rest)

theorem flushTrack_yields :
    Yields bodies plan least (flushTrack (stagedPath track plan.trackCount))
      (fun _ t => Writing bodies plan least start track next extra t ∧ Quiet w t) w :=
  Yields.bind (.ask h.sound fun _ _ _ found => fileAnswer_cases found) fun _ _ came =>
    Yields.settle came h.sound
      ⟨h.modify (fun _ _ kept => kept) fun _ held => held, Quiet.modify w _ _⟩

theorem seekTrackEnd_yields :
    Yields bodies plan least (seekTrackEnd (stagedPath track plan.trackCount))
      (fun _ t => Writing bodies plan least start track next extra t ∧ Quiet w t) w :=
  Yields.bind (.ask h.sound fun _ _ _ found => fileAnswer_cases found) fun _ _ came =>
    Yields.settle came h.sound
      ⟨h.modify (fun _ _ kept => kept) fun _ held => held, Quiet.modify w _ _⟩

/-- After a synchronization the file keeps everything in it. -/
theorem syncTrack_yields :
    Yields bodies plan least (syncTrack (stagedPath track plan.trackCount))
      (fun _ t => Writing bodies plan least start track next extra t ∧ Quiet w t ∧
        Retains (t.files (stagedPath track plan.trackCount)) (front bodies plan track next ++ extra))
      w := by
  refine .bind (.ask h.sound fun _ _ _ found => fileAnswer_cases found) fun _ _ came =>
    Yields.settle came h.sound
      ⟨h.modify (fun _ _ kept => kept.sync) fun _ held => held, Quiet.modify w _ _, ?_⟩
  obtain ⟨file, present, held⟩ := h.holds
  unfold Staging.modify
  rw [Staging.put_same, present]
  exact retains_sync (held ▸ List.prefix_rfl)

variable {checkpoint : TrackCheckpoint}

omit h in
theorem RowMoved.limit {limit : Nat} {row after : Option StreamResumeState}
    (moved : RowMoved track limit row after) {state : StreamResumeState} (saved : state ∈ after)
    (found : state.tracks[track]? = some checkpoint) :
    checkpoint.nextResource ≤ limit := by
  cases moved with
  | unsaved => cases saved
  | moved inside tracks behind =>
    cases saved
    rw [tracks, List.getElem?_set_self inside] at found
    cases found
    exact behind

omit h in
theorem RowMoved.save {limit later : Nat} {next : StreamResumeState}
    (moved : RowMoved track limit row (some state))
    (tracks : next.tracks = state.tracks.set track checkpoint)
    (behind : checkpoint.nextResource ≤ later) : RowMoved track later row (some next) := by
  cases moved with
  | moved inside before =>
    refine .moved inside ?_ behind
    rw [tracks, before, List.set_set]

omit h in
/-- Of one or two tracks each has a file of its own. -/
theorem stagedPath_inj {plan : TrackPlan} {track other : Nat} (inside : track < plan.trackCount)
    (other_inside : other < plan.trackCount) (few : plan.trackCount ≤ 2)
    (same : stagedPath track plan.trackCount = stagedPath other plan.trackCount) :
    track = other := by
  by_cases single : plan.trackCount = 1
  · omega
  · unfold stagedPath trackPath at same
    rw [if_neg single, if_neg single] at same
    split at same <;> split at same
    · omega
    · cases same
    · cases same
    · omega

/-- The fronts saved of a track's file do not reach past the resources written. -/
theorem Writing.saved_behind (inside : track < plan.trackCount) {state : StreamResumeState}
    (saved : state ∈ w.row) {other : Nat} (found : state.tracks[other]? = some checkpoint)
    (same : stagedPath track plan.trackCount = stagedPath other plan.trackCount) :
    front bodies plan other checkpoint.nextResource <+: front bodies plan track next := by
  have counted := h.sound.backed.tracks state saved
  have few : plan.trackCount ≤ 2 := counted ▸ state.oneOrTwo.2
  have other_inside : other < plan.trackCount :=
    counted ▸ (List.getElem?_eq_some_iff.mp found).1
  have one := stagedPath_inj inside other_inside few same
  subst one
  exact front_leads (h.rows.limit saved found)

/-- The file is cut back to the resources written. -/
theorem setTrackLen_yields (inside : track < plan.trackCount) :
    Yields bodies plan least (setTrackLen (stagedPath track plan.trackCount)
        (front bodies plan track next).length)
      (fun _ t => Writing bodies plan least start track next [] t ∧ Quiet w t) w := by
  refine .bind (.ask h.sound fun _ _ _ found => fileAnswer_cases found) fun _ _ came =>
    Yields.settle came h.sound ⟨h.with_content ⟨?_, h.sound.rising⟩ ?_, Quiet.modify w _ _⟩
  · refine h.sound.backed.put _ fun state saved other checkpoint found same => ?_
    have behind := h.saved_behind inside saved found same
    have kept := (h.sound.backed.checkpoints state saved other checkpoint found).kept
    obtain ⟨file, present, -⟩ := h.holds
    rw [← same, present] at kept
    rw [present]
    exact kept.setLen 0 behind.length_le
  · intro file held
    have fits : (front bodies plan track next).length ≤ file.content.length := by
      rw [held, List.length_append]
      exact Nat.le_add_right _ _
    rw [setLen_content fits, held, List.take_left, List.append_nil]

/-! ## Checkpoints -/

omit h in
/-- The row after a checkpoint of the resources written. -/
theorem Writing.save (h : Writing bodies plan least start track next [] w)
    (kept : Retains (w.files (stagedPath track plan.trackCount)) (front bodies plan track next))
    {candidate : StreamResumeState} (loaded : w.row = some state)
    (moved : state.withTrack track ⟨next, (front bodies plan track next).length⟩ = some candidate) :
    Writing bodies plan least start track next [] { w with row := some candidate } := by
  obtain ⟨-, tracks, -⟩ := StreamResumeState.withTrack_eq_some moved
  have counted := h.sound.backed.tracks state loaded
  refine ⟨⟨⟨?_, ?_⟩, h.sound.rising⟩, h.inPlan, h.holds, h.others, ?_⟩
  · intro other same
    cases same
    rw [tracks, List.length_set]
    exact counted
  · intro other same track' checkpoint found
    cases same
    rw [tracks, List.getElem?_set] at found
    split at found
    · rename_i own
      subst own
      split at found
      · cases found
        exact ⟨h.inPlan, rfl, kept⟩
      · cases found
    · exact h.sound.backed.checkpoints state loaded track' checkpoint found
  · exact (loaded ▸ h.rows).save tracks (Nat.le_refl next)

/-- What a saved checkpoint says. -/
def SavedAt (track next bytes : Nat) (row : Option StreamResumeState) : Prop :=
  ∀ state ∈ row, state.tracks[track]? = some ⟨next, bytes⟩

omit h in
theorem saveAnswer_cases {result : Except Core.RepositoryErrorKind StreamResumeState}
    (h : saveAnswer state choice w = some (result, t)) :
    (result = .ok state ∧ t = { w with row := some state }) ∨
      ∃ error, result = .error error ∧ (t = w ∨ t = { w with row := some state }) := by
  unfold saveAnswer at h
  split at h
  · rename_i saved ok
    cases saveCheckpoint_ok ok
    cases h
    exact .inl ⟨rfl, rfl⟩
  · cases h
    exact .inr ⟨_, rfl, Or.inl rfl⟩
  · rename_i saved ok
    cases saveCheckpoint_ok ok
    cases h
    exact .inr ⟨_, rfl, Or.inr rfl⟩
  · cases h
    exact .inr ⟨_, rfl, Or.inl rfl⟩
  · cases h

omit h in
theorem saveTrack_yields (h : Writing bodies plan least start track next [] w)
    (kept : Retains (w.files (stagedPath track plan.trackCount)) (front bodies plan track next))
    (loaded : w.row = some state) :
    Yields bodies plan least
      (saveTrack state track ⟨next, (front bodies plan track next).length⟩)
      (fun saved t => Writing bodies plan least start track next [] t ∧ t.reports = w.reports ∧
        t.row = some saved ∧ SavedAt track next (front bodies plan track next).length t.row) w := by
  unfold saveTrack
  split
  · exact .fail _ h.sound
  · rename_i candidate moved
    have after := h.save kept loaded moved
    refine .bind (.ask h.sound fun _ _ _ found => saveAnswer_cases found)
      fun result t came => ?_
    cases came with
    | inl ok =>
      obtain ⟨rfl, rfl⟩ := ok
      refine .bind (P := fun saved t => saved = candidate ∧ t = { w with row := some candidate })
        (.pure ⟨rfl, rfl⟩) fun saved t same => ?_
      obtain ⟨rfl, rfl⟩ := same
      rw [if_neg (by simp)]
      refine .pure ⟨after, rfl, rfl, fun stored same => ?_⟩
      cases same
      obtain ⟨-, tracks, current, found, -⟩ := StreamResumeState.withTrack_eq_some moved
      rw [tracks, List.getElem?_set_self (List.getElem?_eq_some_iff.mp found).1]
    | inr failed =>
      obtain ⟨error, rfl, unchanged | changed⟩ := failed
      · exact .fail _ (unchanged ▸ h.sound)
      · exact .fail _ (changed ▸ after.sound)

omit h in
theorem checkpointTrack_yields (h : Writing bodies plan least start track next [] w) :
    Yields bodies plan least
      (checkpointTrack (stagedPath track plan.trackCount) w.row track
        ⟨next, (front bodies plan track next).length⟩)
      (fun resume t => Writing bodies plan least start track next [] t ∧ t.reports = w.reports ∧
        t.row = resume ∧ SavedAt track next (front bodies plan track next).length t.row) w := by
  refine .bind (flushTrack_yields h) fun _ flushed after => ?_
  refine .bind (syncTrack_yields after.1) fun _ synced after' => ?_
  obtain ⟨writing, quiet, kept⟩ := after'
  have still := after.2.trans quiet
  rw [List.append_nil] at kept
  cases loaded : w.row with
  | none =>
    refine .pure ⟨writing, still.reports, still.row.trans loaded, fun state same => ?_⟩
    rw [still.row, loaded] at same
    cases same
  | some state =>
    have stored : synced.row = some state := still.row.trans loaded
    change Yields bodies plan least (some <$> saveTrack state track _) _ _
    rw [map_eq_pure_bind]
    refine .bind (saveTrack_yields writing kept stored) fun saved t after => ?_
    obtain ⟨written, reports, row, at_checkpoint⟩ := after
    exact .pure ⟨written, reports.trans still.reports, row, at_checkpoint⟩

/-! ## Bodies -/

/-- Every count reported so far is at most this one. -/
def ReportedWithin (bound : Nat) (w : Staging) : Prop := ∀ count ∈ w.reports, count ≤ bound

theorem Writing.report (above : least ≤ count) (within : ReportedWithin count w) :
    Writing bodies plan least start track next extra { w with reports := count :: w.reports } := by
  refine ⟨⟨⟨h.sound.backed.tracks, h.sound.backed.checkpoints⟩, ?_, ?_⟩, h.inPlan, h.holds,
    h.others, h.rows⟩
  · intro other member
    cases List.mem_cons.mp member with
    | inl same => exact same ▸ above
    | inr earlier => exact h.sound.rising.bounded other earlier
  · exact List.pairwise_cons.mpr ⟨within, h.sound.rising.sorted⟩

/-- What the end of a body leaves: all of it where it was complete. -/
structure BodyWritten (bodies : Bodies) (plan : TrackPlan) (least : Nat) (start : Staging)
    (track next base : Nat) (body : Bytes) (row : Option StreamResumeState) (ending : BodyEnd)
    (t : Staging) : Prop where
  row_same : t.row = row
  writing : ∃ extra, Writing bodies plan least start track next extra t
  completed : ∀ written, ending = .complete written →
    Writing bodies plan least start track next body t ∧
      written = (front bodies plan track next ++ body).length ∧ ReportedWithin (base + written) t

omit h in
theorem checkedAdd_yields {α : Type} {a b : Nat} {next : Nat → Transfer α}
    {P : α → Staging → Prop} (sound : Sound bodies plan least w)
    (continued : Yields bodies plan least (next (a + b)) P w) :
    Yields bodies plan least (checkedAdd a b >>= next) P w := by
  unfold checkedAdd
  split
  · exact .fail _ sound
  · exact continued

theorem Writing.append (block : Bytes) :
    Writing bodies plan least start track next (extra ++ block)
      (w.modify (stagedPath track plan.trackCount) (·.append block)) := by
  refine h.modify (fun _ _ kept => kept.append block) fun file held => ?_
  rw [append_content, held, List.append_assoc]

omit h in
theorem stopped_cases {stop : Bool} (h : staging bodies (.stopped path) choice w = some (stop, t)) :
    (stop = false ∧ t = w) ∨ ∃ torn, stop = true ∧ t = w.modify path (·.append torn) := by
  cases choice with
  | answers yes torn =>
    cases yes with
    | false =>
      cases h
      exact .inl ⟨rfl, rfl⟩
    | true =>
      cases h
      exact .inr ⟨torn, rfl, rfl⟩
  | _ => cases h

omit h in
theorem write_cases {block : Bytes}
    (h : staging bodies (.write path block) choice w = some (result, t)) :
    (result = .ok () ∧ t = w.modify path (·.append block)) ∨
      ∃ error torn, result = .error error ∧ t = w.modify path (·.append torn) := by
  cases choice with
  | proceeds =>
    cases h
    exact .inl ⟨rfl, rfl⟩
  | fails error torn =>
    cases h
    exact .inr ⟨error, torn, rfl, rfl⟩
  | _ => cases h

omit h in
theorem report_cases {answer : Unit}
    (h : staging bodies (.report count) choice w = some (answer, t)) :
    t = { w with reports := count :: w.reports } := by
  cases choice with
  | proceeds =>
    cases h
    rfl
  | _ => cases h

omit h in
/-- A body that ends before its last block leaves some of it. -/
theorem BodyWritten.cut {body : Bytes} {ending : BodyEnd}
    (h : Writing bodies plan least start track next extra t) (same : t.row = row)
    (cut : ∀ written, ending ≠ .complete written) :
    BodyWritten bodies plan least start track next base body row ending t :=
  ⟨same, ⟨extra, h⟩, fun written complete => absurd complete (cut written)⟩

omit h in
theorem appendBody_yields {body : Bytes} {failure : Option Http.HttpError} (chunks : List Bytes)
    {extra : Bytes} {w : Staging} (h : Writing bodies plan least start track next extra w)
    (leads : extra ++ chunks.flatten <+: body)
    (whole : failure = none → extra ++ chunks.flatten = body)
    (above : least ≤ base + (front bodies plan track next ++ extra).length)
    (within : ReportedWithin (base + (front bodies plan track next ++ extra).length) w) :
    Yields bodies plan least
      (appendBody (stagedPath track plan.trackCount) base failure chunks
        (front bodies plan track next ++ extra).length)
      (BodyWritten bodies plan least start track next base body w.row) w := by
  induction chunks generalizing extra w with
  | nil =>
    unfold appendBody
    refine .bind (.ask h.sound fun _ _ _ found => stopped_cases found)
      fun stop t came => ?_
    obtain ⟨rfl, rfl⟩ | ⟨torn, rfl, rfl⟩ := came
    · refine .pure ⟨rfl, ⟨extra, h⟩, fun written complete => ?_⟩
      cases failure with
      | none =>
        cases complete
        have all := whole rfl
        rw [List.flatten_nil, List.append_nil] at all
        subst all
        exact ⟨h, rfl, within⟩
      | some error => cases complete
    · exact .pure (.cut (h.append torn) rfl (by rintro _ ⟨⟩))
  | cons chunk rest ih =>
    unfold appendBody
    refine .bind (.ask h.sound fun _ _ _ found => stopped_cases found)
      fun stop now came => ?_
    obtain ⟨rfl, rfl⟩ | ⟨torn, rfl, rfl⟩ := came
    · refine .bind (.ask h.sound fun _ _ _ found => write_cases found)
        fun result t came => ?_
      obtain ⟨rfl, rfl⟩ | ⟨error, torn, rfl, rfl⟩ := came
      · have written := h.append chunk
        have grown : (front bodies plan track next ++ extra).length + chunk.length =
            (front bodies plan track next ++ (extra ++ chunk)).length := by
          simp only [List.length_append, Nat.add_assoc]
        refine checkedAdd_yields written.sound ?_
        rw [grown]
        refine checkedAdd_yields written.sound ?_
        have later : base + (front bodies plan track next ++ extra).length ≤
            base + (front bodies plan track next ++ (extra ++ chunk)).length := by omega
        have above' := Nat.le_trans above later
        have within' : ReportedWithin (base + (front bodies plan track next ++
            (extra ++ chunk)).length) now := fun count member => Nat.le_trans (within count member) later
        refine .bind (.ask written.sound fun _ _ _ found => report_cases found)
          fun _ reported same => ?_
        subst same
        refine ih (written.report above' within') ?_ ?_ above' ?_
        · rw [List.append_assoc]
          exact leads
        · intro clean
          rw [List.append_assoc]
          exact whole clean
        · intro count member
          cases List.mem_cons.mp member with
          | inl same => exact Nat.le_of_eq same
          | inr earlier => exact within' count earlier
      · exact .pure (.cut (h.append torn) rfl (by rintro _ ⟨⟩))
    · exact .pure (.cut (h.append torn) rfl (by rintro _ ⟨⟩))

/-! ## Resources -/

theorem truncateTrack_yields (inside : track < plan.trackCount) :
    Yields bodies plan least (truncateTrack (stagedPath track plan.trackCount)
        (front bodies plan track next).length)
      (fun _ t => Writing bodies plan least start track next [] t ∧ Quiet w t) w := by
  refine .bind (flushTrack_yields h) fun _ _ flushed => ?_
  refine .bind (setTrackLen_yields flushed.1 inside) fun _ _ cut => ?_
  refine (seekTrackEnd_yields cut.1).mono fun _ _ done => ?_
  exact ⟨done.1, (flushed.2.trans cut.2).trans done.2⟩

/-- The counters of a loop that has written the first resources of the track. -/
structure CursorAt (bodies : Bodies) (plan : TrackPlan) (track next : Nat) (w : Staging)
    (cursor : TrackCursor) : Prop where
  nextResource : cursor.nextResource = next
  written : cursor.written = (front bodies plan track next).length
  resume : cursor.resume = w.row

/-- What a checkpoint leaves behind it. -/
structure Checkpointed (bodies : Bodies) (plan : TrackPlan) (least : Nat) (start : Staging)
    (track next : Nat) (resume : Option StreamResumeState) (t : Staging) : Prop where
  writing : Writing bodies plan least start track next [] t
  row : t.row = resume
  saved : SavedAt track next (front bodies plan track next).length t.row

omit h in
theorem saveCursor_yields (h : Writing bodies plan least start track next [] w)
    (counters : CursorAt bodies plan track next w cursor) :
    Yields bodies plan least
      (checkpointTrack (stagedPath track plan.trackCount) cursor.resume track
        ⟨cursor.nextResource, cursor.written⟩)
      (fun resume t => Checkpointed bodies plan least start track next resume t ∧
        t.reports = w.reports) w := by
  rw [counters.nextResource, counters.written, counters.resume]
  refine (checkpointTrack_yields h).mono fun resume t after => ?_
  exact ⟨⟨after.1, after.2.2.1, after.2.2.2⟩, after.2.1⟩

theorem abandonResource_yields
    (inside : track < plan.trackCount) (counters : CursorAt bodies plan track next w cursor) :
    Yields bodies plan least (abandonResource (stagedPath track plan.trackCount) track cursor)
      (fun resume t => Checkpointed bodies plan least start track next resume t) w := by
  unfold abandonResource
  rw [counters.written]
  refine .bind (truncateTrack_yields h inside) fun _ cut after => ?_
  have still : CursorAt bodies plan track next cut cursor :=
    ⟨counters.nextResource, counters.written, counters.resume.trans after.2.row.symm⟩
  rw [← counters.written]
  exact (saveCursor_yields after.1 still).mono fun _ _ saved => saved.1

end

/-- What a run of `write_track` ends with. -/
structure TrackWritten (bodies : Bodies) (plan : TrackPlan) (least : Nat) (start : Staging)
    (track base reached : Nat) (result : TrackResult) (t : Staging) : Prop where
  checkpoint : Checkpointed bodies plan least start track reached result.resume t
  written : result.written = (front bodies plan track reached).length
  completed : result.stopped = false → reached = (plan.resourcesOf track).length ∧
    ReportedWithin (base + result.written) t

theorem openBody_cases {request : Core.RequestContext} {interval : Option (Nat × Nat)}
    {result : Except Http.HttpError SegmentBody}
    (h : staging bodies (.openBody request interval) choice w = some (result, t)) :
    t = w ∧ ∀ body, result = .ok body → body.Of (bodies request.url interval) := by
  cases choice with
  | sends body =>
    unfold staging at h
    dsimp only at h
    split at h
    · rename_i fixed
      cases h
      refine ⟨rfl, ?_⟩
      rintro _ ⟨⟩
      exact fixed
    · cases h
  | refuses error =>
    cases h
    exact ⟨rfl, by rintro _ ⟨⟩⟩
  | _ => cases h

theorem answered_cases {yes : Bool} :
    (staging bodies .isRequested choice w = some (yes, t) → t = w) ∧
      (staging bodies .checkpointElapsed choice w = some (yes, t) → t = w) := by
  constructor <;> intro h
  · cases choice with
    | answers other torn =>
      cases h
      rfl
    | _ => cases h
  · cases choice with
    | answers other torn =>
      cases h
      rfl
    | _ => cases h

theorem openResource_yields {resource : StreamResource} (urls : Http.UrlLibrary) (manifestUrl : Url)
    (headers : List RequestHeader) (sound : Sound bodies plan least w) :
    Yields bodies plan least (openResource urls manifestUrl headers resource)
      (fun body t => t = w ∧ body.Of (bodyOf bodies resource)) w := by
  refine .bind (.ask sound fun _ _ _ found => openBody_cases found)
    fun result t came => ?_
  obtain ⟨rfl, fixed⟩ := came
  exact .tried (fun body ok => ⟨rfl, fixed body ok⟩) fun _ _ => sound

theorem checkpointDue_yields (sound : Sound bodies plan least w) :
    Yields bodies plan least (checkpointDue count cursor) (fun _ t => t = w) w := by
  unfold checkpointDue
  split
  · exact .pure rfl
  · exact .ask sound fun _ _ _ found => answered_cases.2 found

theorem RowMoved.later {limit later : Nat} {after : Option StreamResumeState}
    (moved : RowMoved track limit row after) (h : limit ≤ later) :
    RowMoved track later row after := by
  cases moved with
  | unsaved => exact .unsaved
  | moved inside tracks behind => exact .moved inside tracks (Nat.le_trans behind h)

/-- A body written whole moves the front by one resource. -/
theorem Writing.advance {resource : StreamResource}
    (found : (plan.resourcesOf track)[next]? = some resource)
    (h : Writing bodies plan least start track next (bodyOf bodies resource) w) :
    Writing bodies plan least start track (next + 1) [] w := by
  refine ⟨h.sound, (List.getElem?_eq_some_iff.mp found).1, ?_, h.others, h.rows.later (by omega)⟩
  obtain ⟨file, present, held⟩ := h.holds
  refine ⟨file, present, ?_⟩
  rw [held, front_succ found, List.append_nil]

theorem writeResources_yields (urls : Http.UrlLibrary) (manifestUrl : Url)
    (headers : List RequestHeader) (rest : List StreamResource) {next : Nat} {w : Staging}
    (remaining : (plan.resourcesOf track).drop next = rest)
    (h : Writing bodies plan least start track next [] w) (inside : track < plan.trackCount)
    (counters : CursorAt bodies plan track next w cursor)
    (above : rest ≠ [] → least ≤ base + cursor.written)
    (within : ReportedWithin (base + cursor.written) w) :
    Yields bodies plan least
      (writeResources urls manifestUrl headers track (stagedPath track plan.trackCount) base count
        rest cursor)
      (fun result t => ∃ reached, TrackWritten bodies plan least start track base reached result t)
      w := by
  induction rest generalizing next w cursor with
  | nil =>
    have all : next = (plan.resourcesOf track).length :=
      Nat.le_antisymm h.inPlan (List.drop_eq_nil_iff.mp remaining)
    unfold writeResources
    refine .bind (saveCursor_yields h counters) fun resume t saved => ?_
    refine .pure ⟨next, saved.1, counters.written, fun _ => ⟨all, ?_⟩⟩
    intro reported member
    rw [saved.2] at member
    exact within reported member
  | cons resource rest ih =>
    have found : (plan.resourcesOf track)[next]? = some resource := by
      have first : ((plan.resourcesOf track).drop next)[0]? = some resource := by rw [remaining]; rfl
      rw [List.getElem?_drop] at first
      exact first
    have later : (plan.resourcesOf track).drop (next + 1) = rest := by
      rw [← List.tail_drop, remaining]
      rfl
    unfold writeResources
    refine .bind (.ask h.sound fun _ _ _ asked => answered_cases.1 asked)
      fun stop now same => ?_
    subst same
    cases stop with
    | true =>
      refine .bind (saveCursor_yields h counters) fun resume t saved => ?_
      exact .pure ⟨next, saved.1, counters.written, by rintro ⟨⟩⟩
    | false =>
      refine .bind (openResource_yields urls manifestUrl headers h.sound)
        fun body opened fixed => ?_
      obtain ⟨rfl, leads, whole⟩ := fixed
      have start_written : cursor.written = (front bodies plan track next ++ []).length := by
        rw [List.append_nil]
        exact counters.written
      rw [start_written] at above within
      have appended := appendBody_yields body.chunks h leads whole
        (above (List.cons_ne_nil _ _)) within
      rw [← start_written] at appended
      refine .bind appended fun ending t wrote => ?_
      obtain ⟨extra, writing⟩ := wrote.writing
      have still : CursorAt bodies plan track next t cursor :=
        ⟨counters.nextResource, counters.written, counters.resume.trans wrote.row_same.symm⟩
      cases ending with
      | stopped =>
        refine .bind (abandonResource_yields writing inside still) fun resume u saved => ?_
        exact .pure ⟨next, saved, counters.written, by rintro ⟨⟩⟩
      | failed failure =>
        refine .bind (abandonResource_yields writing inside still) fun resume u saved => ?_
        exact .fail failure saved.writing.sound
      | complete written =>
        obtain ⟨whole_body, total, reported⟩ := wrote.completed written rfl
        have advanced := whole_body.advance found
        have grown : written = (front bodies plan track (next + 1)).length := by
          rw [front_succ found]
          exact total
        have behind : least ≤ base + written := by
          have before := above (List.cons_ne_nil _ _)
          rw [List.append_nil] at before
          rw [total, List.length_append]
          omega
        have moved : CursorAt bodies plan track (next + 1) t
            { cursor with nextResource := cursor.nextResource + 1, written := written } :=
          ⟨by rw [counters.nextResource], grown, still.resume⟩
        refine .bind (checkpointDue_yields advanced.sound) fun due u same => ?_
        subst same
        cases due with
        | true =>
          refine .bind (saveCursor_yields advanced moved) fun resume v saved => ?_
          refine ih later saved.1.writing ⟨moved.nextResource, moved.written, saved.1.row.symm⟩
            (fun _ => behind) ?_
          intro count member
          rw [saved.2] at member
          exact reported count member
        | false => exact ih later advanced moved (fun _ => behind) reported

/-! ## Opening the file -/

/-- Where a run starts: what the row says of the track, in a staging area that backs it. -/
structure Starting (bodies : Bodies) (plan : TrackPlan) (least : Nat) (w : Staging)
    (track next : Nat) : Prop where
  sound : Sound bodies plan least w
  inPlan : next ≤ (plan.resourcesOf track).length
  rows : RowMoved track next w.row w.row
  kept : Retains (w.files (stagedPath track plan.trackCount)) (front bodies plan track next)

theorem starting_of_sound (sound : Sound bodies plan least w) (inside : track < plan.trackCount) :
    Starting bodies plan least w track (checkpointOf w.row track).nextResource ∧
      (checkpointOf w.row track).durableBytes =
        (front bodies plan track (checkpointOf w.row track).nextResource).length := by
  cases loaded : w.row with
  | none =>
    refine ⟨⟨sound, Nat.zero_le _, ?_, retains_nil _⟩, rfl⟩
    rw [loaded]
    exact .unsaved
  | some state =>
    have counted := sound.backed.tracks state loaded
    have there : track < state.tracks.length := counted ▸ inside
    have read : state.tracks.getD track .start = state.tracks[track] := by
      rw [List.getD_eq_getElem?_getD, List.getElem?_eq_getElem there]
      rfl
    have found : state.tracks[track]? = some (state.tracks.getD track .start) := by
      rw [read, List.getElem?_eq_getElem there]
    have backed := sound.backed.checkpoints state loaded track _ found
    refine ⟨⟨sound, backed.inPlan, ?_, backed.kept⟩, backed.counted⟩
    rw [loaded]
    refine .moved there ?_ (Nat.le_refl _)
    change state.tracks = state.tracks.set track (state.tracks.getD track .start)
    rw [read, List.set_getElem_self]

theorem createNew_cases (h : staging bodies (.createNew path) choice w = some (result, t)) :
    (result = .ok () ∧ w.files path = none ∧ t = w.put path (some DurableFile.empty)) ∨
      ∃ error, result = .error error ∧ t = w := by
  cases choice with
  | proceeds =>
    unfold staging at h
    dsimp only at h
    split at h
    · cases h
      exact .inr ⟨_, rfl, rfl⟩
    · rename_i missing
      cases h
      exact .inl ⟨rfl, by simpa using missing, rfl⟩
  | fails error rest =>
    cases h
    exact .inr ⟨error, rfl, rfl⟩
  | _ => cases h

section

variable (h : Starting bodies plan least w track next)
include h

theorem createTrack_yields (nothing : front bodies plan track next = []) :
    Yields bodies plan least (createTrack (stagedPath track plan.trackCount))
      (fun _ t => Writing bodies plan least w track next [] t ∧ Quiet w t) w := by
  refine .bind (.ask h.sound fun _ _ _ found => createNew_cases found)
    fun result t came => ?_
  obtain ⟨rfl, missing, rfl⟩ | ⟨error, rfl, rfl⟩ := came
  · have backed : Backed bodies plan
        (w.put (stagedPath track plan.trackCount) (some DurableFile.empty)) := by
      refine h.sound.backed.put _ fun state saved other checkpoint found same => ?_
      have before := (h.sound.backed.checkpoints state saved other checkpoint found).kept
      rw [← same, missing] at before
      cases before with
      | inl empty => exact .inl empty
      | inr present =>
        obtain ⟨file, ⟨⟩, -⟩ := present
    refine .pure ⟨⟨⟨backed, h.sound.rising⟩, h.inPlan, ⟨_, Staging.put_same .., ?_⟩,
      fun path different => Staging.put_other w _ different, h.rows⟩, ⟨rfl, rfl⟩⟩
    rw [nothing]
    rfl
  · exact .fail _ h.sound

/-- A file that is there holds the durable bytes first. -/
theorem Starting.writing {file : StagingFile}
    (present : w.files (stagedPath track plan.trackCount) = some file) :
    ∃ extra, Writing bodies plan least w track next extra w ∧
      file.content = front bodies plan track next ++ extra := by
  have kept := h.kept
  rw [present] at kept
  obtain ⟨extra, held⟩ := kept.leads
  exact ⟨extra, ⟨h.sound, h.inPlan, ⟨file, present, held.symm⟩, fun _ _ => rfl, h.rows⟩, held.symm⟩

omit h in
theorem existing_cases (h : staging bodies (.openExisting path) choice w = some (result, t)) :
    t = w ∧ (result = .ok () → ∃ file, w.files path = some file) := by
  cases choice with
  | proceeds =>
    cases h
    refine ⟨rfl, fun opened => ?_⟩
    cases present : w.files path with
    | none =>
      rw [present] at opened
      cases opened
    | some file => exact ⟨file, rfl⟩
  | fails error rest =>
    cases h
    exact ⟨rfl, by rintro ⟨⟩⟩
  | _ => cases h

omit h in
theorem length_cases {result : Except IoErrorKind Nat}
    (h : staging bodies (.length path) choice w = some (result, t)) :
    t = w ∧ ∀ length, result = .ok length → length = (w.content path).length := by
  cases choice with
  | proceeds =>
    cases h
    exact ⟨rfl, by rintro _ ⟨⟩; rfl⟩
  | fails error rest =>
    cases h
    exact ⟨rfl, by rintro _ ⟨⟩⟩
  | _ => cases h

theorem continueTrack_yields (inside : track < plan.trackCount) :
    Yields bodies plan least (continueTrack (stagedPath track plan.trackCount)
        (front bodies plan track next).length)
      (fun _ t => Writing bodies plan least w track next [] t ∧ Quiet w t) w := by
  refine .bind (.ask h.sound fun _ _ _ found => existing_cases found)
    fun result now came => ?_
  obtain ⟨rfl, exists_file⟩ := came
  refine .tried_bind h.sound fun _ opened => ?_
  obtain ⟨file, present⟩ := exists_file opened
  obtain ⟨extra, writing, held⟩ := h.writing present
  refine .bind (.ask h.sound fun _ _ _ found => length_cases found)
    fun result still came => ?_
  obtain ⟨rfl, measured⟩ := came
  refine .tried_bind h.sound fun length counted => ?_
  have real : length = file.content.length := by
    rw [measured length counted]
    unfold Staging.content
    rw [present]
    rfl
  dsimp only
  split
  · exact .fail_bind _ h.sound
  · split
    · refine .bind (setTrackLen_yields writing inside) fun _ cut after => ?_
      exact (seekTrackEnd_yields after.1).mono fun _ _ done => ⟨done.1, after.2.trans done.2⟩
    · have nothing : extra = [] := by
        rw [real, held, List.length_append] at *
        exact List.length_eq_zero_iff.mp (by omega)
      subst nothing
      exact seekTrackEnd_yields writing

omit h in
theorem fileType_cases {result : Except IoErrorKind FileType}
    (h : staging bodies (.fileType path) choice w = some (result, t)) : t = w := by
  cases choice with
  | proceeds =>
    cases h
    rfl
  | fails error rest =>
    unfold staging at h
    dsimp only at h
    split at h
    · cases h
    · cases h
      rfl
  | _ => cases h

theorem openTrack_yields (inside : track < plan.trackCount) {resuming : Bool}
    (fresh : resuming = false → front bodies plan track next = []) :
    Yields bodies plan least (openTrack (stagedPath track plan.trackCount)
        (front bodies plan track next).length resuming)
      (fun _ t => Writing bodies plan least w track next [] t ∧ Quiet w t) w := by
  cases resuming with
  | false => exact createTrack_yields h (fresh rfl)
  | true =>
    refine .bind (.ask h.sound fun _ _ _ found => fileType_cases found)
      fun result now same => ?_
    subst same
    split
    · exact continueTrack_yields h inside
    · exact .fail _ h.sound
    · split
      · exact createTrack_yields h (List.length_eq_zero_iff.mp ‹_›)
      · exact .fail _ h.sound
    · exact .fail _ h.sound

end

/-- A run of `write_track` keeps the staging area sound, and what it ends with is backed. -/
theorem writeTrack_yields (urls : Http.UrlLibrary) (manifestUrl : Url)
    (headers : List RequestHeader) (sound : Sound bodies plan least w)
    (inside : track < plan.trackCount)
    (above : (plan.resourcesOf track).drop (checkpointOf w.row track).nextResource ≠ [] →
      least ≤ base + (checkpointOf w.row track).durableBytes)
    (within : ReportedWithin (base + (checkpointOf w.row track).durableBytes) w) :
    Yields bodies plan least
      (writeTrack urls manifestUrl headers plan track (stagedPath track plan.trackCount) base w.row)
      (fun result t => ∃ reached, TrackWritten bodies plan least w track base reached result t)
      w := by
  obtain ⟨starting, counted⟩ := starting_of_sound sound inside
  unfold writeTrack
  dsimp only
  split
  · exact .fail _ sound
  · have fresh : w.row.isSome = false →
        front bodies plan track (checkpointOf w.row track).nextResource = [] := by
      intro none_saved
      rw [Option.isSome_eq_false_iff, Option.isNone_iff_eq_none] at none_saved
      rw [none_saved]
      rfl
    rw [counted]
    refine .bind (openTrack_yields starting inside fresh) fun _ opened after => ?_
    rw [counted] at above within
    refine writeResources_yields urls manifestUrl headers _ rfl after.1 inside
      ⟨rfl, rfl, after.2.row.symm⟩ above ?_
    intro count member
    rw [after.2.reports] at member
    exact within count member

end Writing

end Gunda.Stream

import Gunda.Http.Surroundings
import Gunda.Lib.Progress

/-!
# One representation in the partial file

The durable bytes of a partial file are a front of the representation that the saved
validator names, and every block a transfer writes continues one representation. Each
operation keeps this, so an attempt may be cut off and taken up again anywhere.
-/
namespace Gunda.Http

open Gunda.Lib Gunda.Lib.DurableFile

section

variable (origin : Origin) (stored : Bool) (least : Nat)

/-- The durable bytes are a front of the representation the validator names, and of
the file that is there. -/
structure Backing (state : HttpResumeState) (file : Option PartialFile) : Prop where
  represented : origin.represents (origin.tagged state.strongEtag)
  total : state.totalBytes = (origin.tagged state.strongEtag).length
  kept : ∀ present ∈ file,
    Retains (some present) ((origin.tagged state.strongEtag).take state.durableBytes)

structure Backed (w : PartialWorld) : Prop where
  rows : ∀ state ∈ w.row, Backing origin state w.file
  unsaved : stored = false → w.row = none

structure Sound (w : PartialWorld) : Prop where
  backed : Backed origin stored w
  rising : Rising least w.reports

/-- The block continues one representation, the validator's where there is one. -/
def Extends (w : PartialWorld) (block : Bytes) : Prop :=
  ∃ bytes, origin.represents bytes ∧ w.content ++ block <+: bytes ∧
    w.position = w.content.length ∧ ∀ state ∈ w.row, bytes = origin.tagged state.strongEtag

/-- What holds before every operation. -/
def required : HttpOp → PartialWorld → Prop
  | .write block, w => Sound origin stored least w ∧ Extends origin w block
  | _, w => Sound origin stored least w

/-- An attempt ends in `P`, or fails where the world is still sound. -/
def Secures {ε α : Type} (p : Attempt ε α) (P : α → PartialWorld → Prop) (w : PartialWorld) :
    Prop :=
  Fallible.Yields (partialSpec origin (required origin stored least)) (Sound origin stored least)
    p P w

end

/-! ## Rules -/

section Rules

variable {origin : Origin} {stored : Bool} {least : Nat} {ε α β : Type} {w : PartialWorld}
  {P : α → PartialWorld → Prop}

theorem Secures.pure {value : α} (h : P value w) :
    Secures origin stored least (pure value : Attempt ε α) P w := h

theorem Secures.fail (error : ε) (sound : Sound origin stored least w) :
    Secures origin stored least (throw error : Attempt ε α) P w := sound

theorem Secures.bind {p : Attempt ε α} {next : α → Attempt ε β} {R : β → PartialWorld → Prop}
    (h : Secures origin stored least p P w)
    (continued : ∀ value t, P value t → Secures origin stored least (next value) R t) :
    Secures origin stored least (p >>= next) R w :=
  Fallible.Yields.bind h continued

theorem Secures.ask {op : HttpOp} {P : op.Answer → PartialWorld → Prop}
    (met : required origin stored least op w)
    (answered : ∀ choice answer t, surroundings op choice w = some (answer, t) →
      origin.Honest op answer → P answer t) :
    Secures origin stored least (HttpOp.perform op : Attempt ε op.Answer) P w := by
  refine ⟨met, fun answer t found => ?_⟩
  obtain ⟨⟨choice, found⟩, honest⟩ := found
  exact answered choice answer t found honest

theorem Secures.adapt {ε' : Type} {rename : ε → ε'} {p : Attempt ε α}
    (h : Secures origin stored least p P w) :
    Secures origin stored least (ExceptT.adapt rename p) P w :=
  Fallible.Yields.adapt h

/-- An answered operation that ends the attempt where it failed. -/
theorem Secures.tried {δ : Type} {failure : δ → ε} {result : Except δ α}
    (done : ∀ value, result = .ok value → P value w)
    (failed : ∀ error, result = .error error → Sound origin stored least w) :
    Secures origin stored least (orFail failure result) P w := by
  cases result with
  | ok value => exact done value rfl
  | error error => exact failed error rfl

theorem Secures.tried_bind {δ : Type} {failure : δ → ε} {result : Except δ β}
    {next : β → Attempt ε α} (sound : Sound origin stored least w)
    (continued : ∀ value, result = .ok value → Secures origin stored least (next value) P w) :
    Secures origin stored least (orFail failure result >>= next) P w := by
  cases result with
  | ok value => exact continued value rfl
  | error error => exact .fail _ sound

end Rules

/-! ## File operations -/

section Files

variable {origin : Origin} {stored : Bool} {least : Nat} {ε : Type} {w u : PartialWorld}
  {P : Unit → PartialWorld → Prop}

section

variable (sound : Sound origin stored least w)
include sound

/-- A change that keeps what a file retains leaves the world sound. -/
theorem Sound.change {change : PartialFile → PartialFile} (position : Nat)
    (keeps : ∀ state ∈ w.row, ∀ file ∈ w.file, Retains (some file)
      ((origin.tagged state.strongEtag).take state.durableBytes) →
      Retains (some (change file)) ((origin.tagged state.strongEtag).take state.durableBytes)) :
    Sound origin stored least { w.modify change with position := position } := by
  refine ⟨⟨fun state found => ?_, sound.backed.unsaved⟩, sound.rising⟩
  have backing := sound.backed.rows state found
  refine ⟨backing.represented, backing.total, fun present there => ?_⟩
  obtain ⟨file, held, changed⟩ := Option.map_eq_some_iff.mp there
  rw [← changed]
  exact keeps state found file held (backing.kept file held)

theorem Sound.damage (rest : Bytes) :
    Sound origin stored least (w.modify (·.damage rest)) :=
  sound.change w.position fun _ _ _ _ kept => kept.damage rest

omit sound in
theorem fileAnswer_cases {choice : HttpChoice} {change : PartialFile → PartialFile}
    {position : Nat} {result : Except IoErrorKind Unit} {t : PartialWorld}
    (h : fileAnswer choice w change position = some (result, t)) :
    (result = .ok () ∧ t = { w.modify change with position := position }) ∨
      ∃ kind rest, result = .error kind ∧ t = w.modify (·.damage rest) := by
  cases choice with
  | proceeds =>
    cases h
    exact .inl ⟨rfl, rfl⟩
  | fails kind rest =>
    cases h
    exact .inr ⟨kind, rest, rfl, rfl⟩
  | _ => cases h

theorem Secures.settle {failure : IoErrorKind → ε} {result : Except IoErrorKind Unit}
    {t : PartialWorld} (came : (result = .ok () ∧ t = u) ∨
      ∃ kind rest, result = .error kind ∧ t = w.modify (·.damage rest))
    (done : P () u) : Secures origin stored least (orFail failure result) P t := by
  cases came with
  | inl ok =>
    obtain ⟨same, after⟩ := ok
    subst same after
    exact done
  | inr failed =>
    obtain ⟨kind, rest, same, after⟩ := failed
    subst same after
    exact sound.damage rest

/-- An operation on the file, and what follows where it succeeds. -/
theorem Secures.settle_bind {α : Type} {failure : IoErrorKind → ε}
    {p : Attempt ε (Except IoErrorKind Unit)} {next : Unit → Attempt ε α}
    {R : α → PartialWorld → Prop}
    (asked : Secures origin stored least p (fun result t => (result = .ok () ∧ t = u) ∨
      ∃ kind rest, result = .error kind ∧ t = w.modify (·.damage rest)) w)
    (continued : Secures origin stored least (next ()) R u) :
    Secures origin stored least (p >>= fun result => orFail failure result >>= next) R w :=
  Secures.bind asked fun _ _ came =>
    Secures.bind (.settle (P := fun _ after => after = u) sound came rfl) fun _ _ same =>
      same ▸ continued

end

theorem askFile_cases {α : Type} {choice : HttpChoice} {answer : PartialFile → α}
    {result : Except IoErrorKind α} {t : PartialWorld}
    (h : askFile choice w answer = some (result, t)) :
    t = w ∧ ∀ value, result = .ok value → ∃ file, w.file = some file ∧ value = answer file := by
  cases choice with
  | proceeds =>
    unfold askFile at h
    cases present : w.file with
    | none =>
      rw [present] at h
      cases h
      exact ⟨rfl, by rintro _ ⟨⟩⟩
    | some file =>
      rw [present] at h
      cases h
      refine ⟨rfl, fun value same => ?_⟩
      cases same
      exact ⟨file, rfl, rfl⟩
  | fails kind rest =>
    cases h
    exact ⟨rfl, by rintro _ ⟨⟩⟩
  | _ => cases h

theorem rowAnswer_cases {α : Type} {choice : HttpChoice}
    {result : Except Core.RepositoryErrorKind (α × Option HttpResumeState)}
    {answer : Except Core.RepositoryErrorKind α} {t : PartialWorld}
    (h : rowAnswer choice w result = some (answer, t)) :
    (∃ value row, result = .ok (value, row) ∧ answer = .ok value ∧ t = { w with row := row }) ∨
      (∃ kind, answer = .error kind ∧
        (t = w ∨ ∃ value row, result = .ok (value, row) ∧ t = { w with row := row })) := by
  cases choice with
  | proceeds =>
    cases result with
    | ok pair =>
      cases h
      exact .inl ⟨_, _, rfl, rfl, rfl⟩
    | error kind =>
      cases h
      exact .inr ⟨kind, rfl, Or.inl rfl⟩
  | rejects kind changed =>
    cases changed with
    | true =>
      cases result with
      | ok pair =>
        cases h
        exact .inr ⟨kind, rfl, Or.inr ⟨_, _, rfl, rfl⟩⟩
      | error kind => cases h
    | false =>
      have left : some ((.error kind : Except Core.RepositoryErrorKind α), w) = some (answer, t) := by
        cases result <;> exact h
      cases left
      exact .inr ⟨kind, rfl, Or.inl rfl⟩
  | _ => cases h

end Files

/-! ## A body being written -/

/-- The file holds the first bytes of one representation, and the handle is at its end. -/
structure Holding (origin : Origin) (stored : Bool) (least : Nat) (bytes : Bytes)
    (cursor : PartialCursor) (w : PartialWorld) : Prop where
  sound : Sound origin stored least w
  represented : origin.represents bytes
  holds : ∃ file, w.file = some file ∧ file.content = bytes.take cursor.writtenBytes
  within : cursor.writtenBytes ≤ bytes.length
  position : w.position = cursor.writtenBytes
  row : w.row = cursor.resumeState
  validator : ∀ state ∈ w.row, bytes = origin.tagged state.strongEtag
  reported : latest least w.reports ≤ cursor.writtenBytes

/-- All of the file is synchronized, and the row says so where there is one. -/
structure Durable (count : Nat) (w : PartialWorld) : Prop where
  synced : ∃ file, w.file = some file ∧ file.stable = file.content.length ∧ file.stable = count
  saved : ∀ state ∈ w.row, state.durableBytes = count

section Holding

variable {origin : Origin} {stored : Bool} {least : Nat} {bytes : Bytes} {cursor : PartialCursor}
  {w : PartialWorld}

section

variable (h : Holding origin stored least bytes cursor w)
include h

theorem Holding.content :
    w.content = bytes.take cursor.writtenBytes := by
  obtain ⟨file, present, held⟩ := h.holds
  unfold PartialWorld.content
  rw [present]
  exact held

theorem Holding.length :
    w.content.length = cursor.writtenBytes := by
  rw [h.content, List.length_take]
  exact Nat.min_eq_left h.within

/-- Nothing but the file changes, and of that not the content. -/
theorem Holding.change
    {change : PartialFile → PartialFile} (content : ∀ file, (change file).content = file.content)
    (keeps : ∀ file front, Retains (some file) front → Retains (some (change file)) front) :
    Holding origin stored least bytes cursor { w.modify change with position := w.position } := by
  obtain ⟨file, present, held⟩ := h.holds
  refine ⟨h.sound.change _ fun _ _ file _ kept => keeps file _ kept, h.represented,
    ⟨change file, ?_, (content file).trans held⟩, h.within, h.position, h.row, h.validator,
    h.reported⟩
  exact congrArg (Option.map change) present

theorem flush_secures {ε α : Type} {failure : IoErrorKind → ε} {next : Unit → Attempt ε α}
    {P : α → PartialWorld → Prop}
    (continued : ∀ t, Holding origin stored least bytes cursor t → t.reports = w.reports →
      t.row = w.row → Secures origin stored least (next ()) P t) :
    Secures origin stored least
      (HttpOp.perform .flush >>= fun answer => orFail failure answer >>= next) P w := by
  have unchanged : ∀ file : PartialFile, (id file).content = file.content := fun _ => rfl
  have flushed := h.change unchanged fun _ _ kept => kept
  exact .settle_bind h.sound (.ask h.sound fun _ _ _ found _ =>
    fileAnswer_cases found) (continued _ flushed rfl rfl)

theorem sync_secures {ε α : Type} {failure : IoErrorKind → ε} {next : Unit → Attempt ε α}
    {P : α → PartialWorld → Prop}
    (continued : ∀ t, Holding origin stored least bytes cursor t → t.reports = w.reports →
      t.row = w.row → (∃ file, t.file = some file ∧ file.stable = file.content.length ∧
        file.stable = cursor.writtenBytes) → Secures origin stored least (next ()) P t) :
    Secures origin stored least
      (HttpOp.perform .syncAll >>= fun answer => orFail failure answer >>= next) P w := by
  have unchanged : ∀ file : PartialFile, file.sync.content = file.content := fun _ => rfl
  have synced := h.change unchanged fun _ _ kept => kept.sync
  obtain ⟨file, present, held⟩ := h.holds
  have counted : file.content.length = cursor.writtenBytes := by
    rw [held, List.length_take]
    exact Nat.min_eq_left h.within
  refine .settle_bind h.sound (.ask h.sound fun _ _ _ found _ =>
    fileAnswer_cases found) (continued _ synced rfl rfl ⟨file.sync, ?_, rfl, counted⟩)
  exact congrArg (Option.map _) present

/-- The row follows a file that is synchronized. -/
theorem Holding.save (synced : ∃ file, w.file = some file ∧ file.stable = file.content.length ∧
      file.stable = cursor.writtenBytes)
    {candidate saved : HttpResumeState} (counted : candidate.durableBytes = cursor.writtenBytes)
    (accepted : saveCheckpoint w.row candidate = .ok saved) :
    Holding origin stored least bytes { cursor with resumeState := some saved }
      { w with row := some saved } := by
  obtain ⟨same, before, found, tag, total, -⟩ := saveCheckpoint_ok accepted
  subst same
  have validator : bytes = origin.tagged saved.strongEtag := by
    rw [← tag]
    exact h.validator before found
  have backing := h.sound.backed.rows before found
  obtain ⟨file, present, held⟩ := h.holds
  refine ⟨⟨⟨?_, ?_⟩, h.sound.rising⟩, h.represented, ⟨file, present, held⟩, h.within, h.position,
    rfl, ?_, h.reported⟩
  · intro state there
    cases there
    refine ⟨validator ▸ h.represented, ?_, ?_⟩
    · rw [← total, ← tag]
      exact backing.total
    · intro other there
      obtain ⟨stable, synchronized, counted'⟩ := synced
      have only : other = stable := Option.some.inj (there.symm.trans synchronized)
      have only' : other = file := Option.some.inj (there.symm.trans present)
      subst only'
      subst only
      refine .some ?_ ?_
      · rw [List.length_take, counted]
        omega
      · have front : (origin.tagged saved.strongEtag).take saved.durableBytes = other.content := by
          rw [held, counted, ← validator]
        exact ⟨[], (List.append_nil _).trans front⟩
  · intro off
    have unsaved := h.sound.backed.unsaved off
    rw [unsaved] at found
    cases found
  · intro state there
    cases there
    exact validator

theorem syncCheckpoint_secures :
    Secures origin stored least (syncCheckpoint cursor.resumeState cursor.writtenBytes)
      (fun resumeState t =>
        Holding origin stored least bytes { cursor with resumeState := resumeState } t ∧
          Durable cursor.writtenBytes t ∧ t.reports = w.reports) w := by
  refine flush_secures h fun u flushed reports row => ?_
  refine sync_secures flushed fun v held reports' row' synced => ?_
  have saved_row : v.row = cursor.resumeState := held.row
  cases current : cursor.resumeState with
  | none =>
    refine .pure ⟨?_, ⟨synced, ?_⟩, reports'.trans reports⟩
    · rw [← current]
      exact held
    · intro state found
      rw [saved_row, current] at found
      cases found
  | some state =>
    dsimp only
    split
    · rename_i counted
      refine .pure ⟨?_, ⟨synced, ?_⟩, reports'.trans reports⟩
      · rw [← current]
        exact held
      · intro other found
        rw [saved_row, current] at found
        cases found
        exact counted.symm
    · split
      · exact .fail _ held.sound
      · rename_i candidate created
        obtain ⟨-, -, counted⟩ := HttpResumeState.new_eq_some created
        refine .bind (.ask held.sound fun _ _ _ found _ => rowAnswer_cases found)
          fun answer t came => ?_
        have after : ∀ value row, (saveCheckpoint v.row candidate).map (fun saved => (saved, some saved))
            = .ok (value, row) → row = some value ∧
            Holding origin stored least bytes { cursor with resumeState := some value }
              { v with row := some value } := by
          intro value row mapped
          cases accepted : saveCheckpoint v.row candidate with
          | error kind =>
            rw [accepted] at mapped
            cases mapped
          | ok saved =>
            rw [accepted] at mapped
            cases mapped
            exact ⟨rfl, held.save synced counted accepted⟩
        cases came with
        | inl ok =>
          obtain ⟨value, row, mapped, answered, landed⟩ := ok
          obtain ⟨same, holding⟩ := after value row mapped
          subst same answered landed
          refine .bind (.pure (P := fun saved t => saved = value ∧
            t = { v with row := some value }) ⟨rfl, rfl⟩) fun saved t same => ?_
          obtain ⟨same, landed⟩ := same
          subst same landed
          split
          · exact .fail _ holding.sound
          · rename_i kept
            refine .pure ⟨holding, ⟨synced, ?_⟩, reports'.trans reports⟩
            intro other found
            cases found
            rw [not_not.mp kept]
            exact counted
        | inr failed =>
          obtain ⟨kind, answered, landed⟩ := failed
          subst answered
          cases landed with
          | inl unchanged =>
            subst unchanged
            exact held.sound
          | inr moved =>
            obtain ⟨value, row, mapped, landed⟩ := moved
            obtain ⟨same, holding⟩ := after value row mapped
            subst same landed
            exact holding.sound

end

end Holding

/-! ## The blocks of a body -/

/-- The blocks to come continue the first `written` bytes, and a body that ends well
completes them. -/
structure Arriving (bytes : Bytes) (written : Nat) (blocks : List Bytes)
    (ending : Except HttpError Unit) : Prop where
  leads : bytes.take written ++ blocks.flatten <+: bytes
  whole : ending = .ok () → bytes.take written ++ blocks.flatten = bytes

section Blocks

variable {origin : Origin} {stored : Bool} {least : Nat} {bytes : Bytes} {cursor : PartialCursor}
  {w : PartialWorld} {block : Bytes} {blocks : List Bytes} {ending : Except HttpError Unit}

theorem take_of_leads {written : Nat} (within : written ≤ bytes.length)
    (leads : bytes.take written ++ block <+: bytes) :
    written + block.length ≤ bytes.length ∧
      bytes.take (written + block.length) = bytes.take written ++ block := by
  have counted : (bytes.take written ++ block).length = written + block.length := by
    rw [List.length_append, List.length_take, Nat.min_eq_left within]
  refine ⟨counted ▸ leads.length_le, ?_⟩
  have front := List.prefix_iff_eq_take.mp leads
  rw [counted] at front
  exact front.symm

theorem Arriving.first {written : Nat} (arriving : Arriving bytes written (block :: blocks) ending) :
    bytes.take written ++ block <+: bytes := by
  have leads := arriving.leads
  rw [List.flatten_cons, ← List.append_assoc] at leads
  exact (List.prefix_append _ _).trans leads

theorem Arriving.next {written : Nat} (within : written ≤ bytes.length)
    (arriving : Arriving bytes written (block :: blocks) ending) :
    Arriving bytes (written + block.length) blocks ending := by
  obtain ⟨-, front⟩ := take_of_leads within arriving.first
  refine ⟨?_, fun ended => ?_⟩
  · rw [front, List.append_assoc, ← List.flatten_cons]
    exact arriving.leads
  · rw [front, List.append_assoc, ← List.flatten_cons]
    exact arriving.whole ended

section

variable (h : Holding origin stored least bytes cursor w)
include h

theorem Holding.extends
    (continues : bytes.take cursor.writtenBytes ++ block <+: bytes) : Extends origin w block := by
  refine ⟨bytes, h.represented, ?_, ?_, h.validator⟩
  · rw [h.content]
    exact continues
  · rw [h.position, h.length]

/-- The block is in the file. -/
theorem Holding.written (continues : bytes.take cursor.writtenBytes ++ block <+: bytes) :
    Holding origin stored least bytes
      { cursor with writtenBytes := cursor.writtenBytes + block.length }
      { w.modify (·.writeAt 0 w.position block) with position := w.position + block.length } := by
  obtain ⟨file, present, held⟩ := h.holds
  obtain ⟨within, front⟩ := take_of_leads h.within continues
  have counted : file.content.length = w.position := by
    have length := h.length
    unfold PartialWorld.content at length
    rw [present] at length
    rw [h.position]
    exact length
  have appended : file.writeAt 0 w.position block = file.append block := by
    rw [← counted]
    exact file.writeAt_end 0 block
  refine ⟨h.sound.change _ fun state found other there kept => ?_, h.represented,
    ⟨file.append block, ?_, ?_⟩, within, ?_, h.row, h.validator, ?_⟩
  · cases present.symm.trans there
    rw [appended]
    exact kept.append block
  · change w.file.map _ = _
    rw [present, Option.map_some, appended]
  · change file.content ++ block = _
    rw [held, front]
  · change w.position + block.length = _
    rw [h.position]
  · exact Nat.le_trans h.reported (Nat.le_add_right _ _)

theorem Holding.report :
    Holding origin stored least bytes cursor
      { w with reports := cursor.writtenBytes :: w.reports } :=
  ⟨⟨⟨h.sound.backed.rows, h.sound.backed.unsaved⟩, h.sound.rising.report h.reported⟩,
    h.represented, h.holds, h.within, h.position, h.row, h.validator, Nat.le_refl _⟩

theorem report_secures :
    Secures origin stored least
      (HttpOp.perform (.report cursor.writtenBytes) : Attempt PartialDownloadError Unit)
      (fun _ t => Holding origin stored least bytes cursor t) w := by
  refine .ask h.sound fun choice answer t found _ => ?_
  cases choice with
  | proceeds =>
    cases found
    exact h.report
  | _ => cases found

omit h in
/-- A question that changes nothing. -/
theorem answered_cases {op : HttpOp} {choice : HttpChoice} {answer : op.Answer} {t : PartialWorld}
    (asked : op = .isRequested ∨ op = .stopped ∨ op = .checkpointElapsed)
    (found : surroundings op choice w = some (answer, t)) : t = w := by
  rcases asked with same | same | same
  all_goals
    subst same
    cases choice with
    | answers yes =>
      cases found
      rfl
    | _ => cases found

omit h in
theorem checkpointDue_secures (sound : Sound origin stored least w) :
    Secures origin stored least (checkpointDue cursor) (fun _ t => t = w) w := by
  unfold checkpointDue
  split
  · exact .pure rfl
  · split
    · exact .pure rfl
    · exact .ask sound fun _ _ _ found _ =>
        answered_cases (.inr (.inr rfl)) found

theorem writeBlock_secures (continues : bytes.take cursor.writtenBytes ++ block <+: bytes) :
    Secures origin stored least (writeBlock block cursor) (fun next t =>
      next.writtenBytes = cursor.writtenBytes + block.length ∧
        Holding origin stored least bytes next t) w := by
  unfold writeBlock
  split
  · exact .fail _ h.sound
  · refine .settle_bind h.sound (.ask ⟨h.sound, h.extends continues⟩
      fun _ _ _ found _ => fileAnswer_cases found) ?_
    refine flush_secures (h.written continues) fun u flushed _ _ => ?_
    refine .bind (report_secures flushed) fun _ v reported => ?_
    refine .bind (checkpointDue_secures reported.sound) fun due t same => ?_
    subst same
    split
    · have checkpointed := syncCheckpoint_secures reported
      refine .bind checkpointed fun resumeState t synced => ?_
      refine .pure ⟨rfl, ?_⟩
      obtain ⟨held, -, -⟩ := synced
      exact ⟨held.sound, held.represented, held.holds, held.within, held.position, held.row,
        held.validator, held.reported⟩
    · exact .pure ⟨rfl, reported⟩

end

end Blocks

/-! ## How a transfer ends -/

/-- One complete representation is in the file, all of it synchronized. -/
structure Finished (origin : Origin) (stored : Bool) (least : Nat) (bytes : Bytes)
    (download : PartialDownload) (w : PartialWorld) : Prop where
  sound : Sound origin stored least w
  represented : origin.represents bytes
  content : w.content = bytes
  written : download.writtenBytes = bytes.length
  durable : Durable bytes.length w
  validator : ∀ state ∈ w.row, bytes = origin.tagged state.strongEtag
  reported : latest least w.reports ≤ bytes.length

/-- The count is what is durable: nothing but the start, or the whole file. -/
structure Stopped (origin : Origin) (stored : Bool) (least count : Nat) (w : PartialWorld) :
    Prop where
  sound : Sound origin stored least w
  saved : ∀ state ∈ w.row, state.durableBytes = count
  synced : count = least ∨ ∃ file, w.file = some file ∧ file.stable = count
  reported : latest least w.reports ≤ count

def Ended (origin : Origin) (stored : Bool) (least : Nat) (bytes : Bytes) :
    PartialOutcome → PartialWorld → Prop
  | .finished download, w => Finished origin stored least bytes download w
  | .stopped count, w => Stopped origin stored least count w

section Ended

variable {origin : Origin} {stored : Bool} {least : Nat} {bytes : Bytes} {cursor : PartialCursor}
  {w : PartialWorld} {blocks : List Bytes} {ending : Except HttpError Unit}

section

variable (h : Holding origin stored least bytes cursor w)
include h

theorem stopPartial_secures :
    Secures origin stored least (stopPartial cursor) (Ended origin stored least bytes) w := by
  refine .bind (syncCheckpoint_secures h) fun resumeState t reached => ?_
  obtain ⟨held, durable, reports⟩ := reached
  obtain ⟨file, present, -, counted⟩ := durable.synced
  exact .pure ⟨held.sound, durable.saved, Or.inr ⟨file, present, counted⟩, held.reported⟩

omit h in
theorem removePartial_cases {choice : HttpChoice} {answer : Except IoErrorKind Unit}
    {t : PartialWorld} (found : surroundings .removePartial choice w = some (answer, t)) :
    (t = w ∧ ∃ kind, answer = .error kind) ∨ t = { w with file := none } := by
  cases choice with
  | proceeds =>
    unfold surroundings at found
    dsimp only at found
    split at found
    · cases found
      exact .inr rfl
    · cases found
      exact .inl ⟨rfl, _, rfl⟩
  | fails kind rest =>
    cases found
    exact .inl ⟨rfl, _, rfl⟩
  | _ => cases found

omit h in
/-- Without its file a row claims nothing of it. -/
theorem Sound.removed (sound : Sound origin stored least w) :
    Sound origin stored least { w with file := none } := by
  refine ⟨⟨fun state found => ?_, sound.backed.unsaved⟩, sound.rising⟩
  have backing := sound.backed.rows state found
  exact ⟨backing.represented, backing.total, by rintro _ ⟨⟩⟩

omit h in
theorem discardOwnedPartial_secures (sound : Sound origin stored least w) :
    Secures origin stored least discardOwnedPartial (fun _ t => Sound origin stored least t) w := by
  unfold discardOwnedPartial
  refine .bind (.ask sound fun _ _ _ found _ => askFile_cases found)
    fun answer t came => ?_
  obtain ⟨same, -⟩ := came
  subst same
  refine .tried_bind sound fun owned _ => ?_
  split
  · exact .fail _ sound
  · refine .bind (.ask sound fun _ _ _ found _ => removePartial_cases found)
      fun answer t came => ?_
    cases came with
    | inl kept =>
      obtain ⟨same, kind, failed⟩ := kept
      subst same failed
      exact sound
    | inr gone =>
      subst gone
      exact .tried (fun _ _ => sound.removed) fun _ _ => sound.removed

theorem failPartial_secures (error : HttpError) :
    Secures origin stored least (failPartial error cursor) (Ended origin stored least bytes) w := by
  unfold failPartial
  split
  · exact .bind (discardOwnedPartial_secures h.sound) fun _ t sound => .fail _ sound
  · exact .bind (syncCheckpoint_secures h) fun _ t reached => .fail _ reached.1.sound

theorem finishPartial_secures
    (metadata : HttpInspection) (whole : bytes.take cursor.writtenBytes = bytes) :
    Secures origin stored least (finishPartial metadata cursor) (Ended origin stored least bytes)
      w := by
  have counted : cursor.writtenBytes = bytes.length := by
    have length := congrArg List.length whole
    have within := h.within
    rw [List.length_take] at length
    omega
  refine .bind (syncCheckpoint_secures h) fun resumeState t reached => ?_
  obtain ⟨held, durable, -⟩ := reached
  obtain ⟨file, present, -, synced⟩ := durable.synced
  refine .bind (.ask held.sound fun _ _ _ found _ =>
    answered_cases (.inl rfl) found) fun requested u same => ?_
  subst same
  split
  · exact .pure ⟨held.sound, durable.saved, Or.inr ⟨file, present, synced⟩, held.reported⟩
  · refine .pure ⟨held.sound, held.represented, ?_, counted, counted ▸ durable,
      held.validator, counted ▸ held.reported⟩
    rw [held.content]
    exact whole

end

theorem streamToPartial_secures (metadata : HttpInspection)
    (h : Holding origin stored least bytes cursor w)
    (arriving : Arriving bytes cursor.writtenBytes blocks ending) :
    Secures origin stored least (streamToPartial metadata ending blocks cursor)
      (Ended origin stored least bytes) w := by
  induction blocks generalizing cursor w with
  | nil =>
    refine .bind (.ask h.sound fun _ _ _ found _ =>
      answered_cases (.inr (.inl rfl)) found) fun stopped t same => ?_
    subst same
    split
    · exact stopPartial_secures h
    · cases ending with
      | error error => exact failPartial_secures h error
      | ok _ =>
        refine finishPartial_secures h metadata ?_
        have whole := arriving.whole rfl
        rwa [List.flatten_nil, List.append_nil] at whole
  | cons block blocks ih =>
    refine .bind (.ask h.sound fun _ _ _ found _ =>
      answered_cases (.inr (.inl rfl)) found) fun stopped t same => ?_
    subst same
    split
    · exact stopPartial_secures h
    · refine .bind (writeBlock_secures h arriving.first) fun next t written => ?_
      obtain ⟨counted, held⟩ := written
      refine ih held ?_
      rw [counted]
      exact arriving.next h.within

end Ended

end Gunda.Http

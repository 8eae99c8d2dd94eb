import Gunda.Http.Representations
import Gunda.Lib.Result

/-!
# Preparing and making an attempt

What preparation accepts of the origin and of the saved progress, and that a transfer
from there writes on with the representation whose front is in the file.
-/
namespace Gunda.Http

open Gunda.Lib Gunda.Lib.DurableFile
open Gunda.Core (Url RequestContext)

variable {metadata : HttpInspection} {response : Response} {start : Nat}

/-! ## Headers -/

theorem getAll_insert (headers : HeaderMap) (name value : Text) :
    (headers.insert name value).getAll name = [value] := by
  simp [HeaderMap.insert, HeaderMap.getAll, List.filter_append, List.filter_filter]

variable {headers : HeaderMap}

/-- The validator travels with every hop of a range request. -/
theorem ifRange_transported {value : Text} (holds : headers.getAll "if-range".toList = [value]) :
    (transportHeaders headers).getAll "if-range".toList = [value] := by
  unfold transportHeaders
  simp only [List.filterMap_cons, List.filterMap_nil, holds]
  cases (headers.getAll "accept-encoding".toList).head? with
  | none => cases (headers.getAll "range".toList).head? <;> simp [HeaderMap.getAll]
  | some encoding => cases (headers.getAll "range".toList).head? <;> simp [HeaderMap.getAll]

theorem inspectHeaders_strongEtag (h : inspectHeaders headers = .ok metadata) :
    metadata.strongEtag = responseStrongEtag headers := by
  unfold inspectHeaders at h
  obtain ⟨encoding, -, h⟩ := bind_ok h
  obtain ⟨-, h⟩ := guard_ok h
  obtain ⟨text, -, h⟩ := bind_ok h
  obtain ⟨length, -, h⟩ := bind_ok h
  obtain ⟨contentType, -, h⟩ := bind_ok h
  cases h
  rfl

theorem inspectResponse_ok (h : inspectResponse response = .ok metadata) :
    response.status = 200 ∧ inspectHeaders response.headers = .ok metadata := by
  unfold inspectResponse at h
  obtain ⟨status, h⟩ := throw_unless_ok h
  obtain ⟨-, h⟩ := throw_unless_ok h
  exact ⟨not_not.mp status, h⟩

variable {validator : StrongEntityTag} {total : Nat}

/-- What an accepted range answer says. -/
theorem inspectRange_ok (h : inspectRange start total validator response = .ok metadata) :
    response.status = 206 ∧ ∃ range, contentRange response.headers = .ok range ∧
      range.start = start ∧ range.total = total ∧ range.last = total - 1 ∧
      metadata.contentLength = some range.bodyLength ∧
      (response.headers.getAll "etag".toList = [] ∨
        responseStrongEtag response.headers = some validator) := by
  unfold inspectRange at h
  obtain ⟨status, h⟩ := guard_ok h
  obtain ⟨range, named, h⟩ := bind_ok h
  obtain ⟨interval, h⟩ := guard_ok h
  obtain ⟨inspected, read, h⟩ := bind_ok h
  obtain ⟨-, h⟩ := guard_ok h
  obtain ⟨-, h⟩ := guard_ok h
  obtain ⟨tagged, h⟩ := guard_ok h
  cases h
  refine ⟨not_not.mp status, range, named, ?_, ?_, ?_, rfl, ?_⟩
  · omega
  · omega
  · omega
  · rw [← inspectHeaders_strongEtag read]
    by_cases unnamed : response.headers.getAll "etag".toList = []
    · exact .inl unnamed
    · exact .inr (not_not.mp fun other => tagged ⟨unnamed, other⟩)

/-! ## Bodies -/

theorem Response.Carries.leads {bytes : Bytes} (carries : response.Carries bytes) :
    response.chunks.flatten <+: bytes := by
  obtain ⟨rest, whole, -⟩ := carries
  exact ⟨rest, whole.symm⟩

/-- A body that carries what follows the first bytes arrives behind them. -/
theorem arriving_of_carries {bytes : Bytes} (carries : response.Carries (bytes.drop start))
    (metadata : HttpInspection) :
    Arriving bytes start (deliver metadata response.failure 0 response.chunks).1
      (deliver metadata response.failure 0 response.chunks).2 := by
  constructor
  · obtain ⟨rest, joined⟩ := deliver_leads.trans carries.leads
    refine ⟨rest, ?_⟩
    rw [List.append_assoc, joined, List.take_append_drop]
  · intro ended
    obtain ⟨rest, whole, complete⟩ := carries
    obtain ⟨sent, unfailed, -⟩ := deliver_whole ended
    rw [complete unfailed, List.append_nil] at whole
    rw [sent, ← whole, List.take_append_drop]

/-- A body that will write one representation into the file from the start. -/
structure Opened (origin : Origin) (bytes : Bytes) (body : HttpBody) : Prop where
  represented : origin.represents bytes
  arriving : Arriving bytes 0 body.incoming.blocks body.incoming.ending
  validator : ∀ tag ∈ body.metadata.strongEtag, bytes = origin.tagged tag
  length : ∀ length ∈ body.metadata.contentLength, length = bytes.length

theorem opened_of_serves {origin : Origin} (serves : origin.ServesFull response)
    (inspected : inspectHeaders response.headers = .ok metadata) :
    ∃ bytes, Opened origin bytes (.new response metadata) := by
  obtain ⟨bytes, names, carries, announced⟩ := serves
  refine ⟨bytes, names.1, ?_, fun tag found => ?_, announced metadata inspected⟩
  · have whole : response.Carries (bytes.drop 0) := carries
    exact arriving_of_carries whole metadata
  · refine names.2 tag ?_
    rw [← inspectHeaders_strongEtag inspected]
    exact found

/-- An accepted range answer carries the rest of the representation under the validator. -/
theorem arriving_of_range {origin : Origin} {request : Exchange}
    (serves : origin.ServesRange request response)
    (conditional : request.headers.getAll "if-range".toList = [validator.value])
    (inspected : inspectRange start total validator response = .ok metadata)
    (inside : start < total) :
    Arriving (origin.tagged validator) start
      (deliver metadata response.failure 0 response.chunks).1
      (deliver metadata response.failure 0 response.chunks).2 := by
  obtain ⟨-, range, named, first, size, last, -, tagged⟩ := inspectRange_ok inspected
  obtain ⟨bytes, names, counted, carries, matched⟩ := serves range named
  have same : bytes = origin.tagged validator := by
    cases tagged with
    | inl unnamed => exact matched unnamed validator conditional
    | inr strong => exact names.2 validator strong
  have rest : (bytes.drop range.start).take range.bodyLength = bytes.drop start := by
    rw [first]
    refine List.take_of_length_le ?_
    unfold ContentRange.bodyLength
    rw [List.length_drop]
    omega
  rw [rest] at carries
  rw [← same]
  exact arriving_of_carries carries metadata

/-! ## Requests -/

section Requests

variable {origin : Origin} {stored : Bool} {least : Nat} {w : PartialWorld} {urls : UrlLibrary}

theorem result_secures {ε α : Type} {result : Except ε α} {P : α → PartialWorld → Prop}
    (sound : Sound origin stored least w) (done : ∀ value, result = .ok value → P value w) :
    Secures origin stored least (ExceptT.mk (Pure.pure result) : Attempt ε α) P w := by
  cases result with
  | ok value => exact done value rfl
  | error error => exact sound

theorem exchange_secures (request : Exchange) (sound : Sound origin stored least w) :
    Secures origin stored least (ExceptT.mk (exchange request) : Attempt HttpError Response)
      (fun response t => t = w ∧ origin.Honest (.exchange request) (.ok response)) w := by
  refine ⟨sound, fun answer t found => ?_⟩
  obtain ⟨⟨choice, found⟩, honest⟩ := found
  cases choice with
  | sends response =>
    cases found
    exact ⟨rfl, honest⟩
  | refuses error =>
    cases found
    exact sound
  | _ => cases found

/-- Whatever hop answers in the end was asked with headers in `Q`. -/
theorem followRedirects_secures {Q : HeaderMap → Prop}
    (carried : ∀ headers, Q headers → Q (transportHeaders headers)) (method : Method) (hops : Nat)
    (url : Url) (holds : Q headers) (sound : Sound origin stored least w) :
    Secures origin stored least (followRedirects urls exchange method hops url headers)
      (fun response t => t = w ∧ ∃ sent : Exchange, Q sent.headers ∧
        origin.Honest (.exchange sent) (.ok response)) w := by
  induction hops generalizing url headers with
  | zero =>
    refine .bind (exchange_secures _ sound) fun response t answered => ?_
    obtain ⟨same, honest⟩ := answered
    subst same
    split
    · exact .pure ⟨rfl, _, holds, honest⟩
    · exact .fail _ sound
  | succ hops ih =>
    refine .bind (exchange_secures _ sound) fun response t answered => ?_
    obtain ⟨same, honest⟩ := answered
    subst same
    split
    · exact .pure ⟨rfl, _, holds, honest⟩
    · refine .bind (result_secures (P := fun _ u => u = t) sound fun _ _ => rfl)
        fun next u same => ?_
      subst same
      refine ih next ?_
      split
      · exact holds
      · exact carried headers holds

theorem openBody_secures (request : RequestContext) (sound : Sound origin stored least w) :
    Secures origin stored least (openBody urls exchange request)
      (fun opened t => t = w ∧ ∃ bytes, Opened origin bytes (.new opened.1 opened.2)) w := by
  unfold openBody
  refine .bind (result_secures (P := fun _ t => t = w) sound fun _ _ => rfl)
    fun _ t same => ?_
  subst same
  refine .bind (result_secures (P := fun _ u => u = t) sound fun _ _ => rfl)
    fun headers u same => ?_
  subst same
  refine .bind (followRedirects_secures (Q := fun _ => True) (fun _ _ => trivial) _ _ _
    trivial sound) fun response t answered => ?_
  obtain ⟨same, sent, -, honest⟩ := answered
  subst same
  refine .bind (result_secures (P := fun metadata u => u = t ∧
    inspectResponse response = .ok metadata) sound fun _ inspected => ⟨rfl, inspected⟩)
    fun metadata u inspected => ?_
  obtain ⟨same, inspected⟩ := inspected
  subst same
  obtain ⟨status, read⟩ := inspectResponse_ok inspected
  exact .pure ⟨rfl, opened_of_serves (honest.1 status) read⟩

theorem openRange_secures (request : RequestContext) {start : Nat}
    (sound : Sound origin stored least w) :
    Secures origin stored least (openRange urls exchange request start total validator)
      (fun opened t => t = w ∧ Arriving (origin.tagged validator) start
        (HttpBody.new opened.1 opened.2).incoming.blocks
        (HttpBody.new opened.1 opened.2).incoming.ending) w := by
  unfold openRange
  refine .bind (result_secures (P := fun _ t => t = w) sound fun _ _ => rfl)
    fun _ t same => ?_
  subst same
  split
  · exact .fail _ sound
  · rename_i inside
    refine .bind (result_secures (P := fun _ u => u = t) sound fun _ _ => rfl)
      fun headers u same => ?_
    subst same
    have conditional : (rangeHeaders headers start validator).getAll "if-range".toList =
        [validator.value] := getAll_insert _ _ _
    refine .bind (followRedirects_secures
      (Q := fun headers => headers.getAll "if-range".toList = [validator.value])
      (fun _ => ifRange_transported) _ _ _ conditional sound) fun response t answered => ?_
    obtain ⟨same, sent, held, honest⟩ := answered
    subst same
    refine .bind (result_secures (P := fun metadata u => u = t ∧
      inspectRange start total validator response = .ok metadata) sound
      fun _ inspected => ⟨rfl, inspected⟩) fun metadata u inspected => ?_
    obtain ⟨same, inspected⟩ := inspected
    subst same
    have status := (inspectRange_ok inspected).1
    refine .pure ⟨rfl, ?_⟩
    exact arriving_of_range (honest.2 status) held inspected (by omega)

end Requests

/-! ## The saved progress -/

/-- Nothing but the handle's position differs. -/
structure Unmoved (w t : PartialWorld) : Prop where
  file : t.file = w.file
  row : t.row = w.row
  reports : t.reports = w.reports

theorem Unmoved.refl (w : PartialWorld) : Unmoved w w := ⟨rfl, rfl, rfl⟩

/-- The partial file is there and long enough. -/
def Covers (durableBytes : Nat) (w : PartialWorld) : Prop :=
  ∃ file, w.file = some file ∧ durableBytes ≤ file.content.length

section Preparing

variable {origin : Origin} {stored : Bool} {least : Nat} {w : PartialWorld} {urls : UrlLibrary}
variable {t : PartialWorld} {choice : HttpChoice}

theorem Sound.unmoved (sound : Sound origin stored least w) (unmoved : Unmoved w t) :
    Sound origin stored least t := by
  obtain ⟨backed, rising⟩ := sound
  refine ⟨⟨fun state found => ?_, fun off => ?_⟩, unmoved.reports ▸ rising⟩
  · rw [unmoved.row] at found
    rw [unmoved.file]
    exact backed.rows state found
  · rw [unmoved.row]
    exact backed.unsaved off

theorem inspectOutput_secures (plannedOutput : Option String) (sound : Sound origin stored least w) :
    Secures origin stored least (inspectOutput plannedOutput) (fun _ t => t = w) w := by
  unfold inspectOutput
  split
  · exact .pure rfl
  · refine .bind (.ask (P := fun _ t => t = w) sound fun choice _ _ found _ => ?_)
      fun output t same => ?_
    · cases choice with
      | sees output =>
        cases found
        rfl
      | _ => cases found
    · subst same
      split
      · exact .pure rfl
      · exact .fail _ sound
      · exact .fail _ sound

theorem inspectPartial_cases {answer : LocalFileState}
    (found : surroundings .inspectPartial choice w = some (answer, t)) : t = w := by
  obtain ⟨state, -, same⟩ := Option.map_eq_some_iff.mp found
  cases same
  rfl

theorem openExisting_cases {answer : Except IoErrorKind Unit}
    (found : surroundings .openExisting choice w = some (answer, t)) :
    Unmoved w t := by
  obtain ⟨⟨result, u⟩, asked, same⟩ := Option.map_eq_some_iff.mp found
  obtain ⟨stays, -⟩ := askFile_cases asked
  cases same
  subst stays
  exact ⟨rfl, rfl, rfl⟩

theorem openPartial_secures (sound : Sound origin stored least w) :
    Secures origin stored least openPartial (fun _ t => Unmoved w t) w := by
  unfold openPartial
  refine .bind (.ask sound fun _ _ _ found _ => openExisting_cases found)
    fun answer t unmoved => ?_
  have sound' := sound.unmoved unmoved
  split
  · exact .pure unmoved
  · refine .bind (.ask sound' fun _ _ _ found _ => inspectPartial_cases found)
      fun state u same => ?_
    subst same
    split <;> exact .fail _ sound'

theorem expectPartial_secures (durableBytes : Nat) (state : LocalFileState)
    (sound : Sound origin stored least w) :
    Secures origin stored least (expectPartial durableBytes state) (fun _ t => t = w) w := by
  unfold expectPartial
  split
  · split
    · exact .fail _ sound
    · exact .pure rfl
  · exact .fail _ sound
  · exact .fail _ sound
  · exact .fail _ sound
  · exact .fail _ sound

theorem inspectResumeCandidate_secures (plannedOutput : Option String) (durableBytes : Nat)
    (sound : Sound origin stored least w) :
    Secures origin stored least (inspectResumeCandidate plannedOutput durableBytes)
      (fun _ t => Unmoved w t ∧ Covers durableBytes t) w := by
  unfold inspectResumeCandidate
  refine .bind (inspectOutput_secures plannedOutput sound) fun _ t same => ?_
  subst same
  refine .bind (.ask sound fun _ _ _ found _ => inspectPartial_cases found)
    fun state u same => ?_
  subst same
  refine .bind (expectPartial_secures durableBytes state sound) fun _ v same => ?_
  subst same
  refine .bind (openPartial_secures sound) fun _ t unmoved => ?_
  have sound' := sound.unmoved unmoved
  refine .bind (.ask sound' fun _ _ _ found _ => askFile_cases found)
    fun answer u asked => ?_
  obtain ⟨same, known⟩ := asked
  subst same
  refine .tried_bind sound' fun metadata answered => ?_
  obtain ⟨file, present, seen⟩ := known metadata answered
  dsimp only
  split
  · exact .fail _ sound'
  · split
    · exact .fail _ sound'
    · rename_i enough
      have covers : Covers durableBytes u := by
        refine ⟨file, present, ?_⟩
        rw [seen] at enough
        exact Nat.not_lt.mp enough
      refine .bind (.ask sound' fun _ _ _ found _ => askFile_cases found)
        fun answer v asked => ?_
      obtain ⟨same, -⟩ := asked
      subst same
      refine .tried_bind sound' fun _ _ => ?_
      refine .bind (.ask sound' fun _ _ _ found _ => askFile_cases found)
        fun answer w' asked => ?_
      obtain ⟨same, -⟩ := asked
      subst same
      split
      · exact .pure ⟨unmoved, covers⟩
      all_goals exact .fail _ sound'

/-- The prepared transfer writes one representation, and takes up its front where the
row has one. -/
def Ready (origin : Origin) (stored : Bool) (bytes : Bytes) (prepared : HttpPrepared)
    (w : PartialWorld) : Prop :=
  prepared.stored = stored ∧ match prepared.body with
  | .fresh body => Opened origin bytes body ∧ w.row = none ∧ prepared.startingBytes = 0 ∧
      prepared.metadata = body.metadata
  | .resumed body state => w.row = some state ∧ Covers state.durableBytes w ∧
      bytes = origin.tagged state.strongEtag ∧ prepared.startingBytes = state.durableBytes ∧
      Arriving bytes state.durableBytes body.incoming.blocks body.incoming.ending ∧
      prepared.metadata.contentLength = some bytes.length

theorem openFull_secures (canonicalReason : Nat → Option String) (request : RequestContext)
    (sound : Sound origin stored least w) :
    Secures origin stored least (openFull urls canonicalReason request)
      (fun body t => t = w ∧ ∃ bytes, Opened origin bytes body) w := by
  unfold openFull
  refine .bind (.adapt (openBody_secures request sound)) fun opened t reached => ?_
  obtain ⟨same, bytes, body⟩ := reached
  exact .pure ⟨same, bytes, body⟩

theorem httpResource_secures (previous : Option Core.ResourceDescriptor)
    (metadata : HttpInspection) (sound : Sound origin stored least w) :
    Secures origin stored least (httpResource previous metadata) (fun _ t => t = w) w := by
  unfold httpResource
  split
  · exact .fail _ sound
  · exact .pure rfl

variable {canonicalReason : Nat → Option String} {input : Core.ExecutionInput}
  {destination : Core.DownloadDestination}

theorem prepareFresh_secures (planned : Core.ResolvedDestination)
    (sound : Sound origin stored least w) (unsaved : w.row = none) :
    Secures origin stored least (prepareFresh urls canonicalReason input destination planned stored)
      (fun prepared t => Unmoved w t ∧ ∃ bytes, Ready origin stored bytes prepared t) w := by
  unfold prepareFresh
  refine .bind (openFull_secures canonicalReason _ sound) fun body t reached => ?_
  obtain ⟨same, bytes, opened⟩ := reached
  subst same
  refine .bind (httpResource_secures _ _ sound) fun resource u same => ?_
  subst same
  exact .pure ⟨Unmoved.refl _, bytes, rfl, opened, unsaved, rfl, rfl⟩

/-- What is left to write continues the representation of the row. -/
theorem openRemaining_secures {state : HttpResumeState} (sound : Sound origin stored least w)
    (saved : w.row = some state) :
    Secures origin stored least (openRemaining urls canonicalReason input state)
      (fun remaining t => t = w ∧
        Arriving (origin.tagged state.strongEtag) state.durableBytes
          remaining.1.incoming.blocks remaining.1.incoming.ending ∧
        remaining.2.contentLength = some (origin.tagged state.strongEtag).length) w := by
  have backing := sound.backed.rows state saved
  have total := congrArg some backing.total
  unfold openRemaining
  split
  · rename_i complete
    refine .pure ⟨rfl, ⟨?_, fun _ => ?_⟩, total⟩
    · exact List.append_nil _ ▸ List.take_prefix _ _
    · change _ ++ [] = _
      rw [List.append_nil, complete, backing.total, List.take_length]
  · split
    · rename_i nothing
      refine .bind (openFull_secures canonicalReason _ sound) fun body t reached => ?_
      obtain ⟨same, bytes, opened⟩ := reached
      subst same
      split
      · exact .fail _ sound
      · rename_i matched
        push Not at matched
        have same := opened.validator state.strongEtag matched.2
        subst same
        refine .pure ⟨rfl, ?_, matched.1.trans total⟩
        rw [nothing]
        exact opened.arriving
    · refine .bind (.adapt (openRange_secures _ sound)) fun opened t reached => ?_
      obtain ⟨same, arriving⟩ := reached
      subst same
      exact .pure ⟨rfl, arriving, total⟩

theorem prepareResumed_secures {state : HttpResumeState} (sound : Sound origin true least w)
    (saved : w.row = some state) :
    Secures origin true least (prepareResumed urls canonicalReason input destination state)
      (fun prepared t => Unmoved w t ∧ ∃ bytes, Ready origin true bytes prepared t) w := by
  unfold prepareResumed
  dsimp only
  split
  · exact .fail _ sound
  · split
    · exact .fail _ sound
    · split
      · rename_i planned _
        refine .bind (.adapt (inspectResumeCandidate_secures _ _ sound))
          fun _ t inspected => ?_
        obtain ⟨unmoved, covers⟩ := inspected
        have sound' := sound.unmoved unmoved
        have saved' := unmoved.row.trans saved
        refine .bind (openRemaining_secures sound' saved') fun remaining u reached => ?_
        obtain ⟨same, arriving, length⟩ := reached
        subst same
        refine .bind (httpResource_secures _ _ sound') fun resource v same => ?_
        subst same
        exact .pure ⟨unmoved, _, rfl, saved', covers, rfl, rfl, arriving, length⟩
      · exact .fail _ sound

theorem findState_cases {answer : Except Core.RepositoryErrorKind (Option HttpResumeState)}
    (found : surroundings .findState choice w = some (answer, t)) :
    t = w ∧ ∀ row, answer = .ok row → row = w.row := by
  cases rowAnswer_cases found with
  | inl read =>
    obtain ⟨value, row, same, answered, landed⟩ := read
    cases same
    subst answered landed
    exact ⟨rfl, fun row same => (Except.ok.inj same).symm⟩
  | inr failed =>
    obtain ⟨kind, answered, landed⟩ := failed
    subst answered
    refine ⟨?_, by rintro _ ⟨⟩⟩
    cases landed with
    | inl same => exact same
    | inr moved =>
      obtain ⟨value, row, same, landed⟩ := moved
      cases same
      exact landed

theorem prepare_secures (sound : Sound origin stored least w) :
    Secures origin stored least (prepare urls canonicalReason stored input)
      (fun prepared t => Unmoved w t ∧ ∃ bytes, Ready origin stored bytes prepared t) w := by
  unfold prepare
  refine .tried_bind sound fun planned _ => ?_
  cases stored with
  | false => exact prepareFresh_secures _ sound (sound.backed.unsaved rfl)
  | true =>
    refine .bind (.ask sound fun _ _ _ found _ => findState_cases found)
      fun answer t read => ?_
    obtain ⟨same, row⟩ := read
    subst same
    refine .tried_bind sound fun found answered => ?_
    have saved := row found answered
    cases found with
    | none => exact prepareFresh_secures _ sound saved.symm
    | some state => exact prepareResumed_secures sound saved.symm

end Preparing

/-! ## The transfer -/

section Transfer

variable {origin : Origin} {stored : Bool} {least : Nat} {bytes : Bytes} {w : PartialWorld}
variable {body : HttpBody}

theorem createNew_cases {choice : HttpChoice} {answer : Except IoErrorKind Unit}
    {t : PartialWorld} (found : surroundings .createNew choice w = some (answer, t)) :
    (t = w ∧ ∃ kind, answer = .error kind) ∨
      (answer = .ok () ∧ w.file = none ∧ t = { w with file := some .empty, position := 0 }) := by
  cases choice with
  | proceeds =>
    unfold surroundings at found
    dsimp only at found
    split at found
    · rename_i absent
      cases found
      exact .inr ⟨rfl, absent, rfl⟩
    · cases found
      exact .inl ⟨rfl, _, rfl⟩
  | fails kind rest =>
    cases found
    exact .inl ⟨rfl, _, rfl⟩
  | _ => cases found

section

variable (sound : Sound origin stored least w)
include sound

/-- An empty file holds the start of anything. -/
theorem holding_created (unsaved : w.row = none)
    (represented : origin.represents bytes) (quiet : w.reports = []) (from_start : least = 0) :
    Holding origin stored least bytes ⟨0, 0, none⟩
      { w with file := some .empty, position := 0 } := by
  have noState : ∀ state, state ∉ w.row := by
    intro state found
    rw [unsaved] at found
    cases found
  refine ⟨⟨⟨fun state found => absurd found (noState state), sound.backed.unsaved⟩, sound.rising⟩,
    represented, ⟨.empty, rfl, rfl⟩, Nat.zero_le _, rfl, unsaved,
    fun state found => absurd found (noState state), ?_⟩
  change latest least w.reports ≤ 0
  rw [quiet, from_start]
  exact Nat.le_refl 0

omit sound in
/-- The row begins with nothing durable of the representation its tag names. -/
theorem Holding.initialize {cursor : PartialCursor} {tag : StrongEntityTag}
    {state : HttpResumeState} (h : Holding origin true least bytes cursor w)
    (tagged : bytes = origin.tagged tag) (length : total = bytes.length)
    (initialized : initializeState w.row tag total = .ok state) :
    Holding origin true least bytes { cursor with resumeState := some state }
      { w with row := some state } := by
  obtain ⟨-, same⟩ := initializeState_ok initialized
  subst same
  refine ⟨⟨⟨fun other found => ?_, by rintro ⟨⟩⟩, h.sound.rising⟩, h.represented, h.holds, h.within,
    h.position, rfl, fun other found => ?_, h.reported⟩
  · cases found
    exact ⟨tagged ▸ h.represented, tagged ▸ length, fun _ _ => retains_nil _⟩
  · cases found
    exact tagged

omit sound in
theorem initializeResume_secures {cursor : PartialCursor}
    (h : Holding origin true least bytes cursor w) (opened : Opened origin bytes body)
    (unsaved : cursor.resumeState = none) :
    Secures origin true least (initializeResume body.metadata)
      (fun resumeState t =>
        Holding origin true least bytes { cursor with resumeState := resumeState } t) w := by
  unfold initializeResume
  split
  · rename_i tag total tagged known
    have moved : ∀ value row, (initializeState w.row tag total).map (fun state => (state, some state))
        = .ok (value, row) → row = some value ∧
        Holding origin true least bytes { cursor with resumeState := some value }
          { w with row := some value } := by
      intro value row mapped
      obtain ⟨state, initialized, same⟩ := map_ok mapped
      cases same
      exact ⟨rfl, h.initialize (opened.validator tag tagged) (opened.length total known) initialized⟩
    refine .bind (.ask h.sound fun _ _ _ found _ => rowAnswer_cases found)
      fun answer t came => ?_
    cases came with
    | inl ok =>
      obtain ⟨value, row, mapped, answered, landed⟩ := ok
      obtain ⟨same, holding⟩ := moved value row mapped
      subst same answered landed
      refine .tried_bind holding.sound fun persisted same => ?_
      cases same
      split
      · exact .fail _ holding.sound
      · exact .pure holding
    | inr failed =>
      obtain ⟨kind, answered, landed⟩ := failed
      subst answered
      cases landed with
      | inl same =>
        subst same
        exact h.sound
      | inr changed =>
        obtain ⟨value, row, mapped, landed⟩ := changed
        obtain ⟨same, holding⟩ := moved value row mapped
        subst same landed
        exact holding.sound
  · refine .pure ?_
    rw [← unsaved]
    exact h

theorem createPartial_secures (unsaved : w.row = none)
    (opened : Opened origin bytes body) (quiet : w.reports = []) (from_start : least = 0) :
    Secures origin stored least (createPartial body stored) (Ended origin stored least bytes) w := by
  unfold createPartial
  refine .bind (.ask sound fun _ _ _ found _ => createNew_cases found)
    fun answer t came => ?_
  cases came with
  | inl failed =>
    obtain ⟨same, kind, answered⟩ := failed
    subst same answered
    exact sound
  | inr created =>
    obtain ⟨answered, -, landed⟩ := created
    subst answered landed
    have held := holding_created sound unsaved opened.represented quiet from_start
    generalize ({ w with file := some .empty, position := 0 } : PartialWorld) = u at held
    refine .tried_bind held.sound fun _ _ => ?_
    refine .bind (.ask held.sound fun _ _ _ found _ => askFile_cases found)
      fun answer t asked => ?_
    obtain ⟨same, -⟩ := asked
    subst same
    refine .tried_bind held.sound fun _ _ => ?_
    cases stored with
    | true =>
      refine .bind (initializeResume_secures held opened rfl) fun resumeState u holding => ?_
      exact streamToPartial_secures body.metadata holding opened.arriving
    | false => exact streamToPartial_secures body.metadata held opened.arriving

theorem expectNoState_secures :
    Secures origin stored least expectNoState (fun _ t => t = w) w := by
  unfold expectNoState
  refine .bind (.ask sound fun _ _ _ found _ => findState_cases found)
    fun answer t read => ?_
  obtain ⟨same, -⟩ := read
  subst same
  refine .tried_bind sound fun found _ => ?_
  split
  · exact .fail _ sound
  · exact .pure rfl

/-- Stopped before the file was touched. -/
theorem stopped_at_start (quiet : w.reports = [])
    (saved : ∀ state ∈ w.row, state.durableBytes = least) :
    Ended origin stored least bytes (.stopped least) w := by
  refine ⟨sound, saved, Or.inl rfl, ?_⟩
  rw [quiet]
  exact Nat.le_refl _

theorem writeBodyToPartial_secures (unsaved : w.row = none)
    (opened : Opened origin bytes body) (quiet : w.reports = []) (from_start : least = 0) :
    Secures origin stored least (writeBodyToPartial body stored) (Ended origin stored least bytes)
      w := by
  have noState : ∀ state ∈ w.row, state.durableBytes = least := by
    intro state found
    rw [unsaved] at found
    cases found
  unfold writeBodyToPartial
  refine .bind (.ask sound fun _ _ _ found _ => answered_cases (.inl rfl) found)
    fun requested t same => ?_
  subst same
  have stops : Secures origin stored least
      (Pure.pure (.stopped 0) : Writing PartialOutcome) (Ended origin stored least bytes) t := by
    refine .pure ?_
    rw [← from_start]
    exact stopped_at_start sound quiet noState
  split
  · exact stops
  · have rest : Secures origin stored least (do
        if ← HttpOp.perform .isRequested then
          Pure.pure (.stopped 0)
        else createPartial body stored : Writing PartialOutcome)
        (Ended origin stored least bytes) t := by
      refine .bind (.ask sound fun _ _ _ found _ =>
        answered_cases (.inl rfl) found) fun requested u same => ?_
      subst same
      split
      · exact stops
      · exact createPartial_secures sound unsaved opened quiet from_start
    split
    · refine .bind (expectNoState_secures sound) fun _ u same => ?_
      subst same
      exact rest
    · exact rest

end

/-- The file holds exactly the durable bytes. -/
structure Cut (origin : Origin) (stored : Bool) (least : Nat) (state : HttpResumeState)
    (w : PartialWorld) : Prop where
  sound : Sound origin stored least w
  row : w.row = some state
  quiet : w.reports = []
  holds : ∃ file, w.file = some file ∧
    file.content = (origin.tagged state.strongEtag).take state.durableBytes

section Continue

variable {state : HttpResumeState}

theorem Cut.change {change : PartialFile → PartialFile} (cut : Cut origin stored least state w)
    (position : Nat) (content : ∀ file, (change file).content = file.content)
    (keeps : ∀ file front, Retains (some file) front → Retains (some (change file)) front) :
    Cut origin stored least state { w.modify change with position := position } := by
  obtain ⟨file, present, held⟩ := cut.holds
  refine ⟨cut.sound.change _ fun _ _ file _ kept => keeps file _ kept, cut.row, cut.quiet,
    change file, ?_, (content file).trans held⟩
  exact congrArg (Option.map change) present

/-- The durable front of a file that is long enough. -/
theorem durable_front (sound : Sound origin stored least w) (saved : w.row = some state)
    {file : PartialFile} (present : w.file = some file) :
    file.content.take state.durableBytes =
      (origin.tagged state.strongEtag).take state.durableBytes := by
  have backing := sound.backed.rows state saved
  have leads := (backing.kept file present).leads
  have counted : ((origin.tagged state.strongEtag).take state.durableBytes).length =
      state.durableBytes := by
    have within := state.within
    rw [List.length_take, ← backing.total]
    omega
  have front := List.prefix_iff_eq_take.mp leads
  rw [counted] at front
  exact front.symm

theorem cut_of_setLen (sound : Sound origin stored least w) (saved : w.row = some state)
    (quiet : w.reports = []) (covers : Covers state.durableBytes w) :
    Cut origin stored least state
      { w.modify (·.setLen 0 state.durableBytes) with position := w.position } := by
  obtain ⟨file, present, enough⟩ := covers
  refine ⟨sound.change _ fun other found file _ kept => ?_, saved, quiet,
    file.setLen 0 state.durableBytes, congrArg (Option.map _) present, ?_⟩
  · rw [saved] at found
    cases found
    refine kept.setLen 0 ?_
    rw [List.length_take]
    exact Nat.min_le_left _ _
  · rw [setLen_content enough]
    exact durable_front sound saved present

theorem Cut.holding (cut : Cut origin stored least state w)
    (position : w.position = state.durableBytes) (from_durable : least = state.durableBytes) :
    Holding origin stored least (origin.tagged state.strongEtag)
      ⟨state.durableBytes, state.durableBytes, some state⟩ w := by
  have backing := cut.sound.backed.rows state cut.row
  have within := state.within
  refine ⟨cut.sound, backing.represented, cut.holds, ?_, position, cut.row, fun other found => ?_, ?_⟩
  · rw [← backing.total]
    exact within
  · rw [cut.row] at found
    cases found
    rfl
  · rw [cut.quiet, from_durable]
    exact Nat.le_refl _

variable {body : ResumeBody} (metadata : HttpInspection)
  (sound : Sound origin stored least w) (saved : w.row = some state) (quiet : w.reports = [])
  (from_durable : least = state.durableBytes)
  (arriving : Arriving (origin.tagged state.strongEtag) state.durableBytes
    body.incoming.blocks body.incoming.ending)

include sound saved quiet from_durable arriving

theorem continuePartial_secures :
    Secures origin stored least (continuePartial body metadata state)
      (Ended origin stored least (origin.tagged state.strongEtag)) w := by
  unfold continuePartial
  refine .bind (.ask sound fun _ _ _ found _ => askFile_cases found)
    fun answer t asked => ?_
  obtain ⟨same, -⟩ := asked
  subst same
  refine .tried_bind sound fun matched _ => ?_
  dsimp only
  split
  · exact .fail _ sound
  · refine .bind (.ask sound fun _ _ _ found _ => askFile_cases found)
      fun answer u asked => ?_
    obtain ⟨same, known⟩ := asked
    subst same
    refine .tried_bind sound fun metadata' answered => ?_
    obtain ⟨file, present, seen⟩ := known metadata' answered
    subst seen
    -- the file ends at the durable bytes from here on
    have written : ∀ v, Cut origin stored least state v → Secures origin stored least (do
        orFail (.file .seek) (← HttpOp.perform (.seek state.durableBytes))
        streamToPartial metadata body.incoming.ending body.incoming.blocks
          ⟨state.durableBytes, state.durableBytes, some state⟩)
        (Ended origin stored least (origin.tagged state.strongEtag)) v := by
      intro v cut
      refine .settle_bind cut.sound (.ask cut.sound fun _ _ _ found _ =>
        fileAnswer_cases found) ?_
      have unchanged : ∀ file : PartialFile, (id file).content = file.content := fun _ => rfl
      have sought := cut.change state.durableBytes unchanged fun _ _ kept => kept
      exact streamToPartial_secures metadata (sought.holding rfl from_durable) arriving
    split
    · exact .fail _ sound
    · rename_i fits
      have enough : state.durableBytes ≤ file.content.length := by
        push Not at fits
        exact fits.2
      split
      · refine .settle_bind sound (.ask sound fun _ _ _ found _ =>
          fileAnswer_cases found) ?_
        have cut := cut_of_setLen sound saved quiet ⟨file, present, enough⟩
        refine .settle_bind cut.sound (.ask cut.sound fun _ _ _ found _ =>
          fileAnswer_cases found) ?_
        exact written _ (cut.change _ (fun _ => rfl) fun _ _ kept => kept.sync)
      · rename_i exactly
        have whole : file.content = (origin.tagged state.strongEtag).take state.durableBytes := by
          rw [← durable_front sound saved present, ← not_not.mp exactly, List.take_length]
        exact written _ ⟨sound, saved, quiet, file, present, whole⟩

theorem resumeBodyToPartial_secures :
    Secures origin stored least (resumeBodyToPartial body metadata state)
      (Ended origin stored least (origin.tagged state.strongEtag)) w := by
  unfold resumeBodyToPartial
  refine .bind (.ask sound fun _ _ _ found _ => answered_cases (.inl rfl) found)
    fun requested t same => ?_
  subst same
  split
  · refine .pure ?_
    rw [← from_durable]
    refine stopped_at_start sound quiet fun other found => ?_
    rw [saved] at found
    cases found
    exact from_durable.symm
  · exact continuePartial_secures metadata sound saved quiet from_durable arriving

end Continue

/-- A prepared transfer writes the one representation it is ready for. -/
theorem transferControlled_secures {canonicalReason : Nat → Option String}
    {prepared : HttpPrepared} (sound : Sound origin stored prepared.startingBytes w)
    (ready : Ready origin stored bytes prepared w) (quiet : w.reports = []) :
    Secures origin stored prepared.startingBytes (transferControlled canonicalReason prepared)
      (Ended origin stored prepared.startingBytes bytes) w := by
  obtain ⟨same, ready⟩ := ready
  unfold transferControlled
  refine .adapt ?_
  cases prepared with
  | mk body metadata resource startingBytes destination planned stored' =>
    subst same
    cases body with
    | fresh body =>
      obtain ⟨opened, unsaved, start, -⟩ := ready
      exact writeBodyToPartial_secures sound unsaved opened quiet start
    | resumed body state =>
      obtain ⟨saved, -, tagged, start, arriving, -⟩ := ready
      subst tagged
      exact resumeBodyToPartial_secures metadata sound saved quiet start arriving

end Transfer

end Gunda.Http

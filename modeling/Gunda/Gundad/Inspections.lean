import Gunda.Gundad.Catalogs

/-!
# Inspections

`inspect_capture`, `download_capture`, `dismiss_capture` and `clear_captures` of
`gundad/src/lib.rs` with the catalog of the listener, which serves what it is sent later.
An inspection ends at any time, and its result is kept if its sequence number is still the
daemon's. The number also moves when another capture is dismissed or downloaded, and nothing
clears the tracks of a capture that was evicted.
-/
namespace Gunda.Gundad

open Gunda.Lib Gunda.Lib.Text
open Gunda.Core (DownloadId OffsetDateTime)
open Gunda.Stream (PresentationTrack saturatingAdd)

variable {urls : UrlCrate}

/-- An inspection that was started. -/
structure Inspection where
  sequence : Nat
  id : CandidateId
  deriving DecidableEq, Repr

inductive CaptureCommand where
  | clear
  | remove (id : CandidateId)
  deriving DecidableEq, Repr

def CaptureCommand.serve (catalog : Catalog urls) : CaptureCommand → Catalog urls
  | .clear => catalog.clear
  | .remove id => catalog.remove id

/-- What an inspection reports. -/
def inspectedTracks (wording : Wording urls) (named : PresentationTrack → Option String)
    (id : CandidateId) : Option (List PresentationTrack) → CaptureTracks
  | some tracks => ⟨id, tracks.map (captureTrackView wording named), none⟩
  | none => ⟨id, [], some "The qualities of this presentation could not be read."⟩

namespace Daemon

/-- The candidate is in the list. -/
def holds (daemon : Daemon urls) (id : CandidateId) : Bool :=
  daemon.capture.any fun catalog => (catalog.get id).isSome

/-- `inspect_capture`, with the inspection it starts. -/
def inspectCapture (wording : Wording urls) (daemon : Daemon urls) (id : CandidateId) :
    Except String (Daemon urls × Option Inspection) := do
  let (candidate, _) ← daemon.captured id
  let sequence := saturatingAdd daemon.inspectionSequence 1
  let daemon := { daemon with inspectionSequence := sequence, captureTracks := none }
  if candidate.variants ≠ [] then
    let tracks := candidate.variants.map (captureVariantView wording)
    pure ({ daemon with captureTracks := some ⟨id, tracks, none⟩ }, none)
  else pure (daemon, some ⟨sequence, id⟩)

/-- A command reaches the listener as long as there is one. -/
def send (daemon : Daemon urls) (listening : Bool) (failure : String) : Except String Unit := do
  let _ ← daemon.captureHandle
  if listening then pure () else .error failure

def dismissCapture (daemon : Daemon urls) (listening : Bool) (id : CandidateId) :
    Except String (Daemon urls) := do
  daemon.send listening "The capture could not be dismissed."
  pure { daemon with
    captureTracks := daemon.captureTracks.filter (·.id ≠ id)
    inspectionSequence := saturatingAdd daemon.inspectionSequence 1 }

def clearCaptures (daemon : Daemon urls) (listening : Bool) : Except String (Daemon urls) := do
  daemon.send listening "The capture list could not be cleared."
  pure { daemon with
    captureTracks := none
    inspectionSequence := saturatingAdd daemon.inspectionSequence 1 }

/-- `WorkerEvent::Inspected`. -/
def inspected (daemon : Daemon urls) (sequence : Nat) (id : CandidateId) (tracks : CaptureTracks) :
    Daemon urls :=
  if sequence = daemon.inspectionSequence ∧ daemon.holds id then
    { daemon with captureTracks := some tracks }
  else daemon

/-- `handle_capture_change` once the channel stopped. -/
def captureStopped (daemon : Daemon urls) : Daemon urls :=
  { daemon with
    capture := none
    captureTracks := none
    inspectionSequence := saturatingAdd daemon.inspectionSequence 1 }

/-- `DownloadCapture` creates a download. -/
def Downloads (daemon : Daemon urls) (id : CandidateId) (track : Option CaptureTrackChoice)
    (answer : Option (DownloadId × OffsetDateTime)) : Prop :=
  ∃ captured chosen created, daemon.captured id = .ok captured ∧
    chosenTrack captured.1 track = .ok chosen ∧ answer = some created ∧ daemon.job created.1 = none

end Daemon

/-- A request of the browser creates a download. -/
def DownloadRequest.Downloads (wording : Wording urls) (request : DownloadRequest urls)
    (daemon : Daemon urls) (answer : Option (DownloadId × OffsetDateTime)) : Prop :=
  ∃ directory choice, request.chosenDirectory wording daemon = some directory ∧
    captureChoice request.candidate request.format request.filename = .ok choice ∧
    daemon.jobs.find? (alreadyActive (request.selectedUrl choice)) = none ∧
    daemon.Downloads request.candidate.id choice answer

/-- The daemon with its listener. What was inspected last and what is still awaited are noted
for the statements only. -/
structure Inspecting (urls : UrlCrate) where
  daemon : Daemon urls
  listening : Bool
  commands : List CaptureCommand
  inspections : List Inspection
  /-- The capture of the most recent `InspectCapture`. -/
  latest : Option CandidateId
  /-- The inspection it started, while its result is to come and its capture is neither gone,
  dismissed nor downloaded. -/
  awaited : Option Inspection

inductive CaptureAction (urls : UrlCrate) where
  | reported (report : Report urls)
  /-- The listener serves the next command. -/
  | served
  | ended
  /-- The daemon sees that the listener ended. -/
  | stopped
  | inspect (id : CandidateId)
  | download (id : CandidateId) (directory : String) (track : Option CaptureTrackChoice)
      (answer : Option (DownloadId × OffsetDateTime))
  | dismiss (id : CandidateId)
  | clear
  | requested (request : DownloadRequest urls) (answer : Option (DownloadId × OffsetDateTime))
  | inspected (inspection : Inspection) (found : Option (List PresentationTrack))

namespace Inspecting

/-- The listener publishes another catalog. -/
def published (state : Inspecting urls) (catalog : Catalog urls) : Inspecting urls :=
  { state with
    daemon := { state.daemon with capture := some catalog }
    awaited := state.awaited.filter fun inspection => (catalog.get inspection.id).isSome }

/-- The daemon after a download of the capture was asked for: it was created if there is one
job more. -/
def downloaded (state : Inspecting urls) (id : CandidateId) (daemon : Daemon urls) :
    Inspecting urls :=
  { state with
    daemon := daemon
    awaited :=
      if daemon.jobs.length = state.daemon.jobs.length then state.awaited
      else state.awaited.filter (·.id ≠ id) }

variable (wording : Wording urls) (named : PresentationTrack → Option String)

def step (state : Inspecting urls) : CaptureAction urls → Option (Inspecting urls)
  | .reported report =>
      if state.listening then
        state.daemon.capture.map fun catalog => state.published (catalog.record report).1
      else none
  | .served =>
      if state.listening then
        match state.commands with
        | [] => none
        | command :: commands => state.daemon.capture.map fun catalog =>
            { state with commands := commands }.published (command.serve catalog)
      else none
  | .ended => some { state with listening := false }
  | .stopped =>
      if state.listening ∨ state.daemon.capture.isNone then none
      else some { state with daemon := state.daemon.captureStopped, awaited := none }
  | .inspect id => some <|
      match state.daemon.inspectCapture wording id with
      | .error _ => state
      | .ok (daemon, started) => { state with
          daemon := daemon
          inspections := state.inspections ++ started.toList
          latest := some id
          awaited := started }
  | .download id directory track answer => some <|
      state.downloaded id (state.daemon.downloaded wording id directory track answer)
  | .dismiss id => some <|
      match state.daemon.dismissCapture state.listening id with
      | .error _ => state
      | .ok daemon => { state with
          daemon := daemon
          commands := state.commands ++ [.remove id]
          awaited := state.awaited.filter (·.id ≠ id) }
  | .clear => some <|
      match state.daemon.clearCaptures state.listening with
      | .error _ => state
      | .ok daemon => { state with
          daemon := daemon
          commands := state.commands ++ [.clear]
          awaited := none }
  | .requested request answer => some <|
      state.downloaded request.candidate.id
        (handleDownloadRequested wording state.daemon request answer).2
  | .inspected inspection found =>
      if inspection ∈ state.inspections then some { state with
        daemon := state.daemon.inspected inspection.sequence inspection.id
          (inspectedTracks wording named inspection.id found)
        inspections := state.inspections.erase inspection
        awaited := state.awaited.filter (· ≠ inspection) }
      else none

/-- A daemon that has inspected nothing, with a listener whose catalog is empty. -/
def start (jobs : List Core.DownloadJob) (capacity : Nat) : Inspecting urls where
  daemon := (Session.start jobs capacity).daemon
  listening := true
  commands := []
  inspections := []
  latest := none
  awaited := none

/-- The tracks are those of the capture inspected last, it is still in the list, and what is
awaited is stored whenever it arrives. -/
structure Matches (state : Inspecting urls) : Prop where
  own : ∀ shown ∈ state.daemon.captureTracks, state.latest = some shown.id
  present : ∀ shown ∈ state.daemon.captureTracks, state.daemon.holds shown.id = true
  stored : ∀ inspection ∈ state.awaited, ∀ found,
    (state.daemon.inspected inspection.sequence inspection.id
      (inspectedTracks wording named inspection.id found)).captureTracks =
        some (inspectedTracks wording named inspection.id found)

/-- The capture whose tracks are shown stays in the list, and no other capture is dismissed or
downloaded while a result is awaited. -/
def Keeps (state : Inspecting urls) : CaptureAction urls → Prop
  | .reported report => state.listening = true → ∀ catalog ∈ state.daemon.capture,
      ∀ shown ∈ state.daemon.captureTracks, ((catalog.record report).1.get shown.id).isSome = true
  | .served => state.listening = true → ∀ catalog ∈ state.daemon.capture,
      ∀ command ∈ state.commands.head?, ∀ shown ∈ state.daemon.captureTracks,
        ((command.serve catalog).get shown.id).isSome = true
  | .download id _ track answer => state.daemon.Downloads id track answer →
      ∀ inspection ∈ state.awaited, inspection.id = id
  | .requested request answer => request.Downloads wording state.daemon answer →
      ∀ inspection ∈ state.awaited, inspection.id = request.candidate.id
  | .dismiss id => state.listening = true → ∀ inspection ∈ state.awaited, inspection.id = id
  | .ended | .stopped | .inspect _ | .clear | .inspected _ _ => True

end Inspecting

/-! ## Downloads -/

namespace Daemon

/-- Nothing changed that inspections depend on. -/
structure Quiet (before after : Daemon urls) : Prop where
  capture : after.capture = before.capture
  tracks : after.captureTracks = before.captureTracks
  sequence : after.inspectionSequence = before.inspectionSequence
  jobs : after.jobs.length = before.jobs.length

/-- A download was created. -/
structure Queued (before after : Daemon urls) : Prop where
  capture : after.capture = before.capture
  tracks : after.captureTracks = none
  sequence : after.inspectionSequence = saturatingAdd before.inspectionSequence 1
  jobs : after.jobs.length = before.jobs.length + 1

variable {wording : Wording urls} {daemon created : Daemon urls} {id : CandidateId}
  {directory : String} {track : Option CaptureTrackChoice}
  {answer : Option (DownloadId × OffsetDateTime)} {job : DownloadId}

theorem holds_of_get {catalog : Catalog urls} {candidate : Candidate urls}
    (present : daemon.capture = some catalog) (found : catalog.get id = some candidate) :
    daemon.holds id = true := by
  unfold holds
  rw [present, Option.any_some, found]
  rfl

theorem holds_of_captured {captured : Candidate urls × JobEngine}
    (h : daemon.captured id = .ok captured) : daemon.holds id = true := by
  unfold Daemon.captured at h
  obtain ⟨catalog, handle, h⟩ := bind_ok h
  unfold captureHandle at handle
  split at handle
  · rename_i other present
    cases handle
    split at h
    · cases h
    · rename_i candidate found
      exact holds_of_get present found
  · cases handle

theorem queued_of_downloadCapture
    (h : daemon.downloadCapture wording id directory track answer = .ok (job, created)) :
    daemon.Queued created := by
  obtain ⟨_, _, engine, _, _, _, download, inserted, _, _, _, _, _, made, same⟩ :=
    downloadCapture_ok h
  obtain ⟨_, createdAt, grown⟩ := create_eq_some made
  rw [same, grown]
  refine ⟨rfl, rfl, rfl, ?_⟩
  change (daemon.jobs.orderedInsert _ _).length = _
  rw [List.orderedInsert_length]

/-- A download is created exactly when the daemon can. -/
theorem downloadCapture_iff : (∃ result,
    daemon.downloadCapture wording id directory track answer = .ok result) ↔
      daemon.Downloads id track answer := by
  unfold downloadCapture Downloads
  constructor
  · rintro ⟨result, h⟩
    obtain ⟨captured, found, h⟩ := bind_ok h
    obtain ⟨chosen, track_, h⟩ := bind_ok h
    dsimp only at h
    split at h
    · cases h
    · rename_i number inserted made
      have fresh := (create_eq_some made).1
      cases answer with
      | none => cases made
      | some given =>
        unfold create at made
        split at made
        · rename_i missing
          cases missing
        · rename_i other createdAt same
          cases same
          split at made
          · cases made
          · cases made
            exact ⟨captured, chosen, _, found, track_, rfl, fresh⟩
  · rintro ⟨⟨candidate, engine⟩, chosen, made, found, track_, answered, fresh⟩
    rw [found, ok_bind]
    dsimp only
    rw [track_, ok_bind, answered]
    unfold create
    dsimp only
    rw [fresh]
    exact ⟨_, rfl⟩

theorem downloaded_cases (wording : Wording urls) (daemon : Daemon urls) (id : CandidateId)
    (directory : String) (track : Option CaptureTrackChoice)
    (answer : Option (DownloadId × OffsetDateTime)) :
    (daemon.Downloads id track answer ∧
        daemon.Queued (daemon.downloaded wording id directory track answer)) ∨
      (¬ daemon.Downloads id track answer ∧
        daemon.Quiet (daemon.downloaded wording id directory track answer)) := by
  unfold downloaded
  split
  · rename_i job created made
    exact .inl ⟨downloadCapture_iff.mp ⟨_, made⟩, queued_of_downloadCapture made⟩
  · rename_i message failed
    refine .inr ⟨fun downloads => ?_, rfl, rfl, rfl, rfl⟩
    have made : ∃ result, daemon.downloadCapture wording id directory track answer = .ok result :=
      downloadCapture_iff.mpr downloads
    rw [failed] at made
    obtain ⟨result, made⟩ := made
    cases made

theorem send_cases (daemon : Daemon urls) (listening : Bool) (failure : String) :
    daemon.send listening failure = .ok () ∨
      (∃ message, daemon.send listening failure = .error message) ∧
        (listening = false ∨ daemon.capture = none) := by
  unfold send captureHandle
  cases daemon.capture with
  | none => exact .inr ⟨⟨_, rfl⟩, Or.inr rfl⟩
  | some catalog =>
    cases listening with
    | true => exact .inl rfl
    | false => exact .inr ⟨⟨_, rfl⟩, Or.inl rfl⟩

theorem holds_of_none (gone : daemon.capture = none) : daemon.holds id = false := by
  unfold holds
  rw [gone]
  rfl

end Daemon

/-- A request of the browser creates a download, or leaves inspections alone. -/
theorem requested_cases (wording : Wording urls) (daemon : Daemon urls)
    (request : DownloadRequest urls) (answer : Option (DownloadId × OffsetDateTime)) :
    (request.Downloads wording daemon answer ∧
        daemon.Queued (handleDownloadRequested wording daemon request answer).2) ∨
      (¬ request.Downloads wording daemon answer ∧
        daemon.Quiet (handleDownloadRequested wording daemon request answer).2) := by
  unfold handleDownloadRequested DownloadRequest.Downloads
  split
  · rename_i missing
    refine .inr ⟨?_, rfl, rfl, rfl, rfl⟩
    rintro ⟨directory, _, chosen, _⟩
    rw [missing] at chosen
    cases chosen
  · rename_i directory found
    split
    · rename_i message refused
      refine .inr ⟨?_, rfl, rfl, rfl, rfl⟩
      rintro ⟨_, choice, _, chosen, _⟩
      rw [refused] at chosen
      cases chosen
    · rename_i choice chosen
      split
      · rename_i job active
        refine .inr ⟨?_, rfl, rfl, rfl, rfl⟩
        rintro ⟨_, other, _, same, idle, _⟩
        rw [chosen] at same
        cases same
        rw [active] at idle
        cases idle
      · rename_i idle
        split
        · rename_i id created made
          exact .inl ⟨⟨directory, choice, found, chosen, idle,
            Daemon.downloadCapture_iff.mp ⟨_, made⟩⟩, Daemon.queued_of_downloadCapture made⟩
        · rename_i message failed
          refine .inr ⟨?_, rfl, rfl, rfl, rfl⟩
          rintro ⟨_, other, _, same, _, downloads⟩
          rw [chosen] at same
          cases same
          obtain ⟨result, made⟩ := Daemon.downloadCapture_iff.mpr downloads
          rw [failed] at made
          cases made

/-! ## Runs -/

namespace Inspecting

/-- What a run keeps, with a bound on the sequence number. -/
structure Kept (state : Inspecting urls) (steps : Nat) : Prop where
  counted : state.daemon.inspectionSequence ≤ steps
  started : ∀ inspection ∈ state.inspections,
    inspection.sequence ≤ state.daemon.inspectionSequence
  current : ∀ inspection ∈ state.inspections,
    inspection.sequence = state.daemon.inspectionSequence → state.latest = some inspection.id
  own : ∀ shown ∈ state.daemon.captureTracks, state.latest = some shown.id
  present : ∀ shown ∈ state.daemon.captureTracks, state.daemon.holds shown.id = true
  waiting : ∀ inspection ∈ state.awaited,
    inspection.sequence = state.daemon.inspectionSequence ∧ state.latest = some inspection.id ∧
      state.daemon.holds inspection.id = true ∧ state.daemon.captureTracks = none

variable {wording : Wording urls} {named : PresentationTrack → Option String}
  {state next : Inspecting urls} {steps : Nat}

@[simp] theorem inspectedTracks_id (id : CandidateId) (found : Option (List PresentationTrack)) :
    (inspectedTracks wording named id found).id = id := by
  cases found <;> rfl

section

variable (kept : state.Kept steps)
include kept

theorem Kept.more : state.Kept (steps + 1) :=
  { kept with counted := Nat.le_succ_of_le kept.counted }

theorem Kept.matches : state.Matches wording named where
  own := kept.own
  present := kept.present
  stored inspection awaits found := by
    obtain ⟨sequence, _, holds, _⟩ := kept.waiting inspection awaits
    unfold Daemon.inspected
    rw [if_pos ⟨sequence, holds⟩]

section

variable (early : steps < Stream.maxU64)
include early

theorem advances :
    saturatingAdd state.daemon.inspectionSequence 1 = state.daemon.inspectionSequence + 1 := by
  have counted := kept.counted
  exact Nat.min_eq_left (by omega)

section

variable
  (sequence : next.daemon.inspectionSequence = saturatingAdd state.daemon.inspectionSequence 1)
include sequence

/-- Another sequence number, and nothing is awaited any more. -/
theorem Kept.advanced (tracks : ∀ shown ∈ next.daemon.captureTracks,
      shown ∈ state.daemon.captureTracks ∧ next.daemon.holds shown.id = true)
    (inspections : next.inspections = state.inspections) (latest : next.latest = state.latest)
    (idle : next.awaited = none) : next.Kept (steps + 1) := by
  rw [advances kept early] at sequence
  refine ⟨?_, ?_, ?_, ?_, fun shown member => (tracks shown member).2, ?_⟩
  · rw [sequence]
    exact Nat.succ_le_succ kept.counted
  · intro inspection member
    rw [inspections] at member
    rw [sequence]
    exact Nat.le_succ_of_le (kept.started inspection member)
  · intro inspection member same
    rw [inspections] at member
    have before := kept.started inspection member
    omega
  · intro shown member
    rw [latest]
    exact kept.own shown (tracks shown member).1
  · intro inspection member
    rw [idle] at member
    cases member

/-- The result of an inspection with an earlier sequence number is dropped. -/
theorem not_matches_of_advanced (tracks : next.daemon.captureTracks = none)
    {inspection : Inspection} (waits : inspection ∈ state.awaited)
    (still : inspection ∈ next.awaited) :
    ¬ next.Matches wording named := by
  intro matches_
  rw [advances kept early] at sequence
  have stored := matches_.stored inspection still none
  unfold Daemon.inspected at stored
  have old := (kept.waiting inspection waits).1
  rw [if_neg (fun both => by omega), tracks] at stored
  cases stored

end

end

/-! ### The listener -/

theorem Kept.published {catalog : Catalog urls}
    (shown : ∀ shown ∈ state.daemon.captureTracks, (catalog.get shown.id).isSome = true) :
    (state.published catalog).Kept steps where
  counted := kept.counted
  started := kept.started
  current := kept.current
  own := kept.own
  present := shown
  waiting inspection member := by
    obtain ⟨awaits, inside⟩ := Option.mem_filter_iff.mp member
    obtain ⟨sequence, latest, _, none_⟩ := kept.waiting inspection awaits
    exact ⟨sequence, latest, inside, none_⟩

/-! ### Downloads -/

variable {id : CandidateId} {daemon : Daemon urls}

theorem Kept.quiet (quiet : state.daemon.Quiet daemon) :
    (state.downloaded id daemon).Kept steps := by
  have awaited : (state.downloaded id daemon).awaited = state.awaited := if_pos quiet.jobs
  have holds : ∀ id, daemon.holds id = state.daemon.holds id := by
    intro id
    unfold Daemon.holds
    rw [quiet.capture]
  refine ⟨?_, ?_, ?_, ?_, ?_, ?_⟩
  · exact quiet.sequence ▸ kept.counted
  · exact quiet.sequence ▸ kept.started
  · exact quiet.sequence ▸ kept.current
  · exact quiet.tracks ▸ kept.own
  · intro shown member
    change daemon.holds shown.id = true
    rw [holds]
    exact kept.present shown (quiet.tracks ▸ member)
  · intro inspection member
    rw [awaited] at member
    obtain ⟨sequence, latest, inside, none_⟩ := kept.waiting inspection member
    exact ⟨sequence.trans quiet.sequence.symm, latest, (holds _).trans inside,
      quiet.tracks.trans none_⟩

omit kept in
theorem downloaded_awaited (queued : state.daemon.Queued daemon) :
    (state.downloaded id daemon).awaited = state.awaited.filter (·.id ≠ id) := by
  have more : daemon.jobs.length ≠ state.daemon.jobs.length := by
    rw [queued.jobs]
    exact Nat.succ_ne_self _
  exact if_neg more

omit kept in
theorem filter_eq_none {awaited : Option Inspection}
    (own : ∀ inspection ∈ awaited, inspection.id = id) : awaited.filter (·.id ≠ id) = none := by
  cases awaited with
  | none => rfl
  | some inspection =>
    have same := own inspection rfl
    simp [Option.filter, same]

section

variable (early : steps < Stream.maxU64)
include early

theorem Kept.queued (queued : state.daemon.Queued daemon)
    (own : ∀ inspection ∈ state.awaited, inspection.id = id) :
    (state.downloaded id daemon).Kept (steps + 1) := by
  apply kept.advanced early queued.sequence
  · intro shown member
    change shown ∈ daemon.captureTracks at member
    rw [queued.tracks] at member
    cases member
  · rfl
  · rfl
  · rw [downloaded_awaited queued]
    exact filter_eq_none own

theorem own_of_queued (queued : state.daemon.Queued daemon)
    (matches_ : (state.downloaded id daemon).Matches wording named) :
    ∀ inspection ∈ state.awaited, inspection.id = id := by
  intro inspection awaits
  by_contra other
  apply not_matches_of_advanced kept early queued.sequence queued.tracks awaits ?_ matches_
  rw [downloaded_awaited queued]
  exact Option.mem_filter_iff.mpr ⟨awaits, decide_eq_true other⟩

/-! ### Inspections -/

theorem Kept.inspect (stepped : state.step wording named (.inspect id) = some next) :
    next.Kept (steps + 1) := by
  cases stepped
  cases inspects : state.daemon.inspectCapture wording id with
  | error message => exact kept.more
  | ok result =>
    unfold Daemon.inspectCapture at inspects
    obtain ⟨captured, found, inspects⟩ := bind_ok inspects
    have holds := Daemon.holds_of_captured found
    have older : ∀ inspection ∈ state.inspections,
        inspection.sequence < saturatingAdd state.daemon.inspectionSequence 1 := by
      intro inspection member
      rw [advances kept early]
      exact Nat.lt_succ_of_le (kept.started inspection member)
    have counted : saturatingAdd state.daemon.inspectionSequence 1 ≤ steps + 1 := by
      rw [advances kept early]
      exact Nat.succ_le_succ kept.counted
    dsimp only at inspects ⊢
    split at inspects
    · cases inspects
      simp only [Option.toList_none, List.append_nil]
      refine ⟨counted, fun inspection member => Nat.le_of_lt (older inspection member), ?_, ?_, ?_,
        fun _ member => nomatch member⟩
      · intro inspection member same
        exact absurd same (Nat.ne_of_lt (older inspection member))
      · rintro shown ⟨⟩
        rfl
      · rintro shown ⟨⟩
        exact holds
    · cases inspects
      refine ⟨counted, ?_, ?_, (fun _ member => nomatch member), (fun _ member => nomatch member), ?_⟩
      · intro inspection member
        rcases List.mem_append.mp member with before | new
        · exact Nat.le_of_lt (older inspection before)
        · rw [List.mem_singleton.mp new]
      · intro inspection member same
        rcases List.mem_append.mp member with before | new
        · exact absurd same (Nat.ne_of_lt (older inspection before))
        · rw [List.mem_singleton.mp new]
      · rintro inspection ⟨⟩
        exact ⟨rfl, rfl, holds, rfl⟩

omit early in
theorem Kept.inspected {inspection : Inspection} {found : Option (List PresentationTrack)}
    (stepped : state.step wording named (.inspected inspection found) = some next) :
    next.Kept steps := by
  simp only [step] at stepped
  split at stepped
  · rename_i running
    cases stepped
    have fewer : ∀ other ∈ state.inspections.erase inspection, other ∈ state.inspections :=
      fun other => List.mem_of_mem_erase
    unfold Daemon.inspected
    split
    · rename_i arrived
      have latest := kept.current inspection running arrived.1
      refine ⟨kept.counted, fun other member => kept.started other (fewer other member),
        fun other member => kept.current other (fewer other member), ?_, ?_, ?_⟩
      · rintro shown ⟨⟩
        rw [inspectedTracks_id]
        exact latest
      · rintro shown ⟨⟩
        rw [inspectedTracks_id]
        exact arrived.2
      · -- what is awaited is what arrived
        intro other member
        obtain ⟨awaits, different⟩ := Option.mem_filter_iff.mp member
        obtain ⟨sequence, named_, _, _⟩ := kept.waiting other awaits
        have ids := Option.some.inj (named_.symm.trans latest)
        have same : other = inspection := by
          cases other
          cases inspection
          simp only at ids sequence arrived
          rw [ids, sequence, arrived.1]
        exact absurd same (of_decide_eq_true different)
    · refine ⟨kept.counted, fun other member => kept.started other (fewer other member),
        fun other member => kept.current other (fewer other member), kept.own, kept.present, ?_⟩
      intro other member
      exact kept.waiting other (Option.mem_filter_iff.mp member).1
  · cases stepped

/-! ### Commands to the listener -/

theorem Kept.dismiss
    (own : state.listening = true → ∀ inspection ∈ state.awaited, inspection.id = id)
    (stepped : state.step wording named (.dismiss id) = some next) : next.Kept (steps + 1) := by
  cases stepped
  unfold Daemon.dismissCapture
  rcases state.daemon.send_cases state.listening "The capture could not be dismissed." with
    sent | ⟨⟨message, refused⟩, _⟩
  · rw [sent]
    have heard : state.listening = true := by
      unfold Daemon.send at sent
      obtain ⟨_, _, sent⟩ := bind_ok sent
      by_contra deaf
      rw [if_neg deaf] at sent
      cases sent
    apply kept.advanced early rfl
    · intro shown member
      have before := (Option.mem_filter_iff.mp member).1
      exact ⟨before, kept.present shown before⟩
    · rfl
    · rfl
    · exact filter_eq_none (own heard)
  · rw [refused]
    exact kept.more

theorem own_of_dismiss (stepped : state.step wording named (.dismiss id) = some next)
    (matches_ : next.Matches wording named) (heard : state.listening = true) :
    ∀ inspection ∈ state.awaited, inspection.id = id := by
  intro inspection awaits
  obtain ⟨_, _, holds, none_⟩ := kept.waiting inspection awaits
  cases stepped
  unfold Daemon.dismissCapture at matches_
  rcases state.daemon.send_cases state.listening "The capture could not be dismissed." with
    sent | ⟨_, deaf | gone⟩
  · rw [sent] at matches_
    by_contra other
    refine not_matches_of_advanced kept early rfl ?_ awaits ?_ matches_
    · change state.daemon.captureTracks.filter _ = none
      rw [none_]
      rfl
    · exact Option.mem_filter_iff.mpr ⟨awaits, decide_eq_true other⟩
  · rw [heard] at deaf
    cases deaf
  · rw [Daemon.holds_of_none gone] at holds
    cases holds

theorem Kept.clear
    (stepped : state.step wording named .clear = some next) : next.Kept (steps + 1) := by
  cases stepped
  unfold Daemon.clearCaptures
  rcases state.daemon.send_cases state.listening "The capture list could not be cleared." with
    sent | ⟨⟨message, refused⟩, _⟩
  · rw [sent]
    exact kept.advanced early rfl (fun _ member => nomatch member) rfl rfl rfl
  · rw [refused]
    exact kept.more

end

/-! ### Every step -/

omit kept in
theorem idle (action : CaptureAction urls) (stuck : state.step wording named action = none) :
    state.Keeps wording action := by
  cases action with
  | reported report =>
    intro heard catalog present
    simp only [step, heard, if_true] at stuck
    rw [Option.map_eq_none_iff.mp stuck] at present
    cases present
  | served =>
    intro heard catalog present command first
    simp only [step, heard, if_true] at stuck
    cases commands : state.commands with
    | nil =>
      rw [commands] at first
      cases first
    | cons command commands_ =>
      rw [commands] at stuck
      rw [Option.map_eq_none_iff.mp stuck] at present
      cases present
  | download | dismiss | requested => cases stuck
  | ended | stopped | inspect | clear | inspected => trivial

section

variable (early : steps < Stream.maxU64) (action : CaptureAction urls)
  (stepped : state.step wording named action = some next)
include early action stepped

theorem Kept.step (keeps : state.Keeps wording action) : next.Kept (steps + 1) := by
  cases action with
  | reported report =>
    simp only [Inspecting.step] at stepped
    split at stepped
    · rename_i heard
      obtain ⟨catalog, present, same⟩ := Option.map_eq_some_iff.mp stepped
      rw [← same]
      exact (kept.published (keeps heard catalog present)).more
    · cases stepped
  | served =>
    simp only [Inspecting.step] at stepped
    split at stepped
    · rename_i heard
      split at stepped
      · cases stepped
      · rename_i command commands queue
        obtain ⟨catalog, present, same⟩ := Option.map_eq_some_iff.mp stepped
        rw [← same]
        have served : ({ state with commands := commands } : Inspecting urls).Kept steps :=
          ⟨kept.counted, kept.started, kept.current, kept.own, kept.present, kept.waiting⟩
        have first : command ∈ state.commands.head? := by
          rw [queue]
          rfl
        exact (served.published (keeps heard catalog present command first)).more
    · cases stepped
  | ended =>
    cases stepped
    exact ⟨Nat.le_succ_of_le kept.counted, kept.started, kept.current, kept.own, kept.present,
      kept.waiting⟩
  | stopped =>
    simp only [Inspecting.step] at stepped
    split at stepped
    · cases stepped
    · cases stepped
      exact kept.advanced early rfl (fun _ member => nomatch member) rfl rfl rfl
  | inspect id => exact kept.inspect early stepped
  | download id directory track answer =>
    cases stepped
    rcases state.daemon.downloaded_cases wording id directory track answer with
      ⟨downloads, queued⟩ | ⟨_, quiet⟩
    · exact kept.queued early queued (keeps downloads)
    · exact (kept.quiet quiet).more
  | dismiss id => exact kept.dismiss early keeps stepped
  | clear => exact kept.clear early stepped
  | requested request answer =>
    cases stepped
    rcases requested_cases wording state.daemon request answer with
      ⟨downloads, queued⟩ | ⟨_, quiet⟩
    · exact kept.queued early queued (keeps downloads)
    · exact (kept.quiet quiet).more
  | inspected inspection found => exact (kept.inspected stepped).more

/-- A step that does not meet the condition is seen at once. -/
theorem keeps_of_matches (matches_ : next.Matches wording named) : state.Keeps wording action := by
  cases action with
  | reported report =>
    intro heard catalog present shown member
    simp only [Inspecting.step, heard, if_true, Option.mem_def.mp present, Option.map_some]
      at stepped
    cases stepped
    exact matches_.present shown member
  | served =>
    intro heard catalog present command first shown member
    obtain ⟨rest, queue⟩ := List.head?_eq_some_iff.mp first
    simp only [Inspecting.step, heard, if_true, queue, Option.mem_def.mp present, Option.map_some]
      at stepped
    cases stepped
    exact matches_.present shown member
  | download id directory track answer =>
    intro downloads
    cases stepped
    rcases state.daemon.downloaded_cases wording id directory track answer with
      ⟨_, queued⟩ | ⟨idle, _⟩
    · exact own_of_queued kept early queued matches_
    · exact absurd downloads idle
  | dismiss id => exact own_of_dismiss kept early stepped matches_
  | requested request answer =>
    intro downloads
    cases stepped
    rcases requested_cases wording state.daemon request answer with
      ⟨_, queued⟩ | ⟨idle, _⟩
    · exact own_of_queued kept early queued matches_
    · exact absurd downloads idle
  | ended | stopped | inspect | clear | inspected => trivial

end

end

theorem kept_start (jobs : List Core.DownloadJob) (capacity : Nat) :
    (start jobs capacity : Inspecting urls).Kept 0 where
  counted := Nat.le_refl 0
  started _ member := nomatch member
  current _ member := nomatch member
  own _ member := nomatch member
  present _ member := nomatch member
  waiting _ member := nomatch member

/-- The results of inspections match the latest request throughout a run exactly when every
step leaves the shown capture in the list and the awaited result alone. -/
theorem inspections_match_iff (wording : Wording urls)
    (named : PresentationTrack → Option String) (jobs : List Core.DownloadJob) (capacity : Nat)
    {actions : List (CaptureAction urls)} (few : actions.length < 2 ^ 64) :
    Machine.Always (step wording named) (Matches wording named) (start jobs capacity) actions ↔
      Machine.Meets (step wording named) (Keeps wording) (start jobs capacity) actions :=
  Machine.always_iff_meets (fun _ _ kept => kept.matches) (fun _ => idle)
    (fun _ _ action _ kept early => kept.step early action)
    (fun _ _ action _ kept early => keeps_of_matches kept early action) (kept_start jobs capacity)
    (by rw [Nat.zero_add]; exact Nat.le_pred_of_lt few)

/-- A capture is inspected and dismissed. -/
def oneInspection : List (CaptureAction cdnCrate) :=
  [.reported masterReport, .inspect 0, .inspected ⟨1, 0⟩ (some []), .dismiss 0, .served]

theorem one_inspection_matches :
    Machine.Always (step plainWording fun _ => none) (Matches plainWording fun _ => none)
      (start [] 256) oneInspection := by
  apply (inspections_match_iff plainWording (fun _ => none) [] 256 (by decide)).mpr
  refine ⟨(fun _ _ _ _ member => nomatch member), ?_⟩
  rintro _ ⟨⟩
  refine ⟨trivial, ?_⟩
  rintro _ ⟨⟩
  refine ⟨trivial, ?_⟩
  rintro _ ⟨⟩
  refine ⟨(fun _ _ member => nomatch member), ?_⟩
  rintro _ ⟨⟩
  refine ⟨(fun _ _ _ _ _ _ member => nomatch member), ?_⟩
  exact fun _ _ => trivial

/-- Two captures; the second is dismissed while the first is inspected. -/
def otherDismissed : List (CaptureAction cdnCrate) :=
  [.reported masterReport, .reported lowReport, .inspect 0, .dismiss 1]

/-- The only capture there is room for is inspected, and another is reported. -/
def shownEvicted : List (CaptureAction cdnCrate) :=
  [.reported masterReport, .inspect 0, .inspected ⟨1, 0⟩ (some []), .reported lowReport]

/-- The result of the latest inspection is dropped because another capture was dismissed, and
the tracks of a capture that is gone stay. -/
theorem other_dismissed_drops :
    ((Machine.run (step plainWording fun _ => none) (start [] 256)
        (otherDismissed ++ [.inspected ⟨1, 0⟩ (some [])])).map fun final =>
      (final.latest, final.daemon.captureTracks)) = some (some 0, none) ∧
    ¬ Machine.Always (step plainWording fun _ => none) (Matches plainWording fun _ => none)
      (start [] 256) otherDismissed ∧
    ¬ Machine.Always (step plainWording fun _ => none) (Matches plainWording fun _ => none)
      (start [] 1) shownEvicted := by
  refine ⟨by decide +kernel, fun always => ?_, fun always => ?_⟩
  · have dropped : ((Machine.run (step plainWording fun _ => none) (start [] 256)
        otherDismissed).map fun final => (final.awaited,
          (final.daemon.inspected 1 0 (inspectedTracks plainWording (fun _ => none) 0
            none)).captureTracks)) = some (some ⟨1, 0⟩, none) := by decide +kernel
    obtain ⟨final, ran, same⟩ := Option.map_eq_some_iff.mp dropped
    obtain ⟨awaited, tracks⟩ := Prod.mk.inj same
    have stored := (always.run ran).stored ⟨1, 0⟩ awaited none
    rw [tracks] at stored
    cases stored
  · have gone : ((Machine.run (step plainWording fun _ => none) (start [] 1)
        shownEvicted).map fun final => (final.daemon.captureTracks, final.daemon.holds 0)) =
          some (some ⟨0, [], none⟩, false) := by decide +kernel
    obtain ⟨final, ran, same⟩ := Option.map_eq_some_iff.mp gone
    obtain ⟨tracks, holds⟩ := Prod.mk.inj same
    have present := (always.run ran).present _ tracks
    rw [holds] at present
    cases present

end Inspecting

end Gunda.Gundad

import Gunda.Gundad.Commands

/-!
# Where engines come from

What the main task may assume of the jobs that were created in a run, and that its handlers
keep these terms: a new job has an identifier of its own, and a job returns to the queue
with the engine that was worked out for it.
-/
namespace Gunda.Gundad

open Gunda.Lib Gunda.Lib.Text
open Fallible (andThen andThen_ok wp wp_bind wp_map wp_mono)
open Gunda.Core

variable {urls : UrlCrate}

/-- What the jobs of this run were created with, and the jobs with a row. -/
structure Origins where
  created : DownloadId → JobEngine → Prop
  stored : DownloadId → Prop

namespace Origins

def Known (view : Origins) : Prop := ∀ id engine, view.created id engine → view.stored id

/-- What is worked out for a job is what it was created with, if it was created in this run. -/
def Recovers (view : Origins) (id : DownloadId) (derived : JobEngine) : Prop :=
  ∀ engine, view.created id engine → derived = engine

end Origins

def engineTerms (urls : UrlCrate) : Terms (CommandOp urls) CommandOp.Answer Origins where
  service :=
    { requires := fun _ _ => True
      ensures := fun op v answer t => match op, answer with
        | .createRow _ _, answer => t.created = v.created ∧ (∀ id, v.stored id → t.stored id) ∧
            ∀ job, answer = .ok job → ¬ v.stored job.id ∧ t.stored job.id
        | _, _ => t = v }
  own :=
    { requires := fun op v => match op with
        | .queueCreated id _ => (∀ engine, ¬ v.created id engine) ∧ v.stored id
        | .queueAgain id engine => v.Recovers id engine
        | _ => True
      ensures := fun op v answer t => match op, answer with
        | .engineOf id, answer => t = v ∧ v.Recovers id answer
        | .queueCreated id engine, _ => t = { v with
            created := fun other used => (other = id ∧ used = engine) ∨ v.created other used }
        | _, _ => t = v }
  begins _ _ := True
  begun _ v := v

section

variable {view : Origins} {id : DownloadId}
variable {α : Type}

theorem service_created {op : ServiceOp} {answer : op.Answer} {later : Origins}
    (ensured : (engineTerms urls).service.ensures op view answer later) :
    later.created = view.created ∧ ∀ other, view.stored other → later.stored other := by
  cases op with
  | createRow download createdAt => exact ⟨ensured.1, ensured.2.1⟩
  | _ =>
    rw [show later = view from ensured]
    exact ⟨rfl, fun _ stored => stored⟩

/-- No call of the manager changes what jobs were created with. -/
theorem wp_service (p : Program ServiceOp ServiceOp.Answer α) :
    Program.wp (engineTerms urls).service p (fun _ t => t.created = view.created) view := by
  have kept : ∀ v : Origins, v.created = view.created →
      Program.wp (engineTerms urls).service p (fun _ t => t.created = view.created) v := by
    induction p with
    | done value => exact fun v same => same
    | step op next ih =>
      intro v same
      refine ⟨trivial, fun answer t ensured => ih answer t ?_⟩
      rw [(service_created ensured).1, same]
  exact kept view rfl

/-- Operations of the main task that read and set no engine. -/
def CommandOp.Plain : CommandOp urls → Prop
  | .engineOf _ | .queueCreated _ _ | .queueAgain _ _ => False
  | _ => True

theorem wp_plain {op : CommandOp urls} {Q : Except String op.Answer → Origins → Prop}
    (plain : op.Plain) (h : ∀ answer, Q (.ok answer) view) :
    wp (engineTerms urls).spec (Handler.own op) Q view := by
  cases op with
  | engineOf _ | queueCreated _ _ | queueAgain _ _ => exact plain.elim
  | _ =>
    refine ⟨trivial, ?_⟩
    intro answer t (same : t = view)
    rw [same]
    exact h answer

variable {Q : Except String α → Origins → Prop}

theorem wp_plain_bind {op : CommandOp urls} {next : op.Answer → Handler urls α} (plain : op.Plain)
    (h : ∀ answer, wp (engineTerms urls).spec (next answer) Q view) :
    wp (engineTerms urls).spec (Handler.own op >>= next) Q view := by
  rw [wp_bind]
  exact wp_plain plain h

theorem wp_engineOf {next : JobEngine → Handler urls Unit} {Q : Except String Unit → Origins → Prop}
    (h : ∀ engine, view.Recovers id engine →
      wp (engineTerms urls).spec (next engine) Q view) :
    wp (engineTerms urls).spec (Handler.own (.engineOf id) >>= next) Q view := by
  rw [wp_bind]
  refine ⟨trivial, ?_⟩
  intro answer t ensured
  rw [show t = view from ensured.1]
  exact h answer ensured.2

theorem wp_read {result : Except String α} (h : Q result view) :
    wp (engineTerms urls).spec (Handler.ofExcept result) Q view := h

/-- A job returns to the queue with the engine that was worked out before the call. -/
theorem wp_returns {operation : Operation} {message : String} {engine : JobEngine}
    (recovers : view.Recovers id engine) :
    wp (engineTerms urls).spec
      (Handler.manager operation message >>= fun _ => Handler.own (.queueAgain id engine))
      (fun _ _ => True) view := by
  rw [wp_bind]
  apply wp_manager trivial (wp_service _)
  rintro (error | event) t created
  · trivial
  · refine ⟨?_, fun _ _ _ => trivial⟩
    intro used known
    rw [created] at known
    exact recovers used known

theorem resume_recovers :
    wp (engineTerms urls).spec (Handler.resume id) (fun _ _ => True) view := by
  unfold Handler.resume
  apply wp_plain_bind
  · trivial
  intro active
  split
  · trivial
  apply wp_engineOf
  intro engine recovers
  apply wp_plain_bind
  · trivial
  intro job
  split
  · trivial
  apply wp_plain_bind
  · trivial
  intro checked
  split
  · trivial
  · trivial
  · exact wp_returns recovers

theorem retry_recovers :
    wp (engineTerms urls).spec (Handler.retry id) (fun _ _ => True) view := by
  unfold Handler.retry
  apply wp_plain_bind
  · trivial
  intro active
  split
  · trivial
  apply wp_engineOf
  intro engine recovers
  exact wp_returns recovers

theorem restart_recovers :
    wp (engineTerms urls).spec (Handler.restart id) (fun _ _ => True) view := by
  unfold Handler.restart
  apply wp_plain_bind
  · trivial
  intro active
  split
  · trivial
  apply wp_engineOf
  intro engine recovers
  apply wp_plain_bind
  · trivial
  intro job
  split
  · trivial
  apply wp_plain_bind
  · trivial
  intro reset
  split
  · trivial
  · exact wp_returns recovers

theorem pause_plain :
    wp (engineTerms urls).spec (Handler.pause id) (fun _ _ => True) view := by
  unfold Handler.pause
  apply wp_plain_bind
  · trivial
  intro active
  split
  · rw [wp_bind]
    apply wp_plain
    · trivial
    intro accepted
    rw [andThen_ok]
    split <;> trivial
  · rw [wp_bind]
    apply wp_manager trivial (wp_service _)
    rintro (error | event) t _ <;> trivial

theorem cancel_plain :
    wp (engineTerms urls).spec (Handler.cancel id) (fun _ _ => True) view := by
  unfold Handler.cancel
  apply wp_plain_bind
  · trivial
  intro active
  split
  · exact wp_plain trivial fun _ => trivial
  · rw [wp_bind]
    apply wp_manager trivial (wp_service _)
    rintro (error | event) t _ <;> trivial

theorem saveStatus_plain :
    wp (engineTerms urls).spec (Handler.saveStatus id) (fun _ _ => True) view := by
  unfold Handler.saveStatus
  apply wp_plain_bind
  · trivial
  intro output
  split
  · trivial
  rw [wp_bind]
  apply wp_manager trivial (wp_service _)
  rintro (error | event) t _
  · trivial
  · exact wp_plain trivial fun _ => trivial

theorem wp_manages {ε : Type} {op : ManagerOp} {Q : Except ε op.Answer → Origins → Prop}
    (h : ∀ answer, Q (.ok answer) view) :
    wp (engineTerms urls).service (manage (perform op)) Q view := by
  refine ⟨trivial, ?_⟩
  intro answer t (same : t = view)
  rw [same]
  exact h answer

/-- The repository gives a new job an identifier that no job of this run was created with. -/
theorem create_names (download : NewDownload) (known : view.Known) :
    Program.wp (engineTerms urls).service (Operation.create download).program.run
      (fun result t => ∀ event, result = .ok (some event) →
        (∀ engine, ¬ t.created (Handler.downloadId event) engine) ∧
          t.stored (Handler.downloadId event)) view := by
  change wp (engineTerms urls).service (Operation.create download).program _ _
  unfold Operation.program Core.create
  rw [Fallible.wp_adapt, wp_map]
  apply wp_withServiceLock (fun _ => ⟨trivial, fun _ _ same => same⟩)
    fun _ => ⟨trivial, fun _ _ same => same⟩
  rw [wp_bind]
  apply wp_manages
  intro createdAt
  rw [andThen_ok, wp_bind]
  refine ⟨trivial, ?_⟩
  intro row t ⟨created, _, named⟩
  cases row with
  | error error => exact fun event failed => nomatch failed
  | ok job =>
    obtain ⟨free, stored⟩ := named job rfl
    change andThen _ _ (.ok job) _
    rw [andThen_ok, wp_bind]
    apply wp_manages
    intro listed
    rw [andThen_ok]
    split
    · exact fun event failed => nomatch failed
    rw [wp_bind]
    apply wp_manages
    intro _ event returned
    cases returned
    refine ⟨fun engine before => free ?_, stored⟩
    rw [created] at before
    exact known _ _ before

theorem queueNew_names (download : NewDownload) (engine : JobEngine) (known : view.Known) :
    wp (engineTerms urls).spec (Handler.queueNew download engine) (fun _ _ => True)
      view := by
  unfold Handler.queueNew
  rw [wp_bind]
  apply wp_manager trivial (create_names download known)
  rintro (error | event) t named
  · trivial
  change wp (engineTerms urls).spec _ _ _
  split
  · rename_i event
    exact ⟨named event rfl, fun _ _ _ => trivial⟩
  · trivial

theorem captured_plain (candidate : CandidateId) :
    wp (engineTerms urls).spec (Handler.captured candidate) (fun _ t => t = view)
      view := by
  unfold Handler.captured
  apply wp_plain_bind
  · trivial
  intro catalog
  split
  · rfl
  split
  · rfl
  rw [wp_bind]
  apply wp_read
  rename_i found _
  cases captureEngine found <;> rfl

theorem downloadCapture_names (wording : Wording urls) (candidate : CandidateId)
    (directory : String) (track : Option CaptureTrackChoice) (known : view.Known) :
    wp (engineTerms urls).spec (Handler.downloadCapture wording candidate directory track)
      (fun _ _ => True) view := by
  unfold Handler.downloadCapture
  rw [wp_bind]
  apply wp_mono (captured_plain candidate)
  rintro (error | ⟨found, engine⟩) t same
  · trivial
  rw [same, andThen_ok]
  rw [wp_bind]
  apply wp_read
  cases Daemon.chosenTrack found track with
  | error error => trivial
  | ok chosen =>
    rw [andThen_ok, wp_bind]
    apply wp_mono (queueNew_names _ engine known)
    rintro (error | queued) u _
    · trivial
    · exact wp_plain trivial fun _ => trivial

theorem downloadRequested_names (wording : Wording urls) (request : DownloadRequest urls)
    (known : view.Known) :
    wp (engineTerms urls).spec (Handler.downloadRequested wording request)
      (fun _ _ => True) view := by
  unfold Handler.downloadRequested
  apply wp_plain_bind
  · trivial
  intro directory
  split
  · trivial
  rw [wp_bind]
  apply wp_read
  cases captureChoice request.candidate request.format request.filename with
  | error error => trivial
  | ok choice =>
    rw [andThen_ok]
    apply wp_plain_bind
    · trivial
    intro jobs
    split
    · trivial
    · exact downloadCapture_names wording _ _ _ known

theorem noticing_names {handler : Handler urls Unit}
    (h : wp (engineTerms urls).spec handler (fun _ _ => True) view) :
    wp (engineTerms urls).spec (Handler.noticing handler) (fun _ _ => True) view := by
  change Program.wp _ (handler.run >>= _) _ _
  rw [Program.wp_bind]
  apply Program.wp_mono h
  rintro (error | done) t _
  · exact wp_plain trivial fun _ => trivial
  · trivial

theorem withId_names {value : Int} {handler : DownloadId → Handler urls Unit}
    (h : ∀ id, wp (engineTerms urls).spec (handler id) (fun _ _ => True) view) :
    wp (engineTerms urls).spec (Command.withId value handler) (fun _ _ => True)
      view := by
  unfold Command.withId
  rw [wp_bind]
  apply wp_read
  cases Command.downloadId value with
  | error error => trivial
  | ok id => exact h id

/-- A command creates only new jobs, and returns a job to the queue only with the engine
that was worked out for it. -/
theorem handle_names (wording : Wording urls) (command : Command) (known : view.Known) :
    wp (engineTerms urls).spec (command.handle wording) (fun _ _ => True) view := by
  cases command with
  | create input =>
    unfold Command.handle
    rw [wp_bind]
    apply wp_read
    cases input.read urls with
    | error error => trivial
    | ok created => exact queueNew_names created.1 created.2 known
  | pause value => exact withId_names fun _ => pause_plain
  | resume value => exact withId_names fun _ => resume_recovers
  | retry value => exact withId_names fun _ => retry_recovers
  | restart value => exact withId_names fun _ => restart_recovers
  | cancel value => exact withId_names fun _ => cancel_plain
  | saveStatus value => exact withId_names fun _ => saveStatus_plain
  | downloadCapture candidate directory track =>
    exact downloadCapture_names wording candidate directory track known
  | captures =>
    unfold Command.handle
    rw [wp_bind]
    apply wp_plain
    · trivial
    exact fun changed => trivial

end

end Gunda.Gundad

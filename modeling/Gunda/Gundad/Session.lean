import Gunda.Gundad.Requests

/-!
# Captures and requests over a run

The listener records reports and passes requests on with the capture it found; the
daemon handles them in order, between commands, scheduling and the changes its workers
make to jobs. A capture keeps its URL and its kind under its identifier.
-/
namespace Gunda.Gundad

open Gunda.Lib Gunda.Lib.Text
open Gunda.Core
open Gunda.Capture (Refusal)

variable {urls : UrlCrate}
variable {a b : Candidate urls} {catalog : Catalog urls} {daemon created : Daemon urls}
    {answer : Option (DownloadId × OffsetDateTime)} {id : DownloadId} {wording : Wording urls}
    {captureId : CandidateId} {directory : String} {track : Option CaptureTrackChoice}

/-- A request that was answered with a download. -/
structure Answered where
  url : Url
  selection : Option Text
  id : DownloadId
  deriving DecidableEq

structure Session (urls : UrlCrate) where
  daemon : Daemon urls
  /-- `DownloadRequested` events the daemon has not handled yet. -/
  requests : List (DownloadRequest urls)
  answered : List Answered

/-- The URL and the selection a request asks for. -/
def DownloadRequest.asks (request : DownloadRequest urls) : Except String (Url × Option Text) :=
  (captureChoice request.candidate request.format request.filename).map fun choice =>
    (request.selectedUrl choice, DownloadRequest.chosenSelection choice)

/-- What is noted of a request and its reply. -/
def DownloadRequest.noted (request : DownloadRequest urls) (reply : Except Refusal DownloadId) :
    List Answered :=
  match request.asks, reply with
  | .ok (url, selection), .ok id => [⟨url, selection, id⟩]
  | _, _ => []

namespace Daemon

/-- The engine a job runs on, or will run on when it is scheduled next. -/
def engineOf (daemon : Daemon urls) (job : DownloadJob) : JobEngine :=
  ((daemon.activeJobs job.id).or (daemon.pendingEngines job.id)).getD
    (engineFor urls job.request.url (job.resource.map (·.kind)))

/-- One round of `schedule_jobs` that starts this job. -/
def scheduled (daemon : Daemon urls) (job : DownloadJob) : Daemon urls :=
  { daemon with
    activeJobs := fun other =>
      if other = job.id then
        some ((daemon.pendingEngines job.id).getD
          (engineFor urls job.request.url (job.resource.map (·.kind))))
      else daemon.activeJobs other
    pendingEngines := fun other =>
      if other = job.id then none else daemon.pendingEngines other }

def finished (daemon : Daemon urls) (id : DownloadId) : Daemon urls :=
  { daemon with
    activeJobs := fun other => if other = id then none else daemon.activeJobs other }

/-- A worker or a command replaces a job; its identifier and its request stay. -/
def changed (daemon : Daemon urls) (job : DownloadJob) : Daemon urls :=
  { daemon with
    jobs := daemon.jobs.map fun old =>
      if old.id = job.id then { job with id := old.id, request := old.request } else old }

/-- `Command::Create`, once its fields were read. -/
def commanded (daemon : Daemon urls) (download : NewDownload) (engine : JobEngine)
    (answer : Option (DownloadId × OffsetDateTime)) : Daemon urls :=
  match daemon.create download answer with
  | none => daemon
  | some (id, created) => { created with
      pendingEngines := fun other =>
        if other = id then some engine else created.pendingEngines other }

/-- `Command::DownloadCapture`. -/
def downloaded (wording : Wording urls) (daemon : Daemon urls) (id : CandidateId)
    (directory : String) (track : Option CaptureTrackChoice)
    (answer : Option (DownloadId × OffsetDateTime)) : Daemon urls :=
  match daemon.downloadCapture wording id directory track answer with
  | .ok (_, created) => created
  | .error _ => daemon

end Daemon

inductive Event (urls : UrlCrate) where
  | reported (report : Report urls)
  | removed (id : CandidateId)
  | cleared
  | stopped
  /-- The listener passes on a request for a capture of its catalog. -/
  | requested (request : DownloadRequest urls)
  /-- The daemon handles the next request. -/
  | handled (answer : Option (DownloadId × OffsetDateTime))
  | downloaded (id : CandidateId) (directory : String) (track : Option CaptureTrackChoice)
      (answer : Option (DownloadId × OffsetDateTime))
  | commanded (download : NewDownload) (engine : JobEngine)
      (answer : Option (DownloadId × OffsetDateTime))
  | changed (job : DownloadJob)
  | scheduled (job : DownloadJob)
  | finished (id : DownloadId)

namespace Session

def step (wording : Wording urls) (session : Session urls) : Event urls → Option (Session urls)
  | .reported report => session.daemon.capture.map fun catalog =>
      { session with daemon := { session.daemon with capture := some (catalog.record report).1 } }
  | .removed id => session.daemon.capture.map fun catalog =>
      { session with daemon := { session.daemon with capture := some (catalog.remove id) } }
  | .cleared => session.daemon.capture.map fun catalog =>
      { session with daemon := { session.daemon with capture := some catalog.clear } }
  | .stopped => some { session with daemon := { session.daemon with capture := none } }
  | .requested request =>
      if session.daemon.capture.any fun catalog => request.candidate ∈ catalog.candidates then
        some { session with requests := session.requests ++ [request] }
      else none
  | .handled answer =>
      match session.requests with
      | [] => none
      | request :: requests =>
          let handled := handleDownloadRequested wording session.daemon request answer
          some
            { daemon := handled.2
              requests := requests
              answered := session.answered ++ request.noted handled.1 }
  | .downloaded id directory track answer => some { session with
      daemon := session.daemon.downloaded wording id directory track answer }
  | .commanded download engine answer => some { session with
      daemon := session.daemon.commanded download engine answer }
  | .changed job => some { session with daemon := session.daemon.changed job }
  | .scheduled job =>
      if job ∈ session.daemon.jobs ∧ job.state = .queued ∧
          session.daemon.activeJobs job.id = none then
        some { session with daemon := session.daemon.scheduled job }
      else none
  | .finished id => some { session with daemon := session.daemon.finished id }

/-- A daemon whose repository held these jobs, with a capture channel that starts empty. -/
def start (jobs : List DownloadJob) (capacity : Nat) : Session urls where
  daemon :=
    { jobs := jobs
      activeJobs := fun _ => none
      pendingEngines := fun _ => none
      capture := some (Catalog.new urls capacity)
      captureTracks := none
      lastDownloadDirectory := none
      inspectionSequence := 0
      notice := none }
  requests := []
  answered := []

/-- The captures of the catalog, and those the requests carry. -/
def known (session : Session urls) : List (Candidate urls) :=
  (session.daemon.capture.elim [] fun catalog => catalog.candidates) ++
    session.requests.map (·.candidate)

end Session

/-- An identifier is left for one more capture. -/
def Unsaturated (session : Session urls) (event : Event urls) : Prop :=
  match event with
  | .reported _ => ∀ catalog ∈ session.daemon.capture, catalog.nextId < Stream.maxU64
  | _ => True

instance (session : Session urls) (event : Event urls) : Decidable (Unsaturated session event) :=
  match event with
  | .reported _ => inferInstanceAs (Decidable (∀ catalog ∈ session.daemon.capture, _))
  | .removed _ | .cleared | .stopped | .requested _ | .handled _ | .downloaded _ _ _ _
  | .commanded _ _ _ | .changed _ | .scheduled _ | .finished _ => isTrue trivial

/-! ## The catalog -/

/-- The same capture, perhaps reported again since. -/
structure Candidate.SameAs (a b : Candidate urls) : Prop where
  id : a.id = b.id
  url : a.url = b.url
  kind : a.kind = b.kind

theorem Candidate.SameAs.refl (a : Candidate urls) : a.SameAs a := ⟨rfl, rfl, rfl⟩

theorem Candidate.SameAs.symm (h : a.SameAs b) : b.SameAs a :=
  ⟨h.id.symm, h.url.symm, h.kind.symm⟩

theorem Candidate.SameAs.trans {c : Candidate urls} (h : a.SameAs b) (g : b.SameAs c) :
    a.SameAs c :=
  ⟨h.id.trans g.id, h.url.trans g.url, h.kind.trans g.kind⟩

theorem Candidate.reported_same (candidate : Candidate urls) (report : Report urls) :
    (candidate.reported report).SameAs candidate := ⟨rfl, rfl, rfl⟩

theorem Catalog.updateFirst_same {report : Report urls} {candidates updated : List (Candidate urls)}
    {id : CandidateId} (h : Catalog.updateFirst report candidates = some (id, updated)) :
    ∀ c ∈ updated, ∃ old ∈ candidates, c.SameAs old := by
  induction candidates generalizing updated with
  | nil => cases h
  | cons candidate rest ih =>
    simp only [Catalog.updateFirst] at h
    split at h
    · cases h
      intro c member
      rcases List.mem_cons.mp member with same | later
      · rw [same]
        exact ⟨candidate, List.mem_cons_self, candidate.reported_same report⟩
      · exact ⟨c, List.mem_cons_of_mem _ later, .refl c⟩
    · obtain ⟨⟨other, updated'⟩, found, same⟩ := Option.map_eq_some_iff.mp h
      cases same
      intro c member
      rcases List.mem_cons.mp member with same | later
      · rw [same]
        exact ⟨candidate, List.mem_cons_self, .refl candidate⟩
      · obtain ⟨old, inside, same⟩ := ih found c later
        exact ⟨old, List.mem_cons_of_mem _ inside, same⟩

/-- A recorded report leaves known captures what they were, or adds one with the next
identifier. -/
theorem Catalog.record_same (catalog : Catalog urls) (report : Report urls) :
    ∀ c ∈ (catalog.record report).1.candidates,
      (∃ old ∈ catalog.candidates, c.SameAs old) ∨
        (c = report.candidate catalog.nextId ∧
          (catalog.record report).1.nextId = Stream.saturatingAdd catalog.nextId 1) := by
  unfold Catalog.record
  split
  · rename_i found
    intro c member
    exact .inl (Catalog.updateFirst_same found c member)
  · intro c member
    rcases List.mem_cons.mp (List.mem_of_mem_take member) with same | later
    · rw [same]
      exact .inr ⟨rfl, rfl⟩
    · exact .inl ⟨c, later, .refl c⟩

theorem Catalog.nextId_le_record (catalog : Catalog urls) (report : Report urls)
    (room : catalog.nextId < Stream.maxU64) :
    catalog.nextId ≤ (catalog.record report).1.nextId := by
  unfold Catalog.record
  split
  · exact Nat.le_refl _
  · exact Nat.le_min.mpr ⟨Nat.le_succ _, Nat.le_of_lt room⟩

theorem Catalog.get_eq_some {id : CandidateId} {c : Candidate urls} (h : catalog.get id = some c) :
    c.id = id ∧ c ∈ catalog.candidates :=
  ⟨by simpa using List.find?_some h, List.mem_of_find?_eq_some h⟩

/-! ## Jobs -/

/-- What a job was created for. -/
def request_of (job : DownloadJob) : DownloadId × RequestContext := (job.id, job.request)

/-- No job is forgotten, and none changes what it was created for. -/
def Kept (before after : List DownloadJob) : Prop :=
  (before.map request_of) ⊆ (after.map request_of)

theorem Kept.refl (jobs : List DownloadJob) : Kept jobs jobs := List.Subset.refl _

theorem Kept.trans {a b c : List DownloadJob} (first : Kept a b) (second : Kept b c) : Kept a c :=
  List.Subset.trans first second

theorem Daemon.changed_requests (daemon : Daemon urls) (job : DownloadJob) :
    (daemon.changed job).jobs.map request_of = daemon.jobs.map request_of := by
  simp only [Daemon.changed, List.map_map]
  apply List.map_congr_left
  intro old _
  simp only [Function.comp, request_of]
  split <;> rfl

/-- A created job is new, and is the only thing that changed among the jobs. -/
theorem Daemon.create_eq_some {download : NewDownload}
    (h : daemon.create download answer = some (id, created)) :
    daemon.job id = none ∧ ∃ createdAt,
      created = { daemon with
        jobs := daemon.jobs.orderedInsert (fun a b => a.id.value ≤ b.id.value)
          (DownloadJob.new id download createdAt) } := by
  unfold Daemon.create at h
  cases answer with
  | none => cases h
  | some given =>
    obtain ⟨other, createdAt⟩ := given
    simp only at h
    split at h
    · cases h
    · rename_i fresh
      cases h
      exact ⟨Option.not_isSome_iff_eq_none.mp fresh, createdAt, rfl⟩

variable {jobs : List DownloadJob}

theorem mem_inserted {job other : DownloadJob} :
    other ∈ jobs.orderedInsert (fun a b => a.id.value ≤ b.id.value) job ↔
      other = job ∨ other ∈ jobs :=
  List.mem_orderedInsert _

theorem kept_inserted (jobs : List DownloadJob) (job : DownloadJob) :
    Kept jobs (jobs.orderedInsert (fun a b => a.id.value ≤ b.id.value) job) := by
  intro pair member
  obtain ⟨other, inside, same⟩ := List.mem_map.mp member
  exact List.mem_map.mpr ⟨other, mem_inserted.mpr (.inr inside), same⟩

theorem distinct_inserted {job : DownloadJob} (distinct : (jobs.map (·.id)).Nodup)
    (fresh : ∀ other ∈ jobs, other.id ≠ job.id) :
    ((jobs.orderedInsert (fun a b => a.id.value ≤ b.id.value) job).map (·.id)).Nodup := by
  have order := (List.perm_orderedInsert (fun a b : DownloadJob => a.id.value ≤ b.id.value)
    job jobs).map (·.id)
  rw [order.nodup_iff, List.map_cons, List.nodup_cons]
  refine ⟨?_, distinct⟩
  intro member
  obtain ⟨other, inside, same⟩ := List.mem_map.mp member
  exact fresh other inside same

theorem Daemon.not_mem_of_job (fresh : daemon.job id = none) :
    ∀ other ∈ daemon.jobs, other.id ≠ id := by
  intro other inside same
  have missing := List.find?_eq_none.mp fresh other inside
  simp [same] at missing

/-! ## What a handled request does -/

theorem Daemon.downloadCapture_ok
    (h : daemon.downloadCapture wording captureId directory track answer = .ok (id, created)) :
    ∃ catalog candidate engine url filename selection download inserted,
      daemon.capture = some catalog ∧ catalog.get captureId = some candidate ∧
      captureEngine candidate = .ok engine ∧
      chosenTrack candidate track = .ok (url, filename, selection) ∧
      download.request = ⟨url, [], selection⟩ ∧
      daemon.create download answer = some (id, inserted) ∧
      created = inserted.queued id engine directory := by
  unfold Daemon.downloadCapture at h
  obtain ⟨⟨candidate, engine⟩, found, h⟩ := bind_ok h
  obtain ⟨⟨url, filename, selection⟩, chosen, h⟩ := bind_ok h
  unfold Daemon.captured Daemon.captureHandle at found
  cases channel : daemon.capture with
  | none =>
    rw [channel] at found
    cases found
  | some catalog =>
    rw [channel, ok_bind] at found
    split at found
    · cases found
    · rename_i other got
      obtain ⟨engine', fits, found⟩ := bind_ok found
      cases found
      simp only at h
      split at h
      · cases h
      · rename_i id' inserted made
        cases h
        exact ⟨catalog, candidate, engine, url, filename, selection, _, inserted, rfl, got, fits,
          chosen, rfl, made, rfl⟩

/-- A request is refused, answered with a job in progress, or given a new job. -/
inductive Handled (wording : Wording urls) (daemon : Daemon urls) (request : DownloadRequest urls)
    (answer : Option (DownloadId × OffsetDateTime)) :
    Except Refusal DownloadId → Daemon urls → Prop where
  | refused (message : String) :
      Handled wording daemon request answer (.error .captureUnavailable)
        { daemon with notice := some message }
  | existing (choice : Option CaptureTrackChoice) (job : DownloadJob)
      (chosen : captureChoice request.candidate request.format request.filename = .ok choice)
      (found : daemon.jobs.find? (alreadyActive (request.selectedUrl choice)) = some job) :
      Handled wording daemon request answer (.ok job.id) daemon
  | created (choice : Option CaptureTrackChoice) (directory : String) (id : DownloadId)
      (created : Daemon urls)
      (chosen : captureChoice request.candidate request.format request.filename = .ok choice)
      (absent : daemon.jobs.find? (alreadyActive (request.selectedUrl choice)) = none)
      (made : daemon.downloadCapture wording request.candidate.id directory choice answer
        = .ok (id, created)) :
      Handled wording daemon request answer (.ok id) created

theorem handled_cases (wording : Wording urls) (daemon : Daemon urls)
    (request : DownloadRequest urls) (answer : Option (DownloadId × OffsetDateTime)) :
    Handled wording daemon request answer
      (handleDownloadRequested wording daemon request answer).1
      (handleDownloadRequested wording daemon request answer).2 := by
  unfold handleDownloadRequested
  split
  · exact .refused _
  · rename_i directory _
    split
    · exact .refused _
    · rename_i choice chosen
      split
      · rename_i job found
        exact .existing choice job chosen found
      · rename_i absent
        split
        · rename_i id created made
          exact .created choice directory id created chosen absent made
        · exact .refused _

/-- Creating a job keeps the captures, adds the job and no other. -/
structure Grown (before after : Daemon urls) : Prop where
  capture : after.capture = before.capture
  kept : Kept before.jobs after.jobs
  distinct : (before.jobs.map (·.id)).Nodup → (after.jobs.map (·.id)).Nodup

theorem Grown.refl (daemon : Daemon urls) : Grown daemon daemon := ⟨rfl, .refl _, id⟩

theorem grown_create {download : NewDownload}
    (h : daemon.create download answer = some (id, created)) : Grown daemon created := by
  obtain ⟨fresh, createdAt, same⟩ := Daemon.create_eq_some h
  rw [same]
  exact ⟨rfl, kept_inserted _ _, fun distinct =>
    distinct_inserted distinct (Daemon.not_mem_of_job fresh)⟩

theorem grown_downloadCapture
    (h : daemon.downloadCapture wording captureId directory track answer = .ok (id, created)) :
    Grown daemon created := by
  obtain ⟨_, _, engine, _, _, _, _, inserted, _, _, _, _, _, made, same⟩ :=
    Daemon.downloadCapture_ok h
  have grown := grown_create made
  rw [same]
  exact ⟨grown.capture, grown.kept, grown.distinct⟩

theorem Handled.grown {after : Daemon urls} {request : DownloadRequest urls}
    {reply : Except Refusal DownloadId}
    (handled : Handled wording daemon request answer reply after) :
    Grown daemon after := by
  cases handled with
  | refused message => exact ⟨rfl, .refl _, id⟩
  | existing choice job chosen found => exact .refl _
  | created choice directory id created chosen absent made => exact grown_downloadCapture made

theorem grown_downloaded (wording : Wording urls) (daemon : Daemon urls) (id : CandidateId)
    (directory : String) (track : Option CaptureTrackChoice)
    (answer : Option (DownloadId × OffsetDateTime)) :
    Grown daemon (daemon.downloaded wording id directory track answer) := by
  unfold Daemon.downloaded
  split
  · rename_i made
    exact grown_downloadCapture made
  · exact .refl _

theorem grown_commanded (daemon : Daemon urls) (download : NewDownload) (engine : JobEngine)
    (answer : Option (DownloadId × OffsetDateTime)) :
    Grown daemon (daemon.commanded download engine answer) := by
  unfold Daemon.commanded
  split
  · exact .refl _
  · rename_i made
    have grown := grown_create made
    exact ⟨grown.capture, grown.kept, grown.distinct⟩

theorem grown_changed (daemon : Daemon urls) (job : DownloadJob) :
    Grown daemon (daemon.changed job) := by
  have requests := Daemon.changed_requests daemon job
  refine ⟨rfl, ?_, ?_⟩
  · unfold Kept
    rw [requests]
    exact List.Subset.refl _
  · intro distinct
    have ids : (daemon.changed job).jobs.map (·.id) = daemon.jobs.map (·.id) := by
      have firsts := congrArg (List.map Prod.fst) requests
      simpa only [List.map_map, Function.comp_def, request_of] using firsts
    rw [ids]
    exact distinct

/-! ## Invariants of a run -/

structure Session.Sound (session : Session urls) : Prop where
  distinct : (session.daemon.jobs.map (·.id)).Nodup
  issued : ∀ catalog ∈ session.daemon.capture, ∀ c ∈ session.known, c.id < catalog.nextId
  same : ∀ a ∈ session.known, ∀ b ∈ session.known, a.id = b.id → a.SameAs b

/-- What is known later was known before, or its identifier was still to be issued. -/
structure Renewed (before after : Session urls) : Prop where
  later : ∀ catalog ∈ after.daemon.capture, ∃ old ∈ before.daemon.capture,
    old.nextId ≤ catalog.nextId
  known : ∀ c ∈ after.known, (∃ old ∈ before.known, c.SameAs old) ∨
    ∃ catalog ∈ before.daemon.capture, catalog.nextId ≤ c.id
  kept : Kept before.daemon.jobs after.daemon.jobs

theorem Renewed.refl (session : Session urls) : Renewed session session :=
  ⟨fun catalog member => ⟨catalog, member, Nat.le_refl _⟩,
    fun c member => .inl ⟨c, member, .refl c⟩, .refl _⟩

theorem Renewed.trans {a b c : Session urls} (first : Renewed a b) (second : Renewed b c) :
    Renewed a c := by
  refine ⟨?_, ?_, first.kept.trans second.kept⟩
  · intro catalog member
    obtain ⟨middle, inside, le⟩ := second.later catalog member
    obtain ⟨old, outside, le'⟩ := first.later middle inside
    exact ⟨old, outside, Nat.le_trans le' le⟩
  · intro candidate member
    rcases second.known candidate member with ⟨middle, inside, same⟩ | ⟨catalog, inside, le⟩
    · rcases first.known middle inside with ⟨old, outside, same'⟩ | ⟨catalog, outside, le⟩
      · exact .inl ⟨old, outside, same.trans same'⟩
      · rw [same.id]
        exact .inr ⟨catalog, outside, le⟩
    · obtain ⟨old, outside, le'⟩ := first.later catalog inside
      exact .inr ⟨old, outside, Nat.le_trans le' le⟩

/-- A capture known before and one known later under its identifier are the same. -/
theorem Renewed.same {before after : Session urls} (renewed : Renewed before after)
    (sound : before.Sound) (earlier : a ∈ before.known) (later : b ∈ after.known)
    (ids : a.id = b.id) : a.SameAs b := by
  rcases renewed.known b later with ⟨old, inside, same⟩ | ⟨catalog, inside, le⟩
  · exact (sound.same a earlier old inside (ids.trans same.id)).trans same.symm
  · have less := sound.issued catalog inside a earlier
    rw [ids] at less
    exact absurd le (Nat.not_le.mpr less)

/-- A step that knows no new captures. -/
theorem renewed_of_grown {before after : Session urls} (sound : before.Sound)
    (grown : Grown before.daemon after.daemon) (fewer : ∀ c ∈ after.known, c ∈ before.known) :
    after.Sound ∧ Renewed before after := by
  refine ⟨⟨grown.distinct sound.distinct, ?_, ?_⟩, ?_, ?_, grown.kept⟩
  · rw [grown.capture]
    exact fun catalog inside c member => sound.issued catalog inside c (fewer c member)
  · exact fun a first b second => sound.same a (fewer a first) b (fewer b second)
  · rw [grown.capture]
    exact fun catalog inside => ⟨catalog, inside, Nat.le_refl _⟩
  · exact fun c member => .inl ⟨c, fewer c member, .refl c⟩

variable {session : Session urls}

theorem known_of_capture (channel : session.daemon.capture = some catalog) :
    session.known = catalog.candidates ++ session.requests.map (·.candidate) := by
  simp [Session.known, channel]

/-- A catalog whose captures were known keeps the session what it was. -/
theorem renewed_of_catalog {later : Catalog urls} (sound : session.Sound)
    (channel : session.daemon.capture = some catalog) (grows : catalog.nextId ≤ later.nextId)
    (fresh : Candidate urls → Prop) (one : ∀ a b, fresh a → fresh b → a = b)
    (issues : ∀ a, fresh a → a.id = catalog.nextId)
    (known : ∀ c ∈ later.candidates, (∃ old ∈ catalog.candidates, c.SameAs old) ∨
      (fresh c ∧ catalog.nextId < later.nextId)) :
    Session.Sound { session with daemon := { session.daemon with capture := some later } } ∧
      Renewed session { session with daemon := { session.daemon with capture := some later } } := by
  have before := known_of_capture channel
  have traced : ∀ c ∈ later.candidates ++ session.requests.map (·.candidate),
      (∃ old ∈ session.known, c.SameAs old) ∨
        (fresh c ∧ catalog.nextId < later.nextId) := by
    intro c member
    rw [before]
    rcases List.mem_append.mp member with listed | asked
    · rcases known c listed with ⟨old, inside, same⟩ | new
      · exact .inl ⟨old, List.mem_append_left _ inside, same⟩
      · exact .inr new
    · exact .inl ⟨c, List.mem_append_right _ asked, .refl c⟩
  have below : ∀ c ∈ session.known, c.id < catalog.nextId := sound.issued catalog channel
  refine ⟨⟨sound.distinct, ?_, ?_⟩, ?_, ?_, .refl _⟩
  · intro other same c member
    cases same
    rcases traced c member with ⟨old, inside, same⟩ | ⟨new, less⟩
    · rw [same.id]
      exact Nat.lt_of_lt_of_le (below old inside) grows
    · rw [issues c new]
      exact less
  · intro a first b second ids
    rcases traced a first with ⟨oldA, insideA, sameA⟩ | ⟨newA, _⟩
    · rcases traced b second with ⟨oldB, insideB, sameB⟩ | ⟨newB, _⟩
      · have both := sound.same oldA insideA oldB insideB
          (sameA.id.symm.trans (ids.trans sameB.id))
        exact sameA.trans (both.trans sameB.symm)
      · have less := below oldA insideA
        rw [← sameA.id, ids, issues b newB] at less
        exact absurd less (Nat.lt_irrefl _)
    · rcases traced b second with ⟨oldB, insideB, sameB⟩ | ⟨newB, _⟩
      · have less := below oldB insideB
        rw [← sameB.id, ← ids, issues a newA] at less
        exact absurd less (Nat.lt_irrefl _)
      · rw [one a b newA newB]
        exact .refl b
  · intro other same
    cases same
    exact ⟨catalog, channel, grows⟩
  · intro c member
    rcases traced c member with old | ⟨new, _⟩
    · exact .inl old
    · exact .inr ⟨catalog, channel, Nat.le_of_eq (issues c new).symm⟩

/-- One step keeps a session sound, and every capture what it was. -/
theorem Session.Sound.step {wording : Wording urls} {session next : Session urls}
    {event : Event urls} (sound : session.Sound) (room : Unsaturated session event)
    (stepped : session.step wording event = some next) :
    next.Sound ∧ Renewed session next := by
  cases event with
  | reported report =>
    obtain ⟨catalog, channel, same⟩ := Option.map_eq_some_iff.mp stepped
    rw [← same]
    have below := room catalog channel
    refine renewed_of_catalog sound channel (catalog.nextId_le_record report below)
      (· = report.candidate catalog.nextId) ?_ ?_ ?_
    · intro a b first second
      rw [first, second]
    · intro a new
      rw [new]
      rfl
    · intro c member
      rcases catalog.record_same report c member with old | ⟨new, counted⟩
      · exact .inl old
      · rw [counted]
        exact .inr ⟨new, Nat.lt_min.mpr ⟨Nat.lt_succ_self _, below⟩⟩
  | removed id =>
    obtain ⟨catalog, channel, same⟩ := Option.map_eq_some_iff.mp stepped
    rw [← same]
    refine renewed_of_catalog sound channel (Nat.le_refl _) (fun _ => False) ?_ ?_ ?_
    · exact fun a b impossible => impossible.elim
    · exact fun a impossible => impossible.elim
    · exact fun c member => .inl ⟨c, (List.mem_filter.mp member).1, .refl c⟩
  | cleared =>
    obtain ⟨catalog, channel, same⟩ := Option.map_eq_some_iff.mp stepped
    rw [← same]
    refine renewed_of_catalog sound channel (Nat.le_refl _) (fun _ => False) ?_ ?_ ?_
    · exact fun a b impossible => impossible.elim
    · exact fun a impossible => impossible.elim
    · intro c member
      cases member
  | stopped =>
    cases stepped
    have fewer : ∀ c ∈ session.requests.map (·.candidate), c ∈ session.known :=
      fun c member => List.mem_append_right _ member
    refine ⟨⟨sound.distinct, ?_, ?_⟩, ?_, ?_, .refl _⟩
    · intro catalog impossible
      cases impossible
    · exact fun a first b second => sound.same a (fewer a first) b (fewer b second)
    · intro catalog impossible
      cases impossible
    · exact fun c member => .inl ⟨c, fewer c member, .refl c⟩
  | requested request =>
    simp only [Session.step] at stepped
    split at stepped
    · rename_i listed
      cases stepped
      refine renewed_of_grown sound (.refl _) ?_
      intro c member
      obtain ⟨catalog, channel, inside⟩ := (Option.any_eq_true _ _).mp listed
      simp only [Session.known, channel, List.map_append, List.mem_append] at member ⊢
      rcases member with old | old | new
      · exact .inl old
      · exact .inr old
      · rw [List.mem_singleton.mp new]
        exact .inl (of_decide_eq_true inside)
    · cases stepped
  | handled answer =>
    simp only [Session.step] at stepped
    split at stepped
    · cases stepped
    · rename_i request requests waiting
      cases stepped
      have grown := (handled_cases wording session.daemon request answer).grown
      refine renewed_of_grown sound grown ?_
      intro c member
      simp only [Session.known, grown.capture, waiting, List.map_cons, List.mem_append,
        List.mem_cons] at member ⊢
      rcases member with old | old
      · exact .inl old
      · exact .inr (.inr old)
  | downloaded id directory track answer =>
    cases stepped
    have grown := grown_downloaded wording session.daemon id directory track answer
    refine renewed_of_grown sound grown ?_
    intro c member
    simp only [Session.known, grown.capture] at member
    exact member
  | commanded download engine answer =>
    cases stepped
    have grown := grown_commanded session.daemon download engine answer
    refine renewed_of_grown sound grown ?_
    intro c member
    simp only [Session.known, grown.capture] at member
    exact member
  | changed job =>
    cases stepped
    exact renewed_of_grown sound (grown_changed _ job) fun c member => member
  | scheduled job =>
    simp only [Session.step] at stepped
    split at stepped
    · cases stepped
      exact renewed_of_grown sound ⟨rfl, .refl _, fun distinct => distinct⟩ fun c member => member
    · cases stepped
  | finished id =>
    cases stepped
    exact renewed_of_grown sound ⟨rfl, .refl _, fun distinct => distinct⟩ fun c member => member

theorem sound_start (distinct : (jobs.map (·.id)).Nodup) (capacity : Nat) :
    (@Session.start urls jobs capacity).Sound where
  distinct := distinct
  issued := by
    intro catalog same c member
    cases member
  same := by
    intro a member
    cases member

theorem Session.Sound.run {final : Session urls} {events : List (Event urls)}
    (sound : session.Sound)
    (room : Machine.Meets (Session.step wording) Unsaturated session events)
    (ran : Machine.run (Session.step wording) session events = some final) :
    final.Sound ∧ Renewed session final := by
  apply Machine.invariant_of_meets (I := fun state => state.Sound ∧ Renewed session state) _
    ⟨sound, .refl _⟩ room ran
  intro state event next ⟨kept, renewed⟩ unsaturated stepped
  obtain ⟨later, more⟩ := kept.step unsaturated stepped
  exact ⟨later, renewed.trans more⟩

end Gunda.Gundad

import Gunda.Gundad.Session

/-!
# Requests for what is already downloading

A request is answered with the first job of its URL that is queued or downloading. The
selection is not compared, and jobs being inspected or finalized are not seen.
-/
namespace Gunda.Gundad

open Gunda.Lib Gunda.Lib.Text
open Gunda.Core
open Gunda.Capture (Refusal)

variable {urls : UrlCrate}
variable {request : DownloadRequest urls} {url : Url} {selection : Option Text}

def inProgress : DownloadState → Bool
  | .queued | .inspecting | .downloading | .finalizing => true
  | _ => false

/-- A job for this URL and this track selection. -/
def IsFor (url : Url) (selection : Option Text) (job : DownloadJob) : Prop :=
  job.request.url = url ∧ job.request.selection.map (·.value) = selection

instance (url : Url) (selection : Option Text) (job : DownloadJob) :
    Decidable (IsFor url selection job) := inferInstanceAs (Decidable (_ ∧ _))

/-- The first queued or downloading job of the URL has the selection; where there is none,
no job for both is being inspected or finalized. -/
def Unambiguous (jobs : List DownloadJob) (url : Url) (selection : Option Text) : Prop :=
  match jobs.find? (alreadyActive url) with
  | some job => job.request.selection.map (·.value) = selection
  | none => ∀ job ∈ jobs, IsFor url selection job →
      job.state ≠ .inspecting ∧ job.state ≠ .finalizing

instance (jobs : List DownloadJob) (url : Url) (selection : Option Text) :
    Decidable (Unambiguous jobs url selection) := by
  unfold Unambiguous
  split <;> infer_instance

/-- The answer is a job for what was asked, and not a second one beside a job in progress. -/
def RightlyAnswered (daemon after : Daemon urls) (url : Url) (selection : Option Text)
    (id : DownloadId) : Prop :=
  (∃ job ∈ after.jobs, job.id = id ∧ IsFor url selection job) ∧
    (daemon.job id = none → ∀ job ∈ daemon.jobs, IsFor url selection job → ¬ inProgress job.state)

/-- Whatever a choice names, its URL is a parsed one. -/
theorem captureChoice_url {candidate : Candidate urls} {format : Option Text}
    {filename : Option String} {choice : CaptureTrackChoice}
    (h : captureChoice candidate format filename = .ok (some choice)) :
    ∃ url : ParsedUrl urls, choice.url = url.1.serialization := by
  have whole : ∀ {other : CaptureTrackChoice}, filename.map (fun filename =>
      (⟨candidate.url.1.serialization, some filename, none⟩ : CaptureTrackChoice)) = some other →
      other.url = candidate.url.1.serialization := by
    intro other same
    obtain ⟨_, _, made⟩ := Option.map_eq_some_iff.mp same
    rw [← made]
  unfold captureChoice at h
  simp only at h
  split at h
  · exact ⟨candidate.url, whole (Except.ok.inj h)⟩
  · split at h
    · split at h
      · cases h
      · split at h
        · cases h
        · rename_i variant _
          cases h
          exact ⟨variant.url, rfl⟩
    · split at h
      · cases h
        exact ⟨candidate.url, rfl⟩
      · split at h
        · exact ⟨candidate.url, whole (Except.ok.inj h)⟩
        · cases h

theorem validSelection_ok {text : Option Text} {selection : Option ExecutionSelection}
    (h : Daemon.validSelection text = .ok selection) : selection.map (·.value) = text := by
  cases text with
  | none =>
    cases h
    rfl
  | some text =>
    simp only [Daemon.validSelection] at h
    split at h
    · rename_i found
      cases h
      rw [Option.map_some, ExecutionSelection.new_eq_some found]
    · cases h

variable {choice : Option CaptureTrackChoice}

/-- A download is created for the URL and the selection its choice names. -/
theorem chosenTrack_ok {candidate : Candidate urls} {filename : Option String}
    {selection : Option ExecutionSelection} (same : candidate.url = request.candidate.url)
    (chosen : captureChoice request.candidate request.format request.filename = .ok choice)
    (h : Daemon.chosenTrack candidate choice = .ok (url, filename, selection)) :
    url = request.selectedUrl choice ∧
      selection.map (·.value) = DownloadRequest.chosenSelection choice := by
  cases choice with
  | none =>
    cases h
    exact ⟨by rw [same]; rfl, rfl⟩
  | some choice =>
    obtain ⟨given, written⟩ := captureChoice_url chosen
    simp only [Daemon.chosenTrack] at h
    obtain ⟨valid, checked, h⟩ := bind_ok h
    obtain ⟨selected, parsed, h⟩ := bind_ok h
    cases h
    rw [written] at checked
    rw [validateUrl_serialization checked]
    refine ⟨?_, validSelection_ok parsed⟩
    simp [DownloadRequest.selectedUrl, written, parseUrl_serialization]

theorem asks_ok
    (chosen : captureChoice request.candidate request.format request.filename = .ok choice)
    (asked : request.asks = .ok (url, selection)) :
    url = request.selectedUrl choice ∧ selection = DownloadRequest.chosenSelection choice := by
  unfold DownloadRequest.asks at asked
  rw [chosen] at asked
  cases asked
  exact ⟨rfl, rfl⟩

theorem job_of_mem {daemon : Daemon urls} {job : DownloadJob} (member : job ∈ daemon.jobs) :
    daemon.job job.id ≠ none := by
  intro missing
  exact Daemon.not_mem_of_job missing job member rfl

theorem same_job {jobs : List DownloadJob} (distinct : (jobs.map (·.id)).Nodup)
    {a b : DownloadJob} (first : a ∈ jobs) (second : b ∈ jobs) (same : a.id = b.id) : a = b :=
  List.inj_on_of_nodup_map distinct first second same

/-- A job that is not queued or downloading is in progress while inspected or finalized. -/
theorem inProgress_of_inactive {job : DownloadJob} (sameUrl : job.request.url = url)
    (inactive : alreadyActive url job = false) :
    inProgress job.state = true ↔ ¬ (job.state ≠ .inspecting ∧ job.state ≠ .finalizing) := by
  unfold alreadyActive at inactive
  rw [sameUrl] at inactive
  cases state : job.state <;> simp [state, inProgress] at inactive ⊢

variable {wording : Wording urls} {session : Session urls}

/-- The next request is answered rightly exactly where the jobs are unambiguous for it. -/
theorem answered_rightly_iff (sound : session.Sound)
    {answer : Option (DownloadId × OffsetDateTime)} (waiting : request ∈ session.requests)
    {id : DownloadId} (asked : request.asks = .ok (url, selection))
    (replied : (handleDownloadRequested wording session.daemon request answer).1 = .ok id) :
    RightlyAnswered session.daemon (handleDownloadRequested wording session.daemon request answer).2
        url selection id ↔
      Unambiguous session.daemon.jobs url selection := by
  have handled := handled_cases wording session.daemon request answer
  generalize (handleDownloadRequested wording session.daemon request answer).1 = reply
    at handled replied
  generalize (handleDownloadRequested wording session.daemon request answer).2 = after at handled ⊢
  cases handled with
  | refused message => cases replied
  | existing choice job chosen found =>
    cases replied
    obtain ⟨sameUrl, sameSelection⟩ := asks_ok chosen asked
    have member := List.mem_of_find?_eq_some found
    have active := List.find?_some found
    simp only [alreadyActive, Bool.and_eq_true, decide_eq_true_eq] at active
    unfold Unambiguous RightlyAnswered
    rw [sameUrl, found]
    constructor
    · rintro ⟨⟨other, inside, ids, _, selected⟩, _⟩
      rw [← same_job sound.distinct inside member ids]
      exact selected
    · intro selected
      exact ⟨⟨job, member, rfl, active.1, selected⟩, fun missing => absurd missing (job_of_mem member)⟩
  | created choice directory id created chosen absent made =>
    cases replied
    obtain ⟨sameUrl, sameSelection⟩ := asks_ok chosen asked
    obtain ⟨catalog, candidate, engine, url', filename, selection', download, inserted, channel,
      got, _, tracked, context, inserts, same⟩ := Daemon.downloadCapture_ok made
    obtain ⟨ids, listed⟩ := Catalog.get_eq_some got
    have alike := sound.same candidate
      (by rw [known_of_capture channel]; exact List.mem_append_left _ listed) request.candidate
      (List.mem_append_right _ (List.mem_map_of_mem waiting)) ids
    obtain ⟨forUrl, forSelection⟩ := chosenTrack_ok alike.url chosen tracked
    obtain ⟨fresh, createdAt, inserted'⟩ := Daemon.create_eq_some inserts
    have jobs : after.jobs = session.daemon.jobs.orderedInsert
        (fun a b => a.id.value ≤ b.id.value) (.new id download createdAt) := by
      rw [same, inserted']
      rfl
    have answered : ∃ job ∈ after.jobs, job.id = id ∧ IsFor url selection job := by
      refine ⟨DownloadJob.new id download createdAt, ?_, rfl, ?_, ?_⟩
      · rw [jobs]
        exact mem_inserted.mpr (Or.inl rfl)
      · simp only [DownloadJob.new, context, forUrl, sameUrl]
      · simp only [DownloadJob.new, context, forSelection, sameSelection]
    have inactive : ∀ job ∈ session.daemon.jobs, alreadyActive url job = false := by
      intro job member
      rw [sameUrl]
      simpa using List.find?_eq_none.mp absent job member
    unfold Unambiguous RightlyAnswered
    rw [sameUrl, absent, ← sameUrl]
    constructor
    · rintro ⟨_, alone⟩ job member isFor
      have idle := alone fresh job member isFor
      rw [inProgress_of_inactive isFor.1 (inactive job member)] at idle
      exact not_not.mp idle
    · intro clear
      refine ⟨answered, fun _ job member isFor => ?_⟩
      rw [inProgress_of_inactive isFor.1 (inactive job member)]
      exact not_not.mpr (clear job member isFor)

/-! ## Runs -/

/-- What holds of the next request where it is answered with a download. -/
def OfAnswer (wording : Wording urls) (session : Session urls) (event : Event urls)
    (holds : Url → Option Text → DownloadId → Prop) : Prop :=
  match event, session.requests with
  | .handled answer, request :: _ =>
      match request.asks, (handleDownloadRequested wording session.daemon request answer).1 with
      | .ok (url, selection), .ok id => holds url selection id
      | _, _ => True
  | _, _ => True

instance OfAnswer.decide (wording : Wording urls) (session : Session urls) (event : Event urls)
    (holds : Url → Option Text → DownloadId → Prop)
    [∀ url selection id, Decidable (holds url selection id)] :
    Decidable (OfAnswer wording session event holds) := by
  unfold OfAnswer
  split
  · split <;> infer_instance
  · infer_instance

def Unmistakable (wording : Wording urls) (session : Session urls) (event : Event urls) : Prop :=
  Unsaturated session event ∧ OfAnswer wording session event fun url selection _ =>
    Unambiguous session.daemon.jobs url selection

instance (wording : Wording urls) (session : Session urls) (event : Event urls) :
    Decidable (Unmistakable wording session event) := inferInstanceAs (Decidable (_ ∧ _))

/-- A request that is given a new job leaves no job in progress for the same beside it. -/
def NoSecondJob (wording : Wording urls) (session : Session urls) (event : Event urls) : Prop :=
  OfAnswer wording session event fun url selection id => session.daemon.job id = none →
    ∀ job ∈ session.daemon.jobs, IsFor url selection job → ¬ inProgress job.state

/-- Every request was answered with a job for what it asked. -/
def AllRight (session : Session urls) : Prop :=
  ∀ answer ∈ session.answered, ∃ job ∈ session.daemon.jobs,
    job.id = answer.id ∧ IsFor answer.url answer.selection job

theorem isFor_of_kept {before after : List DownloadJob} (kept : Kept before after)
    {id : DownloadId} (h : ∃ job ∈ before, job.id = id ∧ IsFor url selection job) :
    ∃ job ∈ after, job.id = id ∧ IsFor url selection job := by
  obtain ⟨job, member, ids, isFor⟩ := h
  obtain ⟨other, inside, same⟩ := List.mem_map.mp (kept (List.mem_map_of_mem member))
  obtain ⟨sameId, sameRequest⟩ := Prod.mk.inj same
  refine ⟨other, inside, sameId.trans ids, ?_⟩
  unfold IsFor
  rw [sameRequest]
  exact isFor

theorem mem_noted {reply : Except Refusal DownloadId} {answer : Answered}
    (member : answer ∈ request.noted reply) :
    request.asks = .ok (answer.url, answer.selection) ∧ reply = .ok answer.id := by
  unfold DownloadRequest.noted at member
  split at member
  · rename_i asked
    rw [List.mem_singleton.mp member]
    exact ⟨asked, rfl⟩
  · cases member

theorem AllRight.step {next : Session urls} {event : Event urls} (right : AllRight session)
    (sound : session.Sound) (unmistakable : Unmistakable wording session event)
    (stepped : session.step wording event = some next) :
    AllRight next ∧ NoSecondJob wording session event := by
  have kept := (sound.step unmistakable.1 stepped).2.kept
  have older : ∀ answer ∈ session.answered, ∃ job ∈ next.daemon.jobs,
      job.id = answer.id ∧ IsFor answer.url answer.selection job :=
    fun answer member => isFor_of_kept kept (right answer member)
  by_cases handling : ∃ answer, event = .handled answer
  · obtain ⟨answer, rfl⟩ := handling
    simp only [Session.step] at stepped
    split at stepped
    · cases stepped
    · rename_i request requests waiting
      cases stepped
      have inside : request ∈ session.requests := by
        rw [waiting]
        exact List.mem_cons_self
      have clear := unmistakable.2
      unfold NoSecondJob
      unfold OfAnswer at clear ⊢
      simp only [waiting] at clear ⊢
      constructor
      · intro answered member
        rcases List.mem_append.mp member with old | new
        · exact older answered old
        · obtain ⟨asked, replied⟩ := mem_noted new
          rw [asked, replied] at clear
          exact ((answered_rightly_iff sound inside asked replied).mpr clear).1
      · split
        · rename_i asked replied
          rw [asked, replied] at clear
          exact ((answered_rightly_iff sound inside asked replied).mpr clear).2
        · trivial
  · have noted : next.answered = session.answered := by
      cases event <;> simp only [Session.step] at stepped
      case handled answer => exact absurd ⟨answer, rfl⟩ handling
      case reported | removed | cleared =>
        obtain ⟨_, _, same⟩ := Option.map_eq_some_iff.mp stepped
        rw [← same]
      case requested | scheduled =>
        split at stepped
        · cases stepped
          rfl
        · cases stepped
      all_goals
        cases stepped
        rfl
    refine ⟨by unfold AllRight; rw [noted]; exact older, ?_⟩
    unfold NoSecondJob OfAnswer
    split
    · exact absurd ⟨_, rfl⟩ handling
    · trivial

theorem AllRight.run {final : Session urls} {events : List (Event urls)}
    (right : AllRight session) (sound : session.Sound)
    (met : Machine.Meets (Session.step wording) (Unmistakable wording) session events)
    (ran : Machine.run (Session.step wording) session events = some final) :
    AllRight final ∧ final.Sound ∧
      Machine.Meets (Session.step wording) (NoSecondJob wording) session events := by
  induction events generalizing session with
  | nil =>
    cases ran
    exact ⟨right, sound, trivial⟩
  | cons event events ih =>
    obtain ⟨next, stepped, ran⟩ := Option.bind_eq_some_iff.mp ran
    obtain ⟨kept, alone⟩ := right.step sound met.1 stepped
    obtain ⟨ended, soundly, later⟩ :=
      ih kept (sound.step met.1.1 stepped).1 (met.2 next stepped) ran
    exact ⟨ended, soundly, (Machine.meets_cons stepped).mpr ⟨alone, later⟩⟩

/-- Where the jobs are unambiguous for every request that is answered, requests answered with
one download asked for one URL and one selection, and no request gets a second job for what
is in progress. In every reachable state that is also what the next answer takes to be right. -/
theorem duplicate_requests {wording : Wording urls} {jobs : List DownloadJob}
    (distinct : (jobs.map (·.id)).Nodup) (capacity : Nat) {events : List (Event urls)}
    {final : Session urls}
    (ran : Machine.run (Session.step wording) (Session.start jobs capacity) events = some final) :
    (Machine.Meets (Session.step wording) (Unmistakable wording) (Session.start jobs capacity)
        events →
      (∀ a ∈ final.answered, ∀ b ∈ final.answered, a.id = b.id →
        a.url = b.url ∧ a.selection = b.selection) ∧
      Machine.Meets (Session.step wording) (NoSecondJob wording) (Session.start jobs capacity)
        events) ∧
    (Machine.Meets (Session.step wording) Unsaturated (Session.start jobs capacity) events →
      ∀ request ∈ final.requests.head?, ∀ answer url selection id,
        request.asks = .ok (url, selection) →
        (handleDownloadRequested wording final.daemon request answer).1 = .ok id →
        (RightlyAnswered final.daemon
            (handleDownloadRequested wording final.daemon request answer).2 url selection id ↔
          Unambiguous final.daemon.jobs url selection)) := by
  constructor
  · intro met
    have none_yet : AllRight (@Session.start urls jobs capacity) := by
      intro answer member
      cases member
    obtain ⟨right, sound, alone⟩ := none_yet.run (sound_start distinct capacity) met ran
    refine ⟨?_, alone⟩
    intro a first b second same
    obtain ⟨jobA, insideA, idA, urlA, selectionA⟩ := right a first
    obtain ⟨jobB, insideB, idB, urlB, selectionB⟩ := right b second
    have one := same_job sound.distinct insideA insideB (idA.trans (same.trans idB.symm))
    rw [← urlA, ← urlB, ← selectionA, ← selectionB, one]
    exact ⟨rfl, rfl⟩
  · intro room request next answer url selection id asked replied
    have sound := ((sound_start distinct capacity).run room ran).1
    exact answered_rightly_iff sound (List.mem_of_mem_head? next) asked replied

/-! ## Two qualities of one presentation -/

/-- URLs of one host, spelled as they are. -/
def cdnCrate : UrlCrate where
  parse text :=
    if "https://cdn.example/".toList.isPrefixOf text ∧ trim text = text then some ⟨text⟩ else none
  scheme _ := "https".toList
  hostStr _ := some "cdn.example".toList
  username _ := []
  password _ := none
  path url := url.serialization.drop 19
  reads_back := by
    intro text url h
    split at h
    · rename_i spelled
      cases h
      exact if_pos spelled
    · cases h
  trimmed := by
    intro text url h
    split at h
    · rename_i spelled
      cases h
      exact spelled.2
    · cases h

def masterUrl : ParsedUrl cdnCrate := ⟨⟨"https://cdn.example/v.m3u8".toList⟩, by decide⟩

def masterReport : Report cdnCrate where
  url := masterUrl
  kind := .hls
  contentType := none
  sizeBytes := none
  pageUrl := masterUrl.1
  pageTitle := none
  filename := none
  variants := []

def plainWording : Wording cdnCrate where
  formatSize := ofNat
  captureTypeName _ := "Stream".toList
  defaultDownloadDirectory := some "/downloads"
  suggestedFilename _ := some "v.mp4"
  captureFilename _ := some "v.mp4"

/-- A request for one quality of the capture. -/
def qualityRequest (format : String) : DownloadRequest cdnCrate :=
  ⟨masterReport.candidate 0, some format.toList, none, none⟩

def firstJob : DownloadId × OffsetDateTime := (⟨1, Int.one_pos⟩, 0)

/-- Both qualities are asked for while the first is still queued. -/
def twoQualities : List (Event cdnCrate) :=
  [.reported masterReport,
    .requested (qualityRequest "selection:hls:1:0:-:-:-"), .handled (some firstJob),
    .requested (qualityRequest "selection:hls:1:1:-:-:-"), .handled none]

theorem other_quality_answered :
    ∃ final, Machine.run (Session.step plainWording) (Session.start [] 256) twoQualities
        = some final ∧
      ∃ a ∈ final.answered, ∃ b ∈ final.answered, a.id = b.id ∧ a.selection ≠ b.selection := by
  have answered : (Machine.run (Session.step plainWording) (Session.start [] 256)
      twoQualities).map (·.answered) =
      some [⟨masterUrl.1, some "hls:1:0:-:-:-".toList, firstJob.1⟩,
        ⟨masterUrl.1, some "hls:1:1:-:-:-".toList, firstJob.1⟩] := by decide +kernel
  obtain ⟨final, ran, noted⟩ := Option.map_eq_some_iff.mp answered
  refine ⟨final, ran, ?_⟩
  rw [noted]
  exact ⟨_, List.mem_cons_self, _, List.mem_cons_of_mem _ List.mem_cons_self, rfl, by decide⟩

/-- The same quality asked for twice. -/
def oneQualityTwice : List (Event cdnCrate) :=
  [.reported masterReport,
    .requested (qualityRequest "selection:hls:1:0:-:-:-"), .handled (some firstJob),
    .requested (qualityRequest "selection:hls:1:0:-:-:-"), .handled none]

theorem one_quality_answered :
    ∃ final, Machine.run (Session.step plainWording) (Session.start [] 256) oneQualityTwice
        = some final ∧
      ∀ a ∈ final.answered, ∀ b ∈ final.answered, a.id = b.id →
        a.url = b.url ∧ a.selection = b.selection := by
  have possible : (Machine.run (Session.step plainWording) (Session.start [] 256)
      oneQualityTwice).isSome := by decide +kernel
  obtain ⟨final, ran⟩ := Option.isSome_iff_exists.mp possible
  have none_stored : (([] : List DownloadJob).map (·.id)).Nodup := List.nodup_nil
  exact ⟨final, ran, ((duplicate_requests none_stored 256 ran).1 (by decide +kernel)).1⟩

end Gunda.Gundad

import Gunda.Stream.Durability
import Gunda.Stream.Prepare

/-!
# Resuming unchanged media

The runs of a segmented job whose presentation and bodies stay the same: each
attempt prepares anew, with size probes that succeed or fail, and transfers until it
is stopped or fails. Saved progress is accepted again exactly where the totals of
the attempts agree.
-/
namespace Gunda.Stream

open Gunda.Lib Gunda.Lib.DurableFile
open Fallible (eval eval_bind_error eval_bind_ok wp wp_bind)
open Gunda.Core (Url RequestContext DownloadFailure DownloadDestination ResolvedDestination
  ExecutionInput DownloadProgress DownloadJob)
open Gunda.Http (HttpError HttpInspection)

/-! ## What an attempt finds -/

/-- The origin as one preparation finds it, with a store that works. -/
structure Visit where
  plan : TrackPlan
  contentType : Option Text
  container : Option Container
  inspected : RequestContext → Except HttpError HttpInspection
  ranged : RequestContext → Except HttpError Nat
  opened : RequestContext → Except HttpError HttpInspection
  destination : DownloadDestination
  planned : ResolvedDestination

namespace Visit

variable (visit : Visit)

/-- A new row is there once the store has made it. -/
def inserted (row : Option StreamResumeState)
    (made : Except Core.RepositoryErrorKind StreamResumeState) :
    Except Core.RepositoryErrorKind StreamResumeState × Option StreamResumeState :=
  (made, (made.toOption).or row)

def answers : (op : PrepareOp) → Option StreamResumeState → op.Answer × Option StreamResumeState
  | .plan _, row => (.ok (visit.plan, visit.contentType), row)
  | .container _ _, row => (visit.container, row)
  | .inspect request, row => (visit.inspected request, row)
  | .openByteRange request _ _, row => (visit.ranged request, row)
  | .openMetadata request, row => (visit.opened request, row)
  | .planDestination .., row => (.ok (visit.destination, visit.planned), row)
  | .findState, row => (.ok row, row)
  | .initializeState fingerprint trackCount, row =>
      inserted row (initializeState row fingerprint trackCount)

/-- The length the origin tells of a resource, by any of the probes. -/
def probe (request : RequestContext) : Option Nat :=
  ((visit.inspected request).toOption.bind (·.contentLength)).or
    ((visit.ranged request).toOption.or
      ((visit.opened request).toOption.bind (·.contentLength)))

def lengthAt (urls : Http.UrlLibrary) (request : RequestContext) (resource : StreamResource) :
    Option Nat :=
  resource.knownLength.or
    (visit.probe (segmentRequest urls resource.url request.url request.headers))

end Visit

/-- Adds the lengths, unless one is missing or the sum leaves the range. -/
def sumLengths (lengths : List (Option Nat)) (total : Nat) : Option Nat :=
  lengths.foldlM (fun total length => length.bind fun length =>
    if maxU64 < total + length then none else some (total + length)) total

section Measure

variable {urls : Http.UrlLibrary} {visit : Visit} {row : Option StreamResumeState}

theorem eval_ask {α : Type} (op : PrepareOp) (next : op.Answer → Preparing α) :
    eval visit.answers (Prepare.perform op >>= next) row =
      eval visit.answers (next (visit.answers op row).1) (visit.answers op row).2 := rfl

theorem eval_resourceLength (request : RequestContext) :
    eval visit.answers (resourceLength request) row = (.ok (visit.probe request), row) := by
  unfold resourceLength Visit.probe
  rw [eval_ask]
  have inspected : visit.answers (.inspect request) row = (visit.inspected request, row) := rfl
  rw [inspected]
  cases ((visit.inspected request).toOption.bind (·.contentLength)) with
  | some length => rfl
  | none =>
    rw [eval_ask]
    have asked : visit.answers (.openByteRange request 0 0) row = (visit.ranged request, row) := rfl
    rw [asked]
    cases visit.ranged request with
    | ok total => rfl
    | error error => rfl

theorem eval_lengthOf (request : RequestContext) (resource : StreamResource) :
    eval visit.answers (lengthOf urls request resource) row =
      (.ok (visit.lengthAt urls request resource), row) := by
  unfold lengthOf Visit.lengthAt
  cases resource.knownLength with
  | some length => rfl
  | none => exact eval_resourceLength _

theorem sumLengths_none (lengths : List (Option Nat)) (total : Nat) :
    sumLengths (none :: lengths) total = none := rfl

theorem sumLengths_some (length : Nat) (lengths : List (Option Nat)) (total : Nat) :
    sumLengths (some length :: lengths) total =
      if maxU64 < total + length then none else sumLengths lengths (total + length) := by
  unfold sumLengths
  rw [List.foldlM_cons]
  split
  · rename_i beyond
    simp [beyond]
  · rename_i fits
    simp [fits]

theorem eval_measureResources (request : RequestContext) (resources : List StreamResource)
    (total : Nat) :
    eval visit.answers (measureResources urls request resources total) row =
      (.ok (sumLengths (resources.map (visit.lengthAt urls request)) total), row) := by
  induction resources generalizing total with
  | nil => rfl
  | cons resource rest ih =>
    unfold measureResources
    rw [eval_bind_ok (eval_lengthOf request resource), List.map_cons]
    cases visit.lengthAt urls request resource with
    | none => rfl
    | some length =>
      rw [sumLengths_some]
      dsimp only
      split
      · rfl
      · exact ih _

/-- The size of the media as one preparation measures it. -/
def Visit.measured (visit : Visit) (urls : Http.UrlLibrary) (request : RequestContext) : Option Nat :=
  visit.plan.knownTotalBytes.or
    (if maxProbedResources < visit.plan.resources.length then none
     else sumLengths (visit.plan.resources.map (visit.lengthAt urls request)) 0)

theorem eval_measure (request : RequestContext) :
    eval visit.answers (measure urls request visit.plan) row =
      (.ok (visit.measured urls request), row) := by
  unfold measure Visit.measured
  cases visit.plan.knownTotalBytes with
  | some total => rfl
  | none =>
    dsimp only
    split
    · rfl
    · exact eval_measureResources request _ 0

end Measure

/-! ## The same media planned again -/

section Media

variable (bodies : Bodies) (plan : TrackPlan)

/-- The size of everything the plan fetches. -/
def mediaBytes : Nat := (plan.resources.map fun resource => (bodyOf bodies resource).length).sum

end Media

/-- The presentation and its bodies, as a later attempt finds them. -/
structure SameMedia (identity : UrlIdentity) (bodies bodies' : Bodies) (plan plan' : TrackPlan) :
    Prop where
  presentation : SamePresentation identity plan plan'
  fixed : List.Forall₂ (fun a b => bodyOf bodies a = bodyOf bodies' b) plan.resources plan'.resources

section SameMedia

variable {identity : UrlIdentity} {bodies bodies' : Bodies} {plan plan' : TrackPlan}

theorem SameResource.symm {a b : Url} (same : SameResource identity a b) :
    SameResource identity b a :=
  ⟨same.scheme.symm, same.host.symm, same.port.symm, same.path.symm, same.query.symm⟩

section

variable (same : SameMedia identity bodies bodies' plan plan')
include same

theorem SameMedia.symm :
    SameMedia identity bodies' bodies plan' plan := by
  refine ⟨⟨same.presentation.kind.symm, ?_⟩, ?_⟩
  · refine List.Forall₂.flip (List.Forall₂.imp (fun a b segment => ?_) same.presentation.resources)
    exact ⟨segment.url.symm, segment.byteRange.symm, segment.track.symm⟩
  · exact List.Forall₂.flip (List.Forall₂.imp (fun a b fixed => Eq.symm fixed) same.fixed)

omit same in
theorem SamePresentation.tracks_eq (same : SamePresentation identity plan plan') :
    plan.resources.map (·.track) = plan'.resources.map (·.track) := by
  have matched := same.resources
  generalize plan.resources = a at matched ⊢
  generalize plan'.resources = b at matched ⊢
  induction matched with
  | nil => rfl
  | cons first rest ih => rw [List.map_cons, List.map_cons, first.track, ih]

omit same in
theorem SamePresentation.trackCount_eq (same : SamePresentation identity plan plan') :
    plan.trackCount = plan'.trackCount := by
  have counts : plan.resources.map (·.track + 1) = plan'.resources.map (·.track + 1) := by
    have tracks := congrArg (List.map (· + 1)) same.tracks_eq
    rw [List.map_map, List.map_map] at tracks
    exact tracks
  unfold TrackPlan.trackCount
  rw [counts]

omit same in
theorem bodies_of_track_eq {a b : List StreamResource} (track : Nat)
    (tracks : a.map (·.track) = b.map (·.track))
    (fixed : List.Forall₂ (fun x y => bodyOf bodies x = bodyOf bodies' y) a b) :
    (a.filter fun resource => resource.track = track).map (bodyOf bodies) =
      (b.filter fun resource => resource.track = track).map (bodyOf bodies') := by
  induction fixed with
  | nil => rfl
  | cons first rest ih =>
    rw [List.map_cons, List.map_cons, List.cons.injEq] at tracks
    rw [List.filter_cons, List.filter_cons, tracks.1]
    split
    · rw [List.map_cons, List.map_cons, first, ih tracks.2]
    · exact ih tracks.2

theorem SameMedia.resourcesOf_eq (track : Nat) : (plan.resourcesOf track).map (bodyOf bodies) =
      (plan'.resourcesOf track).map (bodyOf bodies') :=
  bodies_of_track_eq track same.presentation.tracks_eq same.fixed

theorem SameMedia.front_eq
    (track count : Nat) : front bodies plan track count = front bodies' plan' track count := by
  unfold front
  rw [List.flatMap_def, List.flatMap_def, List.map_take, List.map_take,
    same.resourcesOf_eq track]

/-- Checkpoints that were backed for one plan are backed for the other. -/
theorem SameMedia.backed {w : Staging}
    (backed : Backed bodies plan w) : Backed bodies' plan' w := by
  refine ⟨fun state saved => ?_, fun state saved track checkpoint found => ?_⟩
  · rw [← same.presentation.trackCount_eq]
    exact backed.tracks state saved
  · have before := backed.checkpoints state saved track checkpoint found
    have counts := congrArg List.length (same.resourcesOf_eq track)
    rw [List.length_map, List.length_map] at counts
    refine ⟨counts ▸ before.inPlan, ?_, ?_⟩
    · rw [← same.front_eq]
      exact before.counted
    · rw [← same.front_eq, ← same.presentation.trackCount_eq]
      exact before.kept

end

end SameMedia

/-! ## Measuring -/

section Measuring

variable {bodies : Bodies} {urls : Http.UrlLibrary} {visit : Visit} {request : RequestContext}

/-- Declared lengths and answered probes tell the length of the body. -/
def Truthful (bodies : Bodies) (urls : Http.UrlLibrary) (request : RequestContext)
    (visit : Visit) : Prop :=
  ∀ resource ∈ visit.plan.resources, ∀ length,
    resource.knownLength = some length ∨
      visit.probe (segmentRequest urls resource.url request.url request.headers) = some length →
    length = (bodyOf bodies resource).length

/-- Every length is declared, or few enough are asked for and every probe is answered;
and their sum is in range. -/
def Measurable (bodies : Bodies) (urls : Http.UrlLibrary) (request : RequestContext)
    (visit : Visit) : Prop :=
  ((∀ resource ∈ visit.plan.resources, resource.knownLength ≠ none) ∨
    (visit.plan.resources.length ≤ maxProbedResources ∧
      ∀ resource ∈ visit.plan.resources, visit.lengthAt urls request resource ≠ none)) ∧
  mediaBytes bodies visit.plan ≤ maxU64

theorem sumLengths_of_all {α : Type} {lengthOf : α → Option Nat} {size : α → Nat} (items : List α)
    (known : ∀ item ∈ items, lengthOf item = some (size item)) {total : Nat}
    (inRange : total ≤ maxU64) :
    sumLengths (items.map lengthOf) total =
      if maxU64 < total + (items.map size).sum then none
      else some (total + (items.map size).sum) := by
  induction items generalizing total with
  | nil =>
    rw [List.map_nil, List.map_nil, List.sum_nil, Nat.add_zero, if_neg (by omega)]
    rfl
  | cons item rest ih =>
    rw [List.map_cons, known item List.mem_cons_self, sumLengths_some, List.map_cons,
      List.sum_cons, ← Nat.add_assoc]
    by_cases beyond : maxU64 < total + size item
    · rw [if_pos beyond, if_pos (by omega)]
    · rw [if_neg beyond]
      exact ih (fun other member => known other (List.mem_cons_of_mem _ member)) (by omega)

theorem sumLengths_of_unknown {α : Type} {lengthOf : α → Option Nat} {items : List α} {item : α}
    (member : item ∈ items) (unknown : lengthOf item = none) (total : Nat) :
    sumLengths (items.map lengthOf) total = none := by
  induction items generalizing total with
  | nil => cases member
  | cons first rest ih =>
    rw [List.map_cons]
    cases found : lengthOf first with
    | none => exact sumLengths_none _ _
    | some length =>
      rw [sumLengths_some]
      split
      · rfl
      · refine ih ?_ _
        cases List.mem_cons.mp member with
        | inl same =>
          rw [← same, unknown] at found
          cases found
        | inr rest_member => exact rest_member

section

variable {resource : StreamResource} (truthful : Truthful bodies urls request visit)
  (member : resource ∈ visit.plan.resources)
include truthful member

theorem knownLength_eq (declared : resource.knownLength ≠ none) :
    resource.knownLength = some (bodyOf bodies resource).length := by
  obtain ⟨length, known⟩ := Option.ne_none_iff_exists'.mp declared
  rw [known, truthful resource member length (.inl known)]

theorem lengthAt_eq (answered : visit.lengthAt urls request resource ≠ none) :
    visit.lengthAt urls request resource = some (bodyOf bodies resource).length := by
  obtain ⟨length, told⟩ := Option.ne_none_iff_exists'.mp answered
  rw [told]
  unfold Visit.lengthAt at told
  cases declared : resource.knownLength with
  | some known =>
    rw [declared] at told
    cases told
    rw [truthful resource member _ (.inl declared)]
  | none =>
    rw [declared] at told
    rw [truthful resource member _ (.inr told)]

end

section Sum

variable {lengthOf : StreamResource → Option Nat}

section

variable (real : ∀ resource ∈ visit.plan.resources, lengthOf resource ≠ none → lengthOf resource = some (bodyOf bodies resource).length)
include real

theorem sum_of_answered (answered : ∀ resource ∈ visit.plan.resources, lengthOf resource ≠ none)
    (inRange : mediaBytes bodies visit.plan ≤ maxU64) :
    sumLengths (visit.plan.resources.map lengthOf) 0 = some (mediaBytes bodies visit.plan) := by
  rw [sumLengths_of_all _ (fun resource member => real resource member (answered resource member))
    (Nat.zero_le _), Nat.zero_add]
  exact if_neg (by unfold mediaBytes at inRange; omega)

theorem sum_of_silent (silent : ¬((∀ resource ∈ visit.plan.resources, lengthOf resource ≠ none) ∧
      mediaBytes bodies visit.plan ≤ maxU64)) :
    sumLengths (visit.plan.resources.map lengthOf) 0 = none := by
  by_cases answered : ∀ resource ∈ visit.plan.resources, lengthOf resource ≠ none
  · rw [sumLengths_of_all _ (fun resource member => real resource member (answered resource member))
      (Nat.zero_le _), Nat.zero_add]
    have beyond : ¬mediaBytes bodies visit.plan ≤ maxU64 := fun fits => silent ⟨answered, fits⟩
    exact if_pos (by unfold mediaBytes at beyond; omega)
  · push Not at answered
    obtain ⟨resource, member, unknown⟩ := answered
    exact sumLengths_of_unknown member unknown 0

end

end Sum

/-- A truthful origin is measured exactly, or not at all. -/
theorem measured_eq (truthful : Truthful bodies urls request visit) :
    (Measurable bodies urls request visit → visit.measured urls request =
      some (mediaBytes bodies visit.plan)) ∧
    (¬Measurable bodies urls request visit → visit.measured urls request = none) := by
  have declared_real : ∀ resource ∈ visit.plan.resources, resource.knownLength ≠ none →
      resource.knownLength = some (bodyOf bodies resource).length :=
    fun resource member => knownLength_eq truthful member
  have told_real : ∀ resource ∈ visit.plan.resources,
      visit.lengthAt urls request resource ≠ none →
      visit.lengthAt urls request resource = some (bodyOf bodies resource).length :=
    fun resource member => lengthAt_eq truthful member
  have known_total : visit.plan.knownTotalBytes =
      sumLengths (visit.plan.resources.map (·.knownLength)) 0 := rfl
  unfold Visit.measured Measurable
  rw [known_total]
  constructor
  · intro measurable
    obtain ⟨lengths, inRange⟩ := measurable
    by_cases declared : ∀ resource ∈ visit.plan.resources, resource.knownLength ≠ none
    · rw [sum_of_answered declared_real declared inRange]
      rfl
    · obtain ⟨few, answered⟩ := lengths.resolve_left declared
      rw [sum_of_silent declared_real fun both => declared both.1, Option.none_or,
        if_neg (by omega), sum_of_answered told_real answered inRange]
  · intro not_measurable
    rw [sum_of_silent declared_real fun both => not_measurable ⟨Or.inl both.1, both.2⟩,
      Option.none_or]
    split
    · rfl
    · rename_i few
      exact sum_of_silent told_real fun both =>
        not_measurable ⟨Or.inr ⟨by omega, both.1⟩, both.2⟩

end Measuring

/-! ## Continuing -/

/-- The surroundings of an attempt whose file operations all work. -/
def workingFiles (bodies : Bodies) : Spec TransferOp TransferOp.Answer Staging where
  requires _ _ := True
  ensures op w answer t := staging bodies op .proceeds w = some (answer, t)

section Continuing

variable {bodies : Bodies} {plan : TrackPlan} {w : Staging} {track : Nat}
variable {path : StagingPath} {file : StagingFile}

/-- An operation that works has one answer. -/
theorem wp_works {α : Type} {op : TransferOp} {answer : op.Answer} {t : Staging}
    {next : op.Answer → Transfer α} {Q : Except DownloadFailure α → Staging → Prop}
    (works : staging bodies op .proceeds w = some (answer, t))
    (continued : wp (workingFiles bodies) (next answer) Q t) :
    wp (workingFiles bodies) (perform op >>= next) Q w := by
  rw [wp_bind]
  refine ⟨trivial, fun other u found => ?_⟩
  have same : some (answer, t) = some (other, u) := works.symm.trans found
  cases same
  exact continued

/-- The file is opened holding exactly the durable bytes of the track. -/
def Continues (bodies : Bodies) (plan : TrackPlan) (w : Staging) : Prop :=
  ∀ track < plan.trackCount, Fallible.wp (workingFiles bodies)
    (openTrack (stagedPath track plan.trackCount) (checkpointOf w.row track).durableBytes true)
    (fun result t => result = .ok () ∧ t.content (stagedPath track plan.trackCount) =
      front bodies plan track (checkpointOf w.row track).nextResource) w

theorem content_of_present (present : w.files path = some file) :
    w.content path = file.content := by
  unfold Staging.content
  rw [present]
  rfl

theorem wp_createTrack {bytes : Bytes} (missing : w.files path = none) (nothing : bytes = []) :
    wp (workingFiles bodies) (createTrack path)
      (fun result t => result = .ok () ∧ t.content path = bytes) w := by
  have works : staging bodies (.createNew path) .proceeds w =
      some (.ok (), w.put path (some DurableFile.empty)) := by
    unfold staging
    simp only [missing, Option.isSome_none, Bool.false_eq_true, if_false]
  refine wp_works works ⟨rfl, ?_⟩
  rw [content_of_present (Staging.put_same ..), nothing]
  rfl

variable {Q : Except DownloadFailure Unit → Staging → Prop}

theorem wp_seekTrackEnd (done : Q (.ok ()) (w.modify path id)) :
    wp (workingFiles bodies) (seekTrackEnd path) Q w := wp_works rfl done

theorem wp_setTrackLen {bytes : Nat} (done : Q (.ok ()) (w.modify path (·.setLen 0 bytes))) :
    wp (workingFiles bodies) (setTrackLen path bytes) Q w := wp_works rfl done

theorem content_modify {change : StagingFile → StagingFile} (present : w.files path = some file) :
    (w.modify path change).content path = (change file).content := by
  refine content_of_present ?_
  unfold Staging.modify
  rw [Staging.put_same, present]
  rfl

theorem wp_continueTrack {bytes : Bytes} (present : w.files path = some file)
    (leads : bytes <+: file.content) :
    wp (workingFiles bodies) (continueTrack path bytes.length)
      (fun result t => result = .ok () ∧ t.content path = bytes) w := by
  have opened : staging bodies (.openExisting path) .proceeds w = some (.ok (), w) := by
    unfold staging
    simp only [present, Option.isSome_some, if_true]
  have measured : staging bodies (.length path) .proceeds w =
      some (.ok file.content.length, w) := by
    rw [← content_of_present present]
    rfl
  have fits := leads.length_le
  have cut : file.content.take bytes.length = bytes := (List.prefix_iff_eq_take.mp leads).symm
  refine wp_works opened (wp_works measured ?_)
  change wp (workingFiles bodies) (if file.content.length < bytes.length then _ else _) _ w
  rw [if_neg (by omega)]
  split
  · rw [wp_bind]
    refine wp_setTrackLen (wp_seekTrackEnd ⟨rfl, ?_⟩)
    have shortened : (w.modify path (·.setLen 0 bytes.length)).files path =
        some (file.setLen 0 bytes.length) := by
      unfold Staging.modify
      rw [Staging.put_same, present]
      rfl
    rw [content_modify shortened]
    exact (setLen_content fits).trans cut
  · refine wp_seekTrackEnd ⟨rfl, ?_⟩
    rw [content_modify present]
    change file.content = bytes
    rw [← cut, List.take_of_length_le (by omega)]

/-- Backed checkpoints can be continued from. -/
theorem continues_of_backed (backed : Backed bodies plan w) : Continues bodies plan w := by
  intro track inside
  have sound : Sound bodies plan 0 { w with reports := [] } := backed.quiet
  obtain ⟨starting, counted⟩ := starting_of_sound sound inside
  have kept : Retains (w.files (stagedPath track plan.trackCount))
      (front bodies plan track (checkpointOf w.row track).nextResource) := starting.kept
  have durable : (checkpointOf w.row track).durableBytes =
      (front bodies plan track (checkpointOf w.row track).nextResource).length := counted
  rw [durable]
  cases present : w.files (stagedPath track plan.trackCount) with
  | none =>
    rw [present] at kept
    have nothing : front bodies plan track (checkpointOf w.row track).nextResource = [] := by
      cases kept with
      | inl nothing => exact nothing
      | inr found =>
        obtain ⟨file, ⟨⟩, -⟩ := found
    have looked : staging bodies (.fileType (stagedPath track plan.trackCount)) .proceeds w =
        some (.error .notFound, w) := by
      unfold staging
      simp only [present, Option.isSome_none, Bool.false_eq_true, if_false]
    refine wp_works looked ?_
    rw [nothing]
    exact wp_createTrack present rfl
  | some file =>
    rw [present] at kept
    have looked : staging bodies (.fileType (stagedPath track plan.trackCount)) .proceeds w =
        some (.ok .regular, w) := by
      unfold staging
      simp only [present, Option.isSome_some, if_true]
    exact wp_works looked (wp_continueTrack present kept.leads)

end Continuing

/-! ## The row of a job -/

/-- Every saved row is of this plan. -/
def RowOf (fingerprint : PlanFingerprint) (row : Option StreamResumeState) : Prop :=
  ∀ state ∈ row, state.fingerprint = fingerprint

section Rows

variable {bodies : Bodies} {plan : TrackPlan} {fingerprint : PlanFingerprint} {w t : Staging}
variable {choice : StagingChoice}

theorem saveAnswer_row {state : StreamResumeState}
    {result : Except Core.RepositoryErrorKind StreamResumeState} (row : RowOf fingerprint w.row)
    (h : saveAnswer state choice w = some (result, t)) : RowOf fingerprint t.row := by
  have saved_row : ∀ saved, saveCheckpoint w.row state = .ok saved →
      RowOf fingerprint (some saved) := by
    intro saved ok other same
    cases same
    obtain ⟨stored, member, plan_same⟩ := saveCheckpoint_same_plan ok
    rw [saveCheckpoint_ok ok, ← plan_same]
    exact row stored member
  unfold saveAnswer at h
  split at h
  · rename_i ok
    cases h
    exact saved_row _ ok
  · cases h
    exact row
  · rename_i ok
    cases h
    exact saved_row _ ok
  · cases h
    exact row
  · cases h

theorem fileAnswer_row {path : StagingPath} {change : StagingFile → StagingFile}
    {result : Except IoErrorKind Unit} (h : fileAnswer path choice w change = some (result, t)) :
    t.row = w.row := by
  obtain ⟨-, rfl⟩ | ⟨-, -, -, rfl⟩ := fileAnswer_cases h
  · rfl
  · rfl

/-- No operation of a transfer makes the row one of another plan. -/
theorem staging_row {op : TransferOp} {answer : op.Answer} (row : RowOf fingerprint w.row)
    (h : staging bodies op choice w = some (answer, t)) :
    RowOf fingerprint t.row := by
  have kept : t.row = w.row → RowOf fingerprint t.row := fun same => same ▸ row
  cases op with
  | saveState state => exact saveAnswer_row row h
  | setLen path bytes => exact kept (fileAnswer_row h)
  | seekEnd path => exact kept (fileAnswer_row h)
  | flush path => exact kept (fileAnswer_row h)
  | syncAll path => exact kept (fileAnswer_row h)
  | stopped path =>
    obtain ⟨-, rfl⟩ | ⟨-, -, rfl⟩ := stopped_cases h
    · exact row
    · exact row
  | write path block =>
    obtain ⟨-, rfl⟩ | ⟨-, -, -, rfl⟩ := write_cases h
    · exact row
    · exact row
  | isRequested => exact kept (by rw [answered_cases.1 h])
  | checkpointElapsed => exact kept (by rw [answered_cases.2 h])
  | openBody request interval => exact kept (by rw [(openBody_cases h).1])
  | report count => exact kept (by rw [report_cases h])
  | fileType path => exact kept (by rw [fileType_cases h])
  | openExisting path => exact kept (by rw [(existing_cases h).1])
  | length path => exact kept (by rw [(length_cases h).1])
  | createNew path =>
    obtain ⟨-, -, rfl⟩ | ⟨-, -, rfl⟩ := createNew_cases h
    · exact row
    · exact row
  | requestKind =>
    cases choice <;> cases h
    exact row
  | removeFile path =>
    cases choice <;> cases h
    · exact row
    · exact row
  | clearState =>
    cases choice with
    | proceeds =>
      cases h
      rintro _ ⟨⟩
    | rejects error changed =>
      cases h
      cases changed with
      | true => rintro _ ⟨⟩
      | false => exact row
    | _ => cases h
  | muxMp4 video audio output =>
    cases choice with
    | muxes result =>
      cases result <;> cases h
      · exact row
      · exact row
    | _ => cases h

theorem steps_row {α : Type} {before after : Program TransferOp TransferOp.Answer α × Staging}
    (row : RowOf fingerprint before.2.row) (steps : Program.Steps (stagingRuns bodies) before after) :
    RowOf fingerprint after.2.row := by
  induction steps with
  | refl => exact row
  | tail earlier step ih =>
    cases step with
    | mk answered =>
      obtain ⟨choice, answered⟩ := answered
      exact staging_row ih answered

end Rows

/-! ## The runs of a job -/

/-- One move of a transfer's staging area: a run of a track, perhaps cut off, or a crash. -/
inductive TransferMove (bodies : Bodies) (plan : TrackPlan) : Staging → Staging → Prop where
  | run {w t : Staging} {track : Nat}
      {program : Program TransferOp TransferOp.Answer (Except DownloadFailure TrackResult)}
      (inside : track < plan.trackCount) (ran : TrackRun bodies plan track w (program, t)) :
      TransferMove bodies plan w t
  | crash {w t : Staging} (crashed : w.Crash t) : TransferMove bodies plan w t

/-- What the manager saves of an execution's progress. -/
inductive ProgressSaved (estimated : Bool) (begun : DownloadProgress) : DownloadProgress → Prop where
  | begun : ProgressSaved estimated begun begun
  | checkpoint {job : DownloadJob} {written : Nat} {after : DownloadProgress}
      (earlier : ProgressSaved estimated begun job.progress)
      (saved : Core.executionProgress job written estimated = .ok after) :
      ProgressSaved estimated begun after
  | stopped {job : DownloadJob} {written : Nat} {rewinds : Bool} {after : DownloadProgress}
      (earlier : ProgressSaved estimated begun job.progress)
      (saved : Core.stoppedExecutionProgress job written estimated rewinds = .ok after) :
      ProgressSaved estimated begun after
  | finished {job : DownloadJob} {written : Nat} {after : DownloadProgress}
      (earlier : ProgressSaved estimated begun job.progress)
      (saved : (if estimated then (DownloadProgress.new written (some written)).toOption
        else (Core.validatedExecutionProgress job written).toOption) = some after) :
      ProgressSaved estimated begun after

/-- A segmented job between attempts. -/
structure SegmentedJob where
  staging : Staging
  progress : DownloadProgress

section Jobs

variable (identity : UrlIdentity) (urls : Http.UrlLibrary) (input : ExecutionInput)
  (bodies : Bodies) (plan : TrackPlan)

/-- The preparation of the job's next attempt, and the row it leaves. -/
def prepareAt (job : SegmentedJob) (visit : Visit) :
    Except DownloadFailure StreamPrepared × Option StreamResumeState :=
  Fallible.eval visit.answers
    (prepare urls identity true { input with progress := job.progress }) job.staging.row

/-- An attempt finds the presentation and its bodies unchanged, and true lengths. -/
structure Unchanged (visit : Visit) (now : Bodies) : Prop where
  media : SameMedia identity bodies now plan visit.plan
  truthful : Truthful now urls input.request visit

/-- The jobs that attempts at unchanged media lead to. -/
inductive JobReached : SegmentedJob → Prop where
  | fresh : JobReached ⟨.empty, .default⟩
  /-- The attempt ended before its transfer. -/
  | prepared {job : SegmentedJob} {visit : Visit} {now : Bodies} (reached : JobReached job)
      (unchanged : Unchanged identity urls input bodies plan visit now) :
      JobReached
        ⟨{ job.staging with row := (prepareAt identity urls input job visit).2 }, job.progress⟩
  | transferred {job : SegmentedJob} {visit : Visit} {now : Bodies} {prepared : StreamPrepared}
      {row : Option StreamResumeState} {begun progress : DownloadProgress} {after : Staging}
      (reached : JobReached job)
      (unchanged : Unchanged identity urls input bodies plan visit now)
      (accepted : prepareAt identity urls input job visit = (.ok prepared, row))
      (started : DownloadProgress.new prepared.startingBytes prepared.totalBytes = .ok begun)
      (moved : Relation.ReflTransGen (TransferMove now visit.plan)
        { job.staging with row := row } after)
      (saved : ProgressSaved prepared.totalIsEstimated begun progress) :
      JobReached ⟨after, progress⟩

/-- Preparation takes up the saved state and progress, the manager accepts what was
prepared, and the transfer continues from the durable bytes. -/
def Accepted (job : SegmentedJob) (visit : Visit) (now : Bodies) : Prop :=
  ∃ prepared row, prepareAt identity urls input job visit = (.ok prepared, row) ∧
    (∃ begun, DownloadProgress.new prepared.startingBytes prepared.totalBytes = .ok begun) ∧
    prepared.tracks.resume = row ∧ (∀ state ∈ job.staging.row, row = some state) ∧
    Continues now visit.plan { job.staging with row := row }

/-- The durable bytes of the saved row. -/
def durableTotal (row : Option StreamResumeState) : Nat := (row.map (·.startingBytes)).getD 0

/-- A size measured now is the one saved before, if any was; an estimate taken in its
place covers the durable bytes. -/
def TotalsAgree (job : SegmentedJob) (visit : Visit) (now : Bodies) : Prop :=
  (Measurable now urls input.request visit →
    ∀ saved ∈ job.progress.totalBytes, saved = mediaBytes now visit.plan) ∧
  (¬Measurable now urls input.request visit →
    ∀ estimate ∈ visit.plan.estimatedTotalBytes, durableTotal job.staging.row ≤ estimate)

end Jobs

/-! ## What preparation answers -/

section Answers

variable {identity : UrlIdentity} {urls : Http.UrlLibrary} {input : ExecutionInput}
  {bodies : Bodies} {plan : TrackPlan} {visit : Visit} {fingerprint : PlanFingerprint}
variable {state : StreamResumeState}

  {w : Staging}

theorem bounds_of_backed (backed : Backed bodies plan w) (saved : state ∈ w.row) :
    validateTrackBounds state plan = true := by
  refine List.all_eq_true.mpr fun entry member => ?_
  obtain ⟨checkpoint, track⟩ := entry
  have found : state.tracks[track]? = some checkpoint :=
    List.mk_mem_zipIdx_iff_getElem?.mp member
  exact decide_eq_true (backed.checkpoints state saved track checkpoint found).inPlan

theorem sum_of_zeros (count : Nat) : (List.replicate count 0).foldl
    (fun total bytes => min (total + bytes) (2 ^ 64 - 1)) 0 = 0 := by
  induction count with
  | zero => rfl
  | succ count ih =>
    rw [List.replicate_succ, List.foldl_cons]
    exact ih

theorem startingBytes_replicate {count : Nat}
    (tracks : state.tracks = List.replicate count .start) : state.startingBytes = 0 := by
  unfold StreamResumeState.startingBytes
  rw [tracks, List.map_replicate]
  exact sum_of_zeros count

/-- The row is taken up, or a new one made. -/
structure Loaded (fingerprint : PlanFingerprint) (plan : TrackPlan)
    (row : Option StreamResumeState) (state : StreamResumeState) : Prop where
  kept : ∀ saved ∈ row, saved = state
  created : row = none → state.fingerprint = fingerprint ∧
    state.tracks = List.replicate plan.trackCount .start

theorem eval_loadState (backed : Backed bodies visit.plan w) (row : RowOf fingerprint w.row)
    (tracks : visit.plan.trackCount = 1 ∨ visit.plan.trackCount = 2) :
    ∃ state, eval visit.answers (loadState fingerprint visit.plan) w.row =
      (.ok state, some state) ∧ Loaded fingerprint visit.plan w.row state := by
  unfold loadState
  cases loaded : w.row with
  | some state =>
    refine ⟨state, ?_, by rintro _ ⟨⟩; rfl, by rintro ⟨⟩⟩
    rw [eval_ask]
    have same : ¬(state.fingerprint ≠ fingerprint ∨
        state.tracks.length ≠ visit.plan.trackCount) := by
      rw [not_or, not_not, not_not]
      exact ⟨row state loaded, backed.tracks state loaded⟩
    have bounds := bounds_of_backed backed loaded
    change eval visit.answers (if _ then _ else if (!validateTrackBounds state visit.plan) = true
      then _ else _) (some state) = _
    rw [if_neg same, bounds]
    rfl
  | none =>
    have some_tracks : List.replicate visit.plan.trackCount TrackCheckpoint.start ≠ [] ∧
        (List.replicate visit.plan.trackCount TrackCheckpoint.start).length ≤ 2 := by
      rw [List.length_replicate, ne_eq, List.replicate_eq_nil_iff]
      omega
    have created : initializeState none fingerprint visit.plan.trackCount =
        .ok ⟨fingerprint, _, some_tracks⟩ := by
      unfold initializeState StreamResumeState.new
      rw [dif_pos some_tracks]
      rfl
    refine ⟨⟨fingerprint, _, some_tracks⟩, ?_, by rintro _ ⟨⟩, fun _ => ⟨rfl, rfl⟩⟩
    rw [eval_ask]
    have answered : visit.answers (.initializeState fingerprint visit.plan.trackCount) none =
        (.ok ⟨fingerprint, _, some_tracks⟩, some ⟨fingerprint, _, some_tracks⟩) := by
      change Visit.inserted none (initializeState none fingerprint visit.plan.trackCount) = _
      rw [created]
      rfl
    change eval visit.answers (Prepare.perform (.initializeState fingerprint
      visit.plan.trackCount) >>= _) none = _
    rw [eval_ask, answered]
    rfl

theorem eval_acceptTotal {saved total : Option Nat} {estimated : Bool}
    (row : Option StreamResumeState)
    (agreed : estimated = true ∨ ((∀ a ∈ saved, ∀ b ∈ total, a = b) ∧
      ∀ b ∈ total, state.startingBytes ≤ b)) :
    eval visit.answers (acceptTotal saved total estimated state) row = (.ok (), row) := by
  unfold acceptTotal
  obtain rfl | ⟨same, covered⟩ := agreed
  · rfl
  · have no_conflict : (saved.isSome && total.isSome && decide (saved ≠ total)) = false := by
      cases saved with
      | none => rfl
      | some a =>
        cases total with
        | none => rfl
        | some b =>
          have equal := same a rfl b rfl
          simp [equal]
    have no_excess : total.any (· < state.startingBytes) = false := by
      cases total with
      | none => rfl
      | some b => exact decide_eq_false (Nat.not_lt.mpr (covered b rfl))
    rw [no_conflict, no_excess, Bool.and_false]
    rfl

theorem eval_acceptTotal_refused {saved total : Nat} (state : StreamResumeState)
    (row : Option StreamResumeState) (differs : saved ≠ total) :
    eval visit.answers (acceptTotal (some saved) (some total) false state) row =
      (.error (recoveryIntegrity "saved download size does not match the segmented media"), row) := by
  have conflict : (!false && ((some saved).isSome && (some total).isSome &&
      decide (some saved ≠ some total))) = true := by simp [differs]
  unfold acceptTotal
  rw [if_pos conflict]
  rfl

/-- The prepared transfer of a visit, its resume state taken up. -/
def preparedWith (urls : Http.UrlLibrary) (input : ExecutionInput) (visit : Visit)
    (state : StreamResumeState) : StreamPrepared :=
  let total := declaredTotal (visit.measured urls input.request) visit.plan
  ⟨⟨visit.plan, some state⟩, visit.contentType, total.1, total.2, visit.destination, visit.planned⟩

/-- Accepting a total changes nothing. -/
theorem eval_acceptTotal_row (saved total : Option Nat) (estimated : Bool)
    (state : StreamResumeState) (row : Option StreamResumeState) :
    ∃ result, eval visit.answers (acceptTotal saved total estimated state) row =
      (result, row) := by
  unfold acceptTotal
  split
  · exact ⟨_, rfl⟩
  · split
    · exact ⟨_, rfl⟩
    · exact ⟨_, rfl⟩

theorem eval_prepare {row : Option StreamResumeState} {state : StreamResumeState}
    (loaded : eval visit.answers
      (loadState (PlanFingerprint.of identity visit.plan input.request.url) visit.plan) row =
        (.ok state, some state)) :
    eval visit.answers (prepare urls identity true input) row =
      ((eval visit.answers (acceptTotal input.progress.totalBytes
        (declaredTotal (visit.measured urls input.request) visit.plan).1
        (declaredTotal (visit.measured urls input.request) visit.plan).2 state) (some state)).1.map
        fun _ => preparedWith urls input visit state, some state) := by
  unfold prepare
  rw [eval_ask]
  change eval visit.answers (Prepare.perform (.container input.request visit.plan) >>= _) row = _
  rw [eval_ask]
  change eval visit.answers (measure urls input.request visit.plan >>= _) row = _
  rw [eval_bind_ok (eval_measure input.request)]
  change eval visit.answers (Prepare.perform (.planDestination ..) >>= _) row = _
  rw [eval_ask]
  change eval visit.answers ((some <$> loadResume identity input visit.plan
    (declaredTotal (visit.measured urls input.request) visit.plan)) >>= _) row = _
  obtain ⟨result, accepted⟩ := @eval_acceptTotal_row visit input.progress.totalBytes
    (declaredTotal (visit.measured urls input.request) visit.plan).1
    (declaredTotal (visit.measured urls input.request) visit.plan).2 state (some state)
  rw [accepted]
  have resumed : eval visit.answers (some <$> loadResume identity input visit.plan
      (declaredTotal (visit.measured urls input.request) visit.plan)) row =
      (result.map fun _ => some state, some state) := by
    unfold loadResume
    rw [map_eq_pure_bind, bind_assoc, eval_bind_ok loaded, bind_assoc]
    cases result with
    | ok value =>
      rw [eval_bind_ok accepted]
      rfl
    | error failure =>
      rw [eval_bind_error accepted]
      rfl
  cases result with
  | ok value =>
    rw [eval_bind_ok resumed]
    rfl
  | error failure =>
    rw [eval_bind_error resumed]
    rfl

/-! ## Sizes -/

theorem lengths_of_two (resources : List StreamResource) (size : StreamResource → Nat) :
    ((resources.filter fun resource => resource.track = 0).map size).sum +
      ((resources.filter fun resource => resource.track = 1).map size).sum ≤
    (resources.map size).sum := by
  induction resources with
  | nil => simp
  | cons resource rest ih =>
    rw [List.filter_cons, List.filter_cons, List.map_cons, List.sum_cons]
    by_cases video : resource.track = 0
    · simp only [video, decide_true, if_true, List.map_cons, List.sum_cons, zero_ne_one,
        decide_false, Bool.false_eq_true, if_false]
      omega
    · by_cases audio : resource.track = 1
      · simp only [audio, decide_true, if_true, List.map_cons, List.sum_cons, one_ne_zero,
          decide_false, Bool.false_eq_true, if_false]
        omega
      · simp only [video, audio, decide_false, Bool.false_eq_true, if_false]
        omega

theorem front_length_le (track count : Nat) : (front bodies plan track count).length ≤
    ((plan.resourcesOf track).map fun resource => (bodyOf bodies resource).length).sum := by
  have whole := (front_leads (Nat.le_max_left count (plan.resourcesOf track).length) :
    front bodies plan track count <+: front bodies plan track _).length_le
  refine Nat.le_trans whole (Nat.le_of_eq ?_)
  unfold front
  rw [List.take_of_length_le (Nat.le_max_right _ _), List.length_flatMap]

/-- The durable bytes of a backed row are at most the media. -/
theorem startingBytes_le (backed : Backed bodies plan w) {state : StreamResumeState}
    (saved : state ∈ w.row) : state.startingBytes ≤ mediaBytes bodies plan := by
  have both := lengths_of_two plan.resources fun resource => (bodyOf bodies resource).length
  have durable : ∀ track checkpoint, state.tracks[track]? = some checkpoint →
      checkpoint.durableBytes ≤ ((plan.resources.filter fun resource => resource.track = track).map
        fun resource => (bodyOf bodies resource).length).sum := by
    intro track checkpoint found
    rw [(backed.checkpoints state saved track checkpoint found).counted]
    exact front_length_le track _
  unfold StreamResumeState.startingBytes mediaBytes
  obtain ⟨fingerprint, tracks, some_tracks, few⟩ := state
  match tracks, some_tracks, few with
  | [video], _, _ =>
    have first := durable 0 video rfl
    simp only [List.map_cons, List.map_nil, List.foldl_cons, List.foldl_nil, Nat.zero_add]
    omega
  | [video, audio], _, _ =>
    have first := durable 0 video rfl
    have second := durable 1 audio rfl
    simp only [List.map_cons, List.map_nil, List.foldl_cons, List.foldl_nil, Nat.zero_add]
    omega

end Answers

/-! ## Every run of a job -/

section Jobs

variable {identity : UrlIdentity} {urls : Http.UrlLibrary} {input : ExecutionInput}
  {bodies now : Bodies} {plan : TrackPlan} {visit : Visit} {job : SegmentedJob}

variable {state : StreamResumeState}

/-- What the attempts of a job leave: a backed row of its own presentation. -/
structure JobSound (identity : UrlIdentity) (input : ExecutionInput) (bodies : Bodies)
    (plan : TrackPlan) (w : Staging) : Prop where
  backed : Backed bodies plan w
  row : RowOf (PlanFingerprint.of identity plan input.request.url) w.row

section

variable (sound : JobSound identity input bodies plan job.staging)
include sound

theorem JobSound.again (same : SameMedia identity bodies now plan visit.plan) :
    JobSound identity input now visit.plan job.staging :=
  ⟨same.backed sound.backed, PlanFingerprint.of_eq_of_same same.presentation _ ▸ sound.row⟩

omit sound in
/-- A row that was taken up or made is backed. -/
theorem JobSound.loaded {w : Staging} (sound : JobSound identity input bodies plan w)
    (loaded : Loaded (PlanFingerprint.of identity plan input.request.url) plan w.row state) :
    JobSound identity input bodies plan { w with row := some state } := by
  cases stored : w.row with
  | some saved =>
    have same := loaded.kept saved stored
    subst same
    have unchanged : ({ w with row := some saved } : Staging) = w := by rw [← stored]
    rw [unchanged]
    exact sound
  | none =>
    obtain ⟨own, tracks⟩ := loaded.created stored
    refine ⟨⟨?_, ?_⟩, ?_⟩
    · intro other same
      cases same
      rw [tracks, List.length_replicate]
    · intro other same track checkpoint found
      cases same
      rw [tracks] at found
      have first := List.eq_of_mem_replicate (List.mem_of_getElem? found)
      subst first
      exact ⟨Nat.zero_le _, rfl, retains_nil _⟩
    · intro other same
      cases same
      exact own

omit sound in
theorem moved_sound {w t : Staging} (sound : JobSound identity input bodies plan w)
    (moved : Relation.ReflTransGen (TransferMove bodies plan) w t) :
    JobSound identity input bodies plan t := by
  induction moved with
  | refl => exact sound
  | tail earlier move ih =>
    cases move with
    | run inside ran =>
      obtain ⟨urls, manifestUrl, headers, base, steps⟩ := id ran
      exact ⟨(trackRun_backed ih.backed inside ran).1, steps_row ih.row steps⟩
    | crash crashed => exact ⟨ih.backed.crash crashed, crashed.row ▸ ih.row⟩

/-- The preparation of a later attempt, where the row is loaded. -/
theorem prepareAt_eq (unchanged : Unchanged identity urls input bodies plan visit now)
    (tracks : plan.trackCount = 1 ∨ plan.trackCount = 2) :
    ∃ state, Loaded (PlanFingerprint.of identity visit.plan input.request.url) visit.plan
        job.staging.row state ∧
      prepareAt identity urls input job visit =
        ((eval visit.answers (acceptTotal job.progress.totalBytes
          (declaredTotal (visit.measured urls input.request) visit.plan).1
          (declaredTotal (visit.measured urls input.request) visit.plan).2 state) (some state)).1.map
          fun _ => preparedWith urls { input with progress := job.progress } visit state,
          some state) := by
  have again := sound.again unchanged.media
  rw [unchanged.media.presentation.trackCount_eq] at tracks
  obtain ⟨state, evaluated, loaded⟩ := eval_loadState again.backed again.row tracks
  have prepared := @eval_prepare identity urls { input with progress := job.progress } visit _ _ evaluated
  exact ⟨state, loaded, prepared⟩

omit sound in
theorem jobSound_of_reached (tracks : plan.trackCount = 1 ∨ plan.trackCount = 2)
    (reached : JobReached identity urls input bodies plan job) :
    JobSound identity input bodies plan job.staging := by
  induction reached with
  | fresh => exact ⟨⟨by rintro _ ⟨⟩, by rintro _ ⟨⟩⟩, by rintro _ ⟨⟩⟩
  | prepared reached unchanged ih =>
    obtain ⟨state, loaded, evaluated⟩ := prepareAt_eq ih unchanged tracks
    rw [evaluated]
    have sound := (ih.again unchanged.media).loaded loaded
    exact ⟨unchanged.media.symm.backed sound.backed,
      PlanFingerprint.of_eq_of_same unchanged.media.symm.presentation _ ▸ sound.row⟩
  | transferred reached unchanged accepted started moved saved ih =>
    obtain ⟨state, loaded, evaluated⟩ := prepareAt_eq ih unchanged tracks
    have row : _ = some state := congrArg Prod.snd (accepted.symm.trans evaluated)
    have sound := moved_sound (row ▸ (ih.again unchanged.media).loaded loaded) moved
    exact ⟨unchanged.media.symm.backed sound.backed,
      PlanFingerprint.of_eq_of_same unchanged.media.symm.presentation _ ▸ sound.row⟩

omit sound in
theorem Loaded.durableTotal_eq {fingerprint : PlanFingerprint} {row : Option StreamResumeState}
    (loaded : Loaded fingerprint plan row state) :
    durableTotal row = state.startingBytes := by
  cases row with
  | some saved =>
    rw [loaded.kept saved rfl]
    rfl
  | none => exact (startingBytes_replicate (loaded.created rfl).2).symm

omit sound in
theorem startingBytes_of_new {starting total : Nat} {begun : DownloadProgress}
    (h : DownloadProgress.new starting (some total) = .ok begun) : starting ≤ total := by
  obtain ⟨downloaded, known⟩ := DownloadProgress.new_ok h
  exact downloaded ▸ begun.within total known

section

variable (unchanged : Unchanged identity urls input bodies plan visit now)
include unchanged

/-- An accepted preparation is one whose totals are, and whose start the manager takes. -/
theorem accepted_of_totals
    (loaded : Loaded (PlanFingerprint.of identity visit.plan input.request.url) visit.plan
      job.staging.row state) (evaluated : prepareAt identity urls input job visit =
      (.ok (preparedWith urls { input with progress := job.progress } visit state), some state))
    (covered : ∀ total ∈ (declaredTotal (visit.measured urls input.request) visit.plan).1,
      state.startingBytes ≤ total) :
    Accepted identity urls input job visit now := by
  have ready := (sound.again unchanged.media).loaded loaded
  refine ⟨_, _, evaluated, ⟨_, DownloadProgress.new_of_le covered⟩, rfl, fun saved stored => ?_,
    continues_of_backed ready.backed⟩
  rw [loaded.kept saved stored]

/-- A size measured now and saved otherwise before is refused. -/
theorem refused_of_totals {saved total : Nat} (tracks : plan.trackCount = 1 ∨ plan.trackCount = 2)
    (measured : declaredTotal (visit.measured urls input.request) visit.plan = (some total, false))
    (stored : job.progress.totalBytes = some saved) (differs : saved ≠ total) :
    ¬Accepted identity urls input job visit now := by
  intro accepted
  obtain ⟨prepared, row, found, -⟩ := accepted
  obtain ⟨state, -, evaluated⟩ := prepareAt_eq sound unchanged tracks
  rw [measured, stored, eval_acceptTotal_refused state (some state) differs] at evaluated
  cases found.symm.trans evaluated

/-- Totals that agree are accepted; an estimate is, whatever total was saved. -/
theorem prepares_of_totals
    (tracks : plan.trackCount = 1 ∨ plan.trackCount = 2) {total : Option Nat} {estimated : Bool}
    (declared : declaredTotal (visit.measured urls input.request) visit.plan = (total, estimated))
    (agreed : ∀ state, Loaded (PlanFingerprint.of identity visit.plan input.request.url) visit.plan
      job.staging.row state → estimated = true ∨
        ((∀ a ∈ job.progress.totalBytes, ∀ b ∈ total, a = b) ∧ ∀ b ∈ total, state.startingBytes ≤ b)) :
    ∃ state, Loaded (PlanFingerprint.of identity visit.plan input.request.url) visit.plan
        job.staging.row state ∧ prepareAt identity urls input job visit =
      (.ok (preparedWith urls { input with progress := job.progress } visit state), some state) := by
  obtain ⟨state, loaded, evaluated⟩ := prepareAt_eq sound unchanged tracks
  rw [declared, eval_acceptTotal (some state) (agreed state loaded)] at evaluated
  exact ⟨state, loaded, evaluated⟩

end

end

/-- At every point of every run of a job whose media stays the same, the next attempt
is accepted and continues exactly where the totals agree. -/
theorem unchanged_media_accepted_iff (tracks : plan.trackCount = 1 ∨ plan.trackCount = 2)
    (reached : JobReached identity urls input bodies plan job)
    (unchanged : Unchanged identity urls input bodies plan visit now) :
    Accepted identity urls input job visit now ↔ TotalsAgree urls input job visit now := by
  have sound := jobSound_of_reached tracks reached
  have within : ∀ state, Loaded (PlanFingerprint.of identity visit.plan input.request.url)
      visit.plan job.staging.row state → state.startingBytes ≤ mediaBytes now visit.plan := by
    intro state loaded
    exact startingBytes_le ((sound.again unchanged.media).loaded loaded).backed rfl
  obtain ⟨measured, unmeasured⟩ := measured_eq unchanged.truthful
  have total_of_measured : Measurable now urls input.request visit →
      declaredTotal (visit.measured urls input.request) visit.plan =
        (some (mediaBytes now visit.plan), false) := by
    intro measurable
    rw [measured measurable]
    rfl
  have total_of_estimate : ¬Measurable now urls input.request visit →
      declaredTotal (visit.measured urls input.request) visit.plan =
        (visit.plan.estimatedTotalBytes, visit.plan.estimatedTotalBytes.isSome) := by
    intro not_measurable
    rw [unmeasured not_measurable]
    rfl
  constructor
  · intro accepted
    refine ⟨fun measurable saved stored => ?_, fun not_measurable estimate estimated => ?_⟩
    · by_contra differs
      exact refused_of_totals sound unchanged tracks (total_of_measured measurable) stored differs
        accepted
    · have total := total_of_estimate not_measurable
      rw [Option.mem_def.mp estimated] at total
      obtain ⟨state, loaded, evaluated⟩ :=
        prepares_of_totals sound unchanged tracks total fun _ _ => Or.inl rfl
      obtain ⟨prepared, row, found, ⟨begun, started⟩, -⟩ := accepted
      cases found.symm.trans evaluated
      have total_bytes : (preparedWith urls { input with progress := job.progress } visit
          state).totalBytes = some estimate := congrArg Prod.fst total
      rw [total_bytes] at started
      rw [loaded.durableTotal_eq]
      exact startingBytes_of_new started
  · intro agree
    by_cases measurable : Measurable now urls input.request visit
    · have total := total_of_measured measurable
      obtain ⟨state, loaded, evaluated⟩ := prepares_of_totals sound unchanged tracks total
        fun state loaded => Or.inr ⟨fun saved stored bytes same => by
          cases same
          exact agree.1 measurable saved stored, fun bytes same => by
          cases same
          exact within state loaded⟩
      refine accepted_of_totals sound unchanged loaded evaluated fun bytes same => ?_
      rw [total] at same
      cases same
      exact within state loaded
    · have total := total_of_estimate measurable
      obtain ⟨state, loaded, evaluated⟩ := prepares_of_totals sound unchanged tracks total
        fun state loaded => by
          cases visit.plan.estimatedTotalBytes with
          | some estimate => exact Or.inl rfl
          | none => exact Or.inr ⟨by rintro _ _ _ ⟨⟩, by rintro _ ⟨⟩⟩
      refine accepted_of_totals sound unchanged loaded evaluated fun bytes same => ?_
      rw [total] at same
      rw [← loaded.durableTotal_eq]
      exact agree.2 measurable bytes same

end Jobs

/-! ## A size measured late -/

/-- One segment of three bytes, estimated at a thousand. -/
def estimatedPlan : TrackPlan where
  kind := .hls
  resources := [⟨⟨"https://media/a".toList⟩, none, 0⟩]
  durationMillis := some 1000
  label := none
  bandwidth := some 8000
  declaredTotalBytes := none
  containerHint := some .ts

def segmentInput : ExecutionInput where
  id := ⟨1, Int.one_pos⟩
  request := ⟨⟨"https://media/index.m3u8".toList⟩, [], none⟩
  destination := ⟨"/downloads", none, .rename⟩
  progress := .default
  resource := none
  resolvedDestination := none

/-- The origin with the answer its probes get. -/
def visitAnswering (length : Option Nat) : Visit where
  plan := estimatedPlan
  contentType := none
  container := some .ts
  inspected _ := .ok ⟨length, none, none⟩
  ranged _ := .error .transport
  opened _ := .error .transport
  destination := ⟨"/downloads", some "index.ts", .rename⟩
  planned := ⟨"/downloads/index.ts"⟩

def plainIdentity : UrlIdentity where
  scheme _ := "https".toList
  hostStr _ := some "media".toList
  port _ := none
  path url := url.serialization
  queryPairs _ := []

def threeBytes : Bodies := fun _ _ => [1, 2, 3]

theorem visit_unchanged (length : Option Nat) (real : ∀ n ∈ length, n = 3) :
    Unchanged plainIdentity stagingUrls segmentInput threeBytes estimatedPlan
      (visitAnswering length) threeBytes := by
  refine ⟨⟨⟨rfl, ?_⟩, ?_⟩, ?_⟩
  · exact List.Forall₂.cons ⟨SameResource.refl _ _, rfl, rfl⟩ List.Forall₂.nil
  · exact List.Forall₂.cons rfl List.Forall₂.nil
  · intro resource member bytes told
    have one := List.mem_singleton.mp member
    subst one
    cases told with
    | inl declared => cases declared
    | inr probed =>
      cases length with
      | none => cases probed
      | some n =>
        cases probed
        exact real _ rfl

/-- The job after an attempt whose probes failed, paused before its first byte. -/
theorem estimated_job_reached : ∃ job,
    JobReached plainIdentity stagingUrls segmentInput threeBytes estimatedPlan job ∧
      job.progress.totalBytes = some 1000 ∧ durableTotal job.staging.row = 0 := by
  have start : JobReached plainIdentity stagingUrls segmentInput threeBytes estimatedPlan _ :=
    JobReached.fresh
  have unchanged := visit_unchanged none (by rintro _ ⟨⟩)
  have total : declaredTotal ((visitAnswering none).measured stagingUrls segmentInput.request)
      (visitAnswering none).plan = (some 1000, true) := by decide
  obtain ⟨state, loaded, prepared⟩ := prepares_of_totals
    (jobSound_of_reached (.inl rfl) start) unchanged (.inl rfl) total fun _ _ => .inl rfl
  have none_written : state.startingBytes = 0 :=
    startingBytes_replicate (loaded.created rfl).2
  obtain ⟨begun, started⟩ : ∃ begun, DownloadProgress.new state.startingBytes (some 1000) =
      .ok begun := by
    rw [none_written]
    exact ⟨_, rfl⟩
  have total_bytes : (preparedWith stagingUrls { segmentInput with progress := .default }
      (visitAnswering none) state).totalBytes = some 1000 := congrArg Prod.fst total
  have reached := JobReached.transferred start unchanged prepared (total_bytes ▸ started)
    Relation.ReflTransGen.refl ProgressSaved.begun
  refine ⟨_, reached, ?_, none_written⟩
  exact (DownloadProgress.new_ok started).2

/-- The size was estimated while the probes failed; once one is answered, the saved
estimate counts as another size and the job cannot go on. -/
theorem estimated_then_measured_refused :
    ∃ job, JobReached plainIdentity stagingUrls segmentInput threeBytes estimatedPlan job ∧
      Unchanged plainIdentity stagingUrls segmentInput threeBytes estimatedPlan
        (visitAnswering (some 3)) threeBytes ∧
      ¬Accepted plainIdentity stagingUrls segmentInput job (visitAnswering (some 3)) threeBytes := by
  obtain ⟨job, reached, saved, -⟩ := estimated_job_reached
  have unchanged := visit_unchanged (some 3) (by rintro _ ⟨⟩; rfl)
  have measured : declaredTotal ((visitAnswering (some 3)).measured stagingUrls
      segmentInput.request) (visitAnswering (some 3)).plan = (some 3, false) := by decide
  exact ⟨job, reached, unchanged, refused_of_totals (jobSound_of_reached (Or.inl rfl) reached)
    unchanged (Or.inl rfl) measured saved (by decide)⟩

theorem unchanged_media_accepted_iff_example :
    ∃ job, JobReached plainIdentity stagingUrls segmentInput threeBytes estimatedPlan job ∧
      job.progress.totalBytes = some 1000 ∧
      Accepted plainIdentity stagingUrls segmentInput job (visitAnswering none) threeBytes := by
  obtain ⟨job, reached, saved, durable⟩ := estimated_job_reached
  have unchanged := visit_unchanged none (by rintro _ ⟨⟩)
  have estimate : (visitAnswering none).plan.estimatedTotalBytes = some 1000 := by decide
  refine ⟨job, reached, saved,
    (unchanged_media_accepted_iff (Or.inl rfl) reached unchanged).mpr ⟨?_, ?_⟩⟩
  · intro measurable
    have silent := (measurable.1.resolve_left fun declared =>
      declared _ List.mem_cons_self rfl).2 _ List.mem_cons_self
    exact absurd rfl silent
  · intro _ bytes same
    rw [estimate] at same
    cases same
    rw [durable]
    exact Nat.zero_le _

end Gunda.Stream

import Gunda.Stream.Choice

/-!
# Where a manifest can steer the engine

Every reference goes through `resolve`, which accepts fetchable schemes only,
except the base URL of a representation addressed as a single file.
-/
namespace Gunda.Stream

open Gunda.Lib
open Gunda.Core (Url ExecutionSelection)
open Gunda.Stream.Hls (ResourceRef Playlist)
open Gunda.Stream.Dash (Mpd Period AdaptationSet Representation)

/-- Every URL the outcome of planning an HLS playlist names. -/
def HlsOutcome.urls : HlsOutcome → List Url
  | .fetchVariant url _ _ _ audio => url :: audio.toList
  | .ready plan => plan.resources.map (·.url)

variable (urls : UrlLibrary)

/-- The base URL joined with the first base URL of each enclosing level. -/
def joinedBase (base : Url) (mpd : Mpd) (period : Period) (set : AdaptationSet)
    (representation : Representation) : Option Url :=
  ([mpd.baseUrls, period.baseUrls, set.baseUrls, representation.baseUrls].filterMap
    List.head?).foldlM urls.join base

/-- Every representation chosen that is addressed as a single file is at a
fetchable URL once its base URLs are joined. -/
def SingleFilesFetchable (base : Url) (mpd : Mpd) (selection : Option ExecutionSelection) : Prop :=
  ∀ period choice, mpd.mediaPeriod = .ok period → Chosen period selection choice →
    ∀ set representation resolved, period.adaptationSets[choice.1]? = some set →
      set.representations[choice.2]? = some representation →
      representation.addressing set period = .singleFile →
      joinedBase urls base mpd period set representation = some resolved →
      isFetchable urls resolved = true

section Hls

variable {urls}
variable {base : Url}

theorem planSegments_fetchable {track : Nat} {segments : List Hls.Segment}
    {current : Option ResourceRef} {resources : List StreamResource}
    (h : planSegments urls base track current segments = .ok resources) :
    ∀ resource ∈ resources, isFetchable urls resource.url = true := by
  induction segments generalizing current resources with
  | nil =>
    cases h
    intro resource member
    cases member
  | cons segment segments ih =>
    unfold planSegments at h
    obtain ⟨initialization, planned, h⟩ := bind_ok h
    obtain ⟨media, resolved, h⟩ := bind_ok h
    obtain ⟨rest, others, h⟩ := bind_ok h
    cases h
    have initial : ∀ resource ∈ initialization, isFetchable urls resource.url = true := by
      unfold planInit at planned
      intro resource member
      split at planned
      · split at planned
        · obtain ⟨value, ok, same⟩ := map_ok planned
          subst same
          cases List.mem_singleton.mp member
          exact (resolve_ok urls ok).2.1
        · cases planned
          cases member
      · cases planned
        cases member
    intro resource member
    rcases List.mem_append.mp member with first | later
    · exact initial resource first
    · rcases List.mem_cons.mp later with rfl | later
      · exact (resolve_ok urls resolved).2.1
      · exact ih others resource later

theorem planMediaPlaylist_fetchable {playlist : Hls.MediaPlaylist} {track : Nat}
    {plan : TrackPlan} (h : planMediaPlaylist urls base playlist track = .ok plan) :
    ∀ resource ∈ plan.resources, isFetchable urls resource.url = true := by
  unfold planMediaPlaylist at h
  obtain ⟨_, h⟩ := guard_ok h
  obtain ⟨_, h⟩ := guard_ok h
  obtain ⟨_, h⟩ := guard_ok h
  obtain ⟨resources, planned, h⟩ := bind_ok h
  obtain ⟨built, new, h⟩ := bind_ok h
  cases h
  intro resource member
  rw [TrackPlan.withContainerHint_resources, TrackPlan.new_ok new] at member
  exact planSegments_fetchable planned resource member

theorem planHlsSelected_fetchable {decimals : Decimals} {playlist : Playlist}
    {selection : Option ExecutionSelection} {outcome : HlsOutcome}
    (h : planHlsSelected urls decimals base playlist selection = .ok outcome) :
    ∀ url ∈ outcome.urls, isFetchable urls url = true := by
  cases playlist with
  | master master =>
    unfold planHlsSelected at h
    obtain ⟨variant, _, h⟩ := bind_ok h
    obtain ⟨picture, resolved, h⟩ := bind_ok h
    obtain ⟨rendition, _, h⟩ := bind_ok h
    obtain ⟨audio, heard, h⟩ := bind_ok h
    cases h
    intro url member
    rcases List.mem_cons.mp member with rfl | later
    · exact (resolve_ok urls resolved).2.1
    · rcases optionMapM_ok heard with ⟨_, none⟩ | ⟨uri, image, _, some, ok⟩
      · subst none
        cases later
      · subst some
        cases List.mem_singleton.mp later
        obtain ⟨value, resolved, same⟩ := map_ok ok
        rw [← same]
        exact (resolve_ok urls resolved).2.1
  | media media =>
    unfold planHlsSelected at h
    dsimp only at h
    split at h
    · obtain ⟨plan, planned, same⟩ := map_ok h
      subst same
      intro url member
      obtain ⟨resource, inside, rfl⟩ := List.mem_map.mp member
      exact planMediaPlaylist_fetchable planned resource inside
    · cases h

end Hls

section Dash

variable {urls}
variable {base resolved : Url} {mpd : Mpd} {period : Period} {resources : List StreamResource}

theorem resolveChain_ok_iff {chain : List (List Text)} :
    resolveChain urls base chain = .ok resolved ↔
      (chain.filterMap List.head?).foldlM urls.join base = some resolved := by
  unfold resolveChain
  induction chain generalizing base with
  | nil =>
    constructor
    · intro h
      cases h
      rfl
    · intro h
      cases h
      rfl
  | cons baseUrls chain ih =>
    rw [List.foldlM_cons]
    cases baseUrls with
    | nil => exact ih
    | cons first others =>
      have heads : ((first :: others) :: chain).filterMap List.head? =
          first :: chain.filterMap List.head? := rfl
      rw [heads, List.foldlM_cons]
      dsimp only
      cases urls.join base first with
      | none =>
        constructor
        · intro absurdity
          cases absurdity
        · intro absurdity
          cases absurdity
      | some next => exact ih

theorem representationBase_ok_iff {set : AdaptationSet} {representation : Representation} :
    representationBase urls base mpd period set representation = .ok resolved ↔
      joinedBase urls base mpd period set representation = some resolved :=
  resolveChain_ok_iff

variable (urls) in
/-- A resource is what a reference resolves to. -/
def ResolvedAt (base : Url) (resource : StreamResource) : Prop :=
  ∃ uri byteRange, resolve urls base uri byteRange = .ok resource

theorem ResolvedAt.fetchable {resource : StreamResource} (h : ResolvedAt urls base resource) :
    isFetchable urls resource.url = true := by
  obtain ⟨_, _, ok⟩ := h
  exact (resolve_ok urls ok).2.1

theorem planTemplate_resolved {representation : Representation} {template : Dash.SegmentTemplate}
    {periodEnd : Option Nat}
    (h : planTemplate urls resolved representation template periodEnd = .ok resources) :
    ∀ resource ∈ resources, ResolvedAt urls resolved resource := by
  unfold planTemplate at h
  obtain ⟨media, _, h⟩ := bind_ok h
  obtain ⟨initialization, initial, h⟩ := bind_ok h
  have expanded : ∀ {pattern number time resource},
      (do
        let uri ← substituteTemplate pattern representation.id representation.bandwidth number time
        resolve urls resolved uri none) = .ok resource →
      ResolvedAt urls resolved resource := by
    intro pattern number time resource ok
    obtain ⟨uri, _, ok⟩ := bind_ok ok
    exact ⟨uri, none, ok⟩
  have first : ∀ resource ∈ initialization.toList, ResolvedAt urls resolved resource := by
    intro resource member
    rcases optionMapM_ok initial with ⟨_, none⟩ | ⟨pattern, image, _, some, ok⟩
    · subst none
      cases member
    · subst some
      cases List.mem_singleton.mp member
      exact expanded ok
  intro resource member
  split at h
  · obtain ⟨times, _, h⟩ := bind_ok h
    obtain ⟨_, h⟩ := guard_ok h
    obtain ⟨segments, planned, h⟩ := bind_ok h
    cases h
    rcases List.mem_append.mp member with initial | later
    · exact first resource initial
    · obtain ⟨time, _, ok⟩ := mapM_ok_mem planned later
      exact expanded ok
  · obtain ⟨duration, _, h⟩ := bind_ok h
    obtain ⟨count, _, h⟩ := bind_ok h
    obtain ⟨_, h⟩ := guard_ok h
    obtain ⟨segments, planned, h⟩ := bind_ok h
    cases h
    rcases List.mem_append.mp member with initial | later
    · exact first resource initial
    · obtain ⟨index, _, ok⟩ := mapM_ok_mem planned later
      exact expanded ok

theorem planList_resolved {list : Dash.SegmentList}
    (h : planList urls resolved list = .ok resources) :
    ∀ resource ∈ resources, ResolvedAt urls resolved resource := by
  unfold planList at h
  obtain ⟨initialization, initial, h⟩ := bind_ok h
  obtain ⟨segmentUrls, _, h⟩ := bind_ok h
  obtain ⟨_, h⟩ := guard_ok h
  obtain ⟨segments, planned, h⟩ := bind_ok h
  cases h
  intro resource member
  rcases List.mem_append.mp member with first | later
  · rcases optionMapM_ok initial with ⟨_, none⟩ | ⟨source, image, _, some, ok⟩
    · subst none
      cases first
    · subst some
      cases List.mem_singleton.mp first
      exact ⟨_, _, ok⟩
  · obtain ⟨segment, _, ok⟩ := mapM_ok_mem planned later
    exact ⟨_, _, ok⟩

/-- A single file is planned at its joined base URL, whatever its scheme. -/
theorem planSingleFile_ok (h : planSingleFile urls resolved = .ok resources) :
    resources = [⟨resolved, none, 0⟩] := by
  unfold planSingleFile at h
  split at h
  · cases h
  · cases h
    rfl

/-- The representation is not a single file at a URL that is not fetchable. -/
def FileFetchable (urls : UrlLibrary) (base : Url) (mpd : Mpd) (period : Period)
    (set : AdaptationSet) (index : Nat) : Prop :=
  ∀ representation resolved, set.representations[index]? = some representation →
    representation.addressing set period = .singleFile →
    representationBase urls base mpd period set representation = .ok resolved →
    isFetchable urls resolved = true

theorem planSet_fetchable_iff {set : AdaptationSet} {index : Nat} {planned : PlannedSet}
    (h : planSet urls base mpd period set index = .ok planned) :
    (∀ resource ∈ planned.resources, isFetchable urls resource.url = true) ↔
      FileFetchable urls base mpd period set index := by
  unfold planSet at h
  obtain ⟨representation, found, h⟩ := bind_ok h
  obtain ⟨resolved, joined, h⟩ := bind_ok h
  obtain ⟨resources, addressed, h⟩ := bind_ok h
  cases h
  have found := required_ok found
  have fetchable (addressing : representation.addressing set period ≠ .singleFile)
      (all : ∀ resource ∈ resources, isFetchable urls resource.url = true) :
      (∀ resource ∈ resources, isFetchable urls resource.url = true) ↔
        FileFetchable urls base mpd period set index := by
    refine ⟨fun _ other _ same single _ => ?_, fun _ => all⟩
    rw [found] at same
    cases same
    exact absurd single addressing
  cases addressing : representation.addressing set period with
  | template template =>
    rw [addressing] at addressed fetchable
    exact fetchable nofun fun resource member => (planTemplate_resolved addressed resource member).fetchable
  | list list =>
    rw [addressing] at addressed fetchable
    exact fetchable nofun fun resource member => (planList_resolved addressed resource member).fetchable
  | base segmentBase =>
    rw [addressing] at addressed
    cases addressed
  | singleFile =>
    rw [addressing] at addressed
    cases planSingleFile_ok addressed
    constructor
    · intro all other joinedUrl same _ chain
      rw [found] at same
      cases same
      rw [joined] at chain
      cases chain
      exact all _ List.mem_cons_self
    · intro condition resource member
      cases List.mem_singleton.mp member
      exact condition representation resolved found addressing joined

theorem planDashTrack_fetchable_iff {choice : Nat × Nat} {plan : TrackPlan}
    (h : planDashTrack urls base mpd period choice.1 choice.2 = .ok plan) :
    (∀ resource ∈ plan.resources, isFetchable urls resource.url = true) ↔
      ∀ set, period.adaptationSets[choice.1]? = some set →
        FileFetchable urls base mpd period set choice.2 := by
  unfold planDashTrack at h
  obtain ⟨set, found, h⟩ := bind_ok h
  obtain ⟨planned, ok, h⟩ := bind_ok h
  obtain ⟨track, built, h⟩ := bind_ok h
  cases h
  have found := required_ok found
  rw [TrackPlan.withBandwidth_resources, TrackPlan.withContainerHint_resources,
    TrackPlan.new_ok built, planSet_fetchable_iff ok]
  constructor
  · intro condition other at_
    rw [found] at at_
    cases at_
    exact condition
  · exact fun condition => condition set found

/-- The audio resources of a plan are the audio track's, under another number. -/
theorem withTrack_fetchable_iff {track : Nat} :
    (∀ resource ∈ resources.map (·.withTrack track), isFetchable urls resource.url = true) ↔
      ∀ resource ∈ resources, isFetchable urls resource.url = true := by
  simp only [List.mem_map, forall_exists_index, and_imp, forall_apply_eq_imp_iff₂,
    StreamResource.withTrack_url]

theorem planDashSelected_fetchable_iff {selection : Option ExecutionSelection} {plan : TrackPlan}
    (h : planDashSelected urls base mpd selection = .ok plan) :
    (∀ resource ∈ plan.resources, isFetchable urls resource.url = true) ↔
      SingleFilesFetchable urls base mpd selection := by
  unfold planDashSelected at h
  obtain ⟨_, h⟩ := guard_ok h
  obtain ⟨period, only, h⟩ := bind_ok h
  obtain ⟨tracks, chosen, h⟩ := bind_ok h
  obtain ⟨videoPlan, video, h⟩ := bind_ok h
  obtain ⟨audioPlan, audio, h⟩ := bind_ok h
  have condition : SingleFilesFetchable urls base mpd selection ↔
      ∀ choice ∈ tracks.video.toList ++ tracks.audio.toList, ∀ set,
        period.adaptationSets[choice.1]? = some set →
        FileFetchable urls base mpd period set choice.2 := by
    simp only [FileFetchable, representationBase_ok_iff]
    constructor
    · intro fetchable choice member set at_ representation resolved
      exact fetchable period choice only ((chosenDashTracks_choices chosen choice).mp member)
        set representation resolved at_
    · intro fetchable other choice same again set representation resolved at_
      rw [only] at same
      cases same
      exact fetchable choice ((chosenDashTracks_choices chosen choice).mpr again) set at_
        representation resolved
  rw [condition, List.forall_mem_append]
  rcases optionMapM_ok video with ⟨noVideo, rfl⟩ | ⟨choice, track, someVideo, rfl, planned⟩ <;>
    rcases optionMapM_ok audio with ⟨noAudio, rfl⟩ | ⟨sound, heard, someAudio, rfl, also⟩
  · cases h
  · cases h
    simp only [noVideo, someAudio, Option.toList_none, Option.toList_some, List.not_mem_nil,
      false_implies, implies_true, true_and, List.mem_singleton, forall_eq]
    exact planDashTrack_fetchable_iff also
  · cases h
    simp only [someVideo, noAudio, Option.toList_none, Option.toList_some, List.not_mem_nil,
      false_implies, implies_true, and_true, List.mem_singleton, forall_eq]
    exact planDashTrack_fetchable_iff planned
  · have both := TrackPlan.withAudio_ok h
    rw [both, List.forall_mem_append, withTrack_fetchable_iff]
    simp only [someVideo, someAudio, Option.toList_some, List.mem_singleton, forall_eq]
    exact and_congr (planDashTrack_fetchable_iff planned) (planDashTrack_fetchable_iff also)

end Dash

/-- Whatever an HLS playlist says, every URL of the outcome is fetchable; every
resource planned from an MPD is, exactly when every chosen single file is. -/
theorem planned_urls_fetchable_iff (decimals : Decimals) (base : Url)
    (selection : Option ExecutionSelection) :
    (∀ playlist outcome, planHlsSelected urls decimals base playlist selection = .ok outcome →
      ∀ url ∈ outcome.urls, isFetchable urls url = true) ∧
    ∀ mpd plan, planDashSelected urls base mpd selection = .ok plan →
      ((∀ resource ∈ plan.resources, isFetchable urls resource.url = true) ↔
        SingleFilesFetchable urls base mpd selection) :=
  ⟨fun _ _ => planHlsSelected_fetchable, fun _ _ => planDashSelected_fetchable_iff⟩

/-- A single-file representation whose base URL names a local file. -/
def steeringMpd : Text :=
  ("<MPD><Period duration=\"PT4S\"><AdaptationSet contentType=\"video\">" ++
    "<Representation id=\"v\" bandwidth=\"1\"><BaseURL>file:///etc/passwd</BaseURL>" ++
    "</Representation></AdaptationSet></Period></MPD>").toList

theorem single_file_steers_to_local_file :
    isFetchable sampleUrls sampleBase = true ∧
    ∃ mpd plan, Dash.parse sampleDecimals steeringMpd = .ok mpd ∧
      planDash sampleUrls sampleBase mpd = .ok plan ∧
      ¬ ∀ resource ∈ plan.resources, isFetchable sampleUrls resource.url = true := by
  have steered : (Dash.parse sampleDecimals steeringMpd).toOption.any (fun mpd =>
      (planDash sampleUrls sampleBase mpd).toOption.any fun plan =>
        plan.resources.any fun resource => !isFetchable sampleUrls resource.url) = true := by
    decide +kernel
  obtain ⟨mpd, parsed, steered⟩ := toOption_any_ok steered
  obtain ⟨plan, planned, steered⟩ := toOption_any_ok steered
  obtain ⟨resource, member, refused⟩ := List.any_eq_true.mp steered
  refine ⟨by decide, mpd, plan, parsed, planned, fun all => ?_⟩
  rw [all resource member] at refused
  cases refused

theorem planned_urls_fetchable_iff_example :
    (∃ playlist outcome,
      planHlsSelected sampleUrls sampleDecimals sampleBase playlist none = .ok outcome ∧
        ∀ url ∈ outcome.urls, isFetchable sampleUrls url = true) ∧
    ∃ mpd plan, planDashSelected sampleUrls sampleBase mpd none = .ok plan ∧
      ((∀ resource ∈ plan.resources, isFetchable sampleUrls resource.url = true) ↔
        SingleFilesFetchable sampleUrls sampleBase mpd none) := by
  have hls : (Hls.parse sampleDecimals
      "#EXTM3U\n#EXTINF:4,\nseg.ts\n#EXT-X-ENDLIST\n".toList).toOption.any (fun playlist =>
      (planHlsSelected sampleUrls sampleDecimals sampleBase playlist none).toOption.isSome) =
        true := by
    decide +kernel
  have dash : (Dash.parse sampleDecimals steeringMpd).toOption.any (fun mpd =>
      (planDashSelected sampleUrls sampleBase mpd none).toOption.isSome) = true := by
    decide +kernel
  obtain ⟨playlist, _, hls⟩ := toOption_any_ok hls
  obtain ⟨outcome, heard, _⟩ := toOption_any_ok (p := fun _ => true)
    (by simpa [Option.any_true] using hls)
  obtain ⟨mpd, _, dash⟩ := toOption_any_ok dash
  obtain ⟨plan, planned, _⟩ := toOption_any_ok (p := fun _ => true)
    (by simpa [Option.any_true] using dash)
  exact ⟨⟨playlist, outcome, heard,
      (planned_urls_fetchable_iff sampleUrls sampleDecimals sampleBase none).1 playlist outcome heard⟩,
    mpd, plan, planned,
      (planned_urls_fetchable_iff sampleUrls sampleDecimals sampleBase none).2 mpd plan planned⟩

end Gunda.Stream

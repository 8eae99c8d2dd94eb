import Gunda.Stream.Plan

/-!
# The plan of a media playlist

What `plan_media_playlist` makes of the segments, each by its place: its media resource, and
ahead of it the map it needs where the segment before it needs another one or none.
-/
namespace Gunda.Stream

open Gunda.Lib Gunda.Lib.Text
open Gunda.Core (Url)
open Gunda.Stream.Hls (ResourceRef Segment MediaPlaylist)

/-- What is planned for one segment. -/
structure SegmentPlan where
  initialization : Option StreamResource
  media : StreamResource
  deriving DecidableEq, Repr

def SegmentPlan.resources (plan : SegmentPlan) : List StreamResource :=
  plan.initialization.toList ++ [plan.media]

/-- The map in effect for the segment ahead of a place; `before` is ahead of them all. -/
def mapAhead (before : Option ResourceRef) (segments : List Segment) : Nat → Option ResourceRef
  | 0 => before
  | place + 1 => segments[place]?.bind (·.init)

/-- The map that has to be fetched ahead of a segment. -/
def freshMap (ahead : Option ResourceRef) (segment : Segment) : Option ResourceRef :=
  segment.init.filter fun map => ahead ≠ some map

section

variable {urls : UrlLibrary} {base : Url} {track : Nat}

variable (urls base track) in
/-- The resource a reference of the playlist resolves to, on the requested track. -/
structure Names (reference : ResourceRef) (resource : StreamResource) : Prop where
  url : urls.join base reference.uri = some resource.url
  byteRange : resource.byteRange = reference.byteRange
  track : resource.track = track

variable (urls base track) in
/-- A segment's plan: its resource, and its map exactly where that is a fresh one. -/
structure Plans (ahead : Option ResourceRef) (segment : Segment) (plan : SegmentPlan) : Prop where
  media : Names urls base track segment.resource plan.media
  fresh : plan.initialization.isSome = (freshMap ahead segment).isSome
  initialization : ∀ resource ∈ plan.initialization, ∀ map ∈ segment.init,
    Names urls base track map resource

variable (urls base track) in
/-- The resources are those of the segments, in order and by place. -/
structure FollowsSegments (before : Option ResourceRef) (segments : List Segment)
    (resources : List StreamResource) (plans : List SegmentPlan) : Prop where
  resources : resources = plans.flatMap SegmentPlan.resources
  length : plans.length = segments.length
  plans : ∀ place segment, segments[place]? = some segment → ∃ plan, plans[place]? = some plan ∧
    Plans urls base track (mapAhead before segments place) segment plan

theorem resolve_names {reference : ResourceRef} {resource : StreamResource}
    (h : resolve urls base reference.uri reference.byteRange = .ok resource) :
    Names urls base track reference (resource.withTrack track) := by
  obtain ⟨joined, _, same⟩ := resolve_ok urls h
  exact ⟨joined, congrArg StreamResource.byteRange same, rfl⟩

theorem planInit_plans {ahead : Option ResourceRef} {segment : Segment}
    {initialization : List StreamResource}
    (h : planInit urls base track ahead segment = .ok initialization) :
    ∃ resource : Option StreamResource, initialization = resource.toList ∧
      resource.isSome = (freshMap ahead segment).isSome ∧
      ∀ found ∈ resource, ∀ map ∈ segment.init, Names urls base track map found := by
  unfold planInit at h
  unfold freshMap
  cases declared : segment.init with
  | none =>
    rw [declared] at h
    cases h
    exact ⟨none, rfl, rfl, fun _ impossible => nomatch impossible⟩
  | some map =>
    rw [declared] at h
    dsimp only at h
    by_cases differs : ahead ≠ some map
    · rw [if_pos differs] at h
      obtain ⟨resource, resolved, same⟩ := map_ok h
      refine ⟨some (resource.withTrack track), same.symm, ?_, ?_⟩
      · have kept : (some map).filter (fun map => ahead ≠ some map) = some map :=
          Option.filter_some_pos (by simpa using differs)
        rw [kept]
        rfl
      · intro found member other declared
        cases member
        cases declared
        exact resolve_names resolved
    · rw [if_neg differs] at h
      cases h
      refine ⟨none, rfl, ?_, fun _ impossible => nomatch impossible⟩
      have dropped : (some map).filter (fun map => ahead ≠ some map) = none :=
        Option.filter_some_neg (by simpa using differs)
      rw [dropped]
      rfl

variable {resources : List StreamResource}

theorem planSegments_follows {before : Option ResourceRef} {segments : List Segment}
    (h : planSegments urls base track before segments = .ok resources) :
    ∃ plans, FollowsSegments urls base track before segments resources plans := by
  induction segments generalizing before resources with
  | nil =>
    cases h
    exact ⟨[], rfl, rfl, fun _ _ impossible => nomatch impossible⟩
  | cons segment segments ih =>
    unfold planSegments at h
    obtain ⟨initialization, planned, h⟩ := bind_ok h
    obtain ⟨media, resolved, h⟩ := bind_ok h
    obtain ⟨rest, later, h⟩ := bind_ok h
    cases h
    obtain ⟨resource, list, fresh, names⟩ := planInit_plans planned
    obtain ⟨plans, follows⟩ := ih later
    refine ⟨⟨resource, media.withTrack track⟩ :: plans, ?_, ?_, ?_⟩
    · rw [List.flatMap_cons, ← follows.resources, list]
      exact List.append_cons _ _ _
    · rw [List.length_cons, List.length_cons, follows.length]
    · intro place found at_
      cases place with
      | zero =>
        cases at_
        exact ⟨_, rfl, resolve_names resolved, fresh, names⟩
      | succ place =>
        obtain ⟨plan, there, holds⟩ := follows.plans place found at_
        refine ⟨plan, there, ?_⟩
        cases place <;> exact holds

theorem FollowsSegments.requested {before : Option ResourceRef} {segments : List Segment}
    {plans : List SegmentPlan}
    (follows : FollowsSegments urls base track before segments resources plans) :
    ∀ resource ∈ resources, resource.track = track := by
  intro resource member
  rw [follows.resources] at member
  obtain ⟨plan, inside, member⟩ := List.mem_flatMap.mp member
  obtain ⟨place, bound, at_⟩ := List.getElem_of_mem inside
  have below : place < segments.length := follows.length ▸ bound
  obtain ⟨other, there, holds⟩ := follows.plans place _ (List.getElem?_eq_getElem below)
  rw [List.getElem?_eq_getElem bound] at there
  cases there
  subst at_
  rcases List.mem_append.mp member with first | media
  · have present := Option.mem_toList.mp first
    have fresh := holds.fresh
    rw [present] at fresh
    obtain ⟨map, found⟩ := Option.isSome_iff_exists.mp fresh.symm
    exact (holds.initialization resource present map (Option.filter_eq_some_iff.mp found).1).track
  · rw [List.mem_singleton.mp media]
    exact holds.media.track

theorem TrackPlan.new_bound {kind : StreamKind} {duration : Option Nat} {label : Option Text}
    {plan : TrackPlan} (h : TrackPlan.new kind resources duration label = .ok plan) :
    plan.resources.length ≤ maxSegments := by
  have same := TrackPlan.new_ok h
  unfold TrackPlan.new at h
  obtain ⟨_, h⟩ := throw_unless_ok h
  obtain ⟨within, _⟩ := throw_unless_ok h
  rw [same]
  exact Nat.le_of_not_lt within

/-- A plan is its segments in order, each fresh map ahead of the segment that needs it. -/
theorem media_playlist_planned_by_segment {playlist : MediaPlaylist} {plan : TrackPlan}
    (h : planMediaPlaylist urls base playlist track = .ok plan) :
    (∃ plans, FollowsSegments urls base track none playlist.segments plan.resources plans) ∧
      (∀ resource ∈ plan.resources, resource.track = track) ∧
      plan.resources.length ≤ maxSegments := by
  unfold planMediaPlaylist at h
  obtain ⟨_, h⟩ := guard_ok h
  obtain ⟨_, h⟩ := guard_ok h
  obtain ⟨_, h⟩ := guard_ok h
  obtain ⟨resources, segments, h⟩ := bind_ok h
  obtain ⟨built, new, h⟩ := bind_ok h
  cases h
  obtain ⟨plans, follows⟩ := planSegments_follows segments
  rw [TrackPlan.withContainerHint_resources, TrackPlan.new_ok new]
  refine ⟨⟨plans, follows⟩, follows.requested, ?_⟩
  rw [← TrackPlan.new_ok new]
  exact TrackPlan.new_bound new

end

/-- A map comes, changes, is dropped and comes back. -/
def changingMaps : MediaPlaylist where
  segments := [some "a.mp4", some "a.mp4", some "b.mp4", none, some "b.mp4"].map fun map =>
    { resource := ⟨"s.m4s".toList, none⟩
      durationMillis := none
      mediaSequence := 0
      init := map.map fun uri => ⟨uri.toList, none⟩
      key := none
      discontinuity := false }
  targetDurationSecs := none
  ended := true

theorem changing_maps_planned : ∃ plan,
    planMediaPlaylist sampleUrls sampleBase changingMaps 1 = .ok plan ∧
    (∃ plans,
      FollowsSegments sampleUrls sampleBase 1 none changingMaps.segments plan.resources plans) ∧
    (∀ resource ∈ plan.resources, resource.track = 1) ∧ plan.resources.length ≤ maxSegments := by
  have accepted : (planMediaPlaylist sampleUrls sampleBase changingMaps 1).toOption.any
      (fun plan => plan.resources.length = 8) = true := by
    decide +kernel
  obtain ⟨plan, planned, _⟩ := toOption_any_ok accepted
  exact ⟨plan, planned, media_playlist_planned_by_segment planned⟩

end Gunda.Stream

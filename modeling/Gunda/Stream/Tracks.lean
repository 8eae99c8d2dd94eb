import Gunda.Stream.Steering

/-!
# Plans of two tracks

The list that `TrackPlan::with_audio` joins, against the filter that the executor takes it
apart with.
-/
namespace Gunda.Stream

open Gunda.Lib
open Gunda.Core (Url)


namespace TrackPlan

variable {plan : TrackPlan}

/-- The plans that can be built; nothing else makes one or changes its resources. -/
inductive Built : TrackPlan → Prop
  | new {kind : StreamKind} {resources : List StreamResource} {durationMillis : Option Nat}
      {label : Option Text} {plan : TrackPlan}
      (h : TrackPlan.new kind resources durationMillis label = .ok plan) : Built plan
  | hinted {plan : TrackPlan} (built : Built plan) (hint : Container) :
      Built (plan.withContainerHint hint)
  | bandwidth {plan : TrackPlan} (built : Built plan) (bandwidth : Option Nat) :
      Built (plan.withBandwidth bandwidth)
  | declared {plan : TrackPlan} (built : Built plan) (total : Option Nat) :
      Built (plan.withDeclaredTotal total)
  | retracked {plan : TrackPlan} (built : Built plan) (track : Nat) : Built (plan.retracked track)
  | joined {video audio both : TrackPlan} (first : Built video) (second : Built audio)
      (h : video.withAudio audio = .ok both) : Built both

theorem new_some {kind : StreamKind} {resources : List StreamResource} {duration : Option Nat}
    {label : Option Text} (h : new kind resources duration label = .ok plan) :
    plan.resources ≠ [] := by
  have same := new_ok h
  unfold new at h
  obtain ⟨some_, _⟩ := throw_unless_ok h
  rw [same]
  exact some_

theorem withAudio_bound {video audio both : TrackPlan} (h : video.withAudio audio = .ok both) :
    both.resources.length ≤ maxSegments := by
  have joined := withAudio_ok h
  unfold withAudio at h
  obtain ⟨_, h⟩ := throw_unless_ok h
  obtain ⟨within, _⟩ := throw_unless_ok h
  rw [joined, List.length_append, List.length_map]
  exact Nat.le_of_not_lt within

/-- A plan has a resource. -/
theorem Built.some (built : Built plan) : plan.resources ≠ [] := by
  induction built with
  | new h => exact new_some h
  | hinted _ _ ih => exact ih
  | bandwidth _ _ ih => exact ih
  | declared _ _ ih => exact ih
  | retracked _ track ih => simpa [TrackPlan.retracked] using ih
  | joined _ _ h ih =>
    rw [withAudio_ok h]
    exact List.append_ne_nil_of_left_ne_nil ih _

/-! ## The number of tracks -/

theorem trackCount_eq {last : Nat} (within : ∀ resource ∈ plan.resources, resource.track ≤ last)
    (reached : ∃ resource ∈ plan.resources, resource.track = last) :
    plan.trackCount = last + 1 := by
  obtain ⟨resource, member, same⟩ := reached
  have highest : (plan.resources.map (·.track + 1)).max? = some (last + 1) := by
    rw [List.max?_eq_some_iff]
    constructor
    · exact List.mem_map.mpr ⟨resource, member, by rw [same]⟩
    · intro n listed
      obtain ⟨other, inside, named⟩ := List.mem_map.mp listed
      have small := within other inside
      omega
  unfold trackCount
  rw [List.foldl_max, highest]
  exact Nat.zero_max _

end TrackPlan

/-! ## Joining two plans -/

/-- What a resource is fetched from. -/
def StreamResource.origin (resource : StreamResource) : Url × Option Hls.ByteRange :=
  (resource.url, resource.byteRange)

theorem filter_track {resources : List StreamResource} {track : Nat}
    (all : ∀ resource ∈ resources, resource.track = track) (other : Nat) :
    resources.filter (fun resource => resource.track = other) =
      if track = other then resources else [] := by
  by_cases same : track = other
  · rw [if_pos same, List.filter_eq_self]
    intro resource member
    exact decide_eq_true ((all resource member).trans same)
  · rw [if_neg same, List.filter_eq_nil_iff]
    intro resource member found
    exact same ((all resource member).symm.trans (of_decide_eq_true found))

theorem withTrack_tracks (resources : List StreamResource) (track : Nat) :
    ∀ resource ∈ resources.map (·.withTrack track), resource.track = track := by
  intro resource member
  obtain ⟨_, _, same⟩ := List.mem_map.mp member
  rw [← same]
  rfl

theorem withTrack_origins (resources : List StreamResource) (track : Nat) :
    (resources.map (·.withTrack track)).map StreamResource.origin =
      resources.map StreamResource.origin := by
  rw [List.map_map]
  rfl

section

variable {video audio both : TrackPlan}

section

variable (first : ∀ resource ∈ video.resources, resource.track = 0)
include first

theorem withAudio_picture
    (h : video.withAudio audio = .ok both) : both.resourcesOf 0 = video.resources := by
  have second := withTrack_tracks audio.resources 1
  unfold TrackPlan.resourcesOf
  rw [TrackPlan.withAudio_ok h, List.filter_append, filter_track first, filter_track second]
  exact List.append_nil _

theorem withAudio_sound (h : video.withAudio audio = .ok both) :
    both.resourcesOf 1 = audio.resources.map (·.withTrack 1) := by
  have second := withTrack_tracks audio.resources 1
  unfold TrackPlan.resourcesOf
  rw [TrackPlan.withAudio_ok h, List.filter_append, filter_track first, filter_track second]
  rfl

theorem withAudio_trackCount
    (built : audio.Built) (h : video.withAudio audio = .ok both) : both.trackCount = 2 := by
  have joined := TrackPlan.withAudio_ok h
  apply TrackPlan.trackCount_eq
  · intro resource member
    rw [joined] at member
    cases List.mem_append.mp member with
    | inl picture =>
      rw [first resource picture]
      exact Nat.zero_le 1
    | inr track => exact Nat.le_of_eq (withTrack_tracks audio.resources 1 resource track)
  · obtain ⟨resource, member⟩ := List.exists_mem_of_ne_nil _ built.some
    refine ⟨resource.withTrack 1, ?_, rfl⟩
    rw [joined]
    exact List.mem_append_right _ (List.mem_map_of_mem member)

end

/-- The filter gives back both plans: the picture's as it was, and the sound's under the
number of its track. -/
theorem tracks_kept_apart (built : audio.Built)
    (first : ∀ resource ∈ video.resources, resource.track = 0)
    (h : video.withAudio audio = .ok both) :
    both.resourcesOf 0 = video.resources ∧
      both.resourcesOf 1 = audio.resources.map (·.withTrack 1) ∧
      (both.resourcesOf 1).map StreamResource.origin = audio.resources.map StreamResource.origin ∧
      both.trackCount = 2 ∧ both.resources.length ≤ maxSegments := by
  have sound := withAudio_sound first h
  refine ⟨withAudio_picture first h, sound, ?_, withAudio_trackCount first built h,
    TrackPlan.withAudio_bound h⟩
  rw [sound, withTrack_origins]

end

/-- A plan of a few resources that have their ranges of one file each. -/
def planOf (names : List String) (hint : Container) : Except ManifestError TrackPlan :=
  (TrackPlan.new .dash (names.map fun name => ⟨⟨name.toList⟩, some ⟨10, some 5⟩, 0⟩) (some 4000)
    none).map (·.withContainerHint hint)

theorem planOf_built {names : List String} {hint : Container} {plan : TrackPlan}
    (h : planOf names hint = .ok plan) : plan.Built := by
  obtain ⟨bare, new, same⟩ := map_ok h
  rw [← same]
  exact .hinted (.new new) hint

theorem tracks_kept_apart_example : ∃ video audio both : TrackPlan,
    planOf ["v1", "v2"] .mp4 = .ok video ∧ planOf ["a1", "a2", "a3"] .m4a = .ok audio ∧
    video.withAudio audio = .ok both ∧
    both.resourcesOf 0 = video.resources ∧
      both.resourcesOf 1 = audio.resources.map (·.withTrack 1) ∧
      (both.resourcesOf 1).map StreamResource.origin = audio.resources.map StreamResource.origin ∧
      both.trackCount = 2 ∧ both.resources.length ≤ maxSegments := by
  have accepted : (do
      let video ← planOf ["v1", "v2"] .mp4
      let audio ← planOf ["a1", "a2", "a3"] .m4a
      let both ← video.withAudio audio
      pure (video, both)).toOption.any (fun found : TrackPlan × TrackPlan =>
        found.1.resources.all (·.track = 0)) = true := by
    decide +kernel
  obtain ⟨found, planned, first⟩ := toOption_any_ok accepted
  obtain ⟨video, picture, planned⟩ := bind_ok planned
  obtain ⟨audio, sound, planned⟩ := bind_ok planned
  obtain ⟨both, joined, planned⟩ := bind_ok planned
  cases planned
  exact ⟨video, audio, both, picture, sound, joined,
    tracks_kept_apart (planOf_built sound) (by simpa using first) joined⟩

end Gunda.Stream

import Gunda.Stream.Plan

/-!
# Which representations a plan is made of

Said of the period alone: the sets and representations of greatest bandwidth where
nothing is selected, and those a selection names.
-/
namespace Gunda.Stream

open Gunda.Lib
open Gunda.Core (ExecutionSelection)

variable {period : Dash.Period}

/-- The set of a period whose representations become the picture, or the only
track: the last of greatest bandwidth among the video sets, or among those that
are not text where there is no video. -/
def IsMainSet (period : Dash.Period) (index : Nat) : Prop :=
  let populated (kind : Dash.TrackKind → Bool) (set : Dash.AdaptationSet) : Bool :=
    kind set.kind && !set.representations.isEmpty
  IsLastMax (populated (· = .video)) bestBandwidth period.adaptationSets index ∨
    (∀ set ∈ period.adaptationSets, populated (· = .video) set = false) ∧
      IsLastMax (populated (· ≠ .text)) bestBandwidth period.adaptationSets index

/-- The representation of greatest bandwidth, then size, of a set. -/
def IsBestRepresentation (period : Dash.Period) (choice : Nat × Nat) : Prop :=
  ∃ set, period.adaptationSets[choice.1]? = some set ∧
    IsLastMax (fun _ => true) Dash.Representation.rank set.representations choice.2

/-- A representation that is played where nothing is selected: the best of the
main set, and beside a picture the best of the best audio set. -/
def PlayedByDefault (period : Dash.Period) (choice : Nat × Nat) : Prop :=
  IsBestRepresentation period choice ∧
    (IsMainSet period choice.1 ∨
      (∃ main set, IsMainSet period main ∧ period.adaptationSets[main]? = some set ∧
        set.kind = .video) ∧
      IsLastMax (fun set => set.kind = .audio && !set.representations.isEmpty) bestBandwidth
        period.adaptationSets choice.1)

/-- The indices of the tracks chosen. -/
def DashTracks.choices (tracks : DashTracks) : List (Nat × Nat) :=
  tracks.video.toList ++ tracks.audio.toList

theorem selectSetIndex_eq_some_iff {index : Nat} :
    selectSetIndex period = some index ↔ IsMainSet period index := by
  unfold selectSetIndex bestSetIndex IsMainSet
  rw [Option.or_eq_some_iff, lastMaxIndex_eq_some_iff, lastMaxIndex_eq_some_iff,
    lastMaxIndex_eq_none_iff]

theorem IsMainSet.unique {i j : Nat} (first : IsMainSet period i) (second : IsMainSet period j) :
    i = j := by
  rw [← selectSetIndex_eq_some_iff] at first second
  exact Option.some.inj (first.symm.trans second)

theorem bestRepresentation_iff {set index : Nat} :
    (period.adaptationSets[set]?.bind bestRepresentationIndex) = some index ↔
      IsBestRepresentation period (set, index) := by
  unfold IsBestRepresentation bestRepresentationIndex
  rw [Option.bind_eq_some_iff]
  simp only [lastMaxIndex_eq_some_iff]

theorem IsBestRepresentation.unique {set i j : Nat} (first : IsBestRepresentation period (set, i))
    (second : IsBestRepresentation period (set, j)) :
    i = j := by
  rw [← bestRepresentation_iff] at first second
  exact Option.some.inj (first.symm.trans second)

/-- The audio track beside a main set that is a picture. -/
theorem defaultAudio_iff {choice : Nat × Nat} :
    (do
      let audioSet ← audioSetIndex period
      let representation ← period.adaptationSets[audioSet]?.bind bestRepresentationIndex
      pure (audioSet, representation)) = some choice ↔
    IsLastMax (fun set => set.kind = .audio && !set.representations.isEmpty) bestBandwidth
        period.adaptationSets choice.1 ∧ IsBestRepresentation period choice := by
  obtain ⟨set, representation⟩ := choice
  simp only [Option.bind_eq_bind, Option.bind_eq_some_iff, Option.pure_def, Option.some.injEq,
    Prod.mk.injEq, ← lastMaxIndex_eq_some_iff, ← bestRepresentation_iff]
  constructor
  · rintro ⟨audioSet, found, index, best, rfl, rfl⟩
    exact ⟨found, best⟩
  · rintro ⟨found, best⟩
    exact ⟨set, found, representation, best, rfl, rfl⟩

/-- The default tracks are the representations played by default. -/
theorem defaultDashTracks_choices {tracks : DashTracks}
    (h : defaultDashTracks period = .ok tracks) (choice : Nat × Nat) :
    choice ∈ tracks.choices ↔ PlayedByDefault period choice := by
  unfold defaultDashTracks at h
  obtain ⟨videoSet, main, h⟩ := bind_ok h
  obtain ⟨videoIndex, best, h⟩ := bind_ok h
  cases h
  have main := selectSetIndex_eq_some_iff.mp (required_ok main)
  have best := bestRepresentation_iff.mp (required_ok best)
  unfold DashTracks.choices PlayedByDefault
  simp only [Option.toList_some, List.singleton_append, List.mem_cons, Option.mem_toList]
  constructor
  · rintro (rfl | audio)
    · exact ⟨best, .inl main⟩
    · split at audio
      · rename_i picture
        obtain ⟨set, at_, kind⟩ := Option.map_eq_some_iff.mp picture
        obtain ⟨greatest, best⟩ := defaultAudio_iff.mp audio
        exact ⟨best, .inr ⟨⟨videoSet, set, main, at_, kind⟩, greatest⟩⟩
      · cases audio
  · rintro ⟨good, same | ⟨⟨other, set, also, at_, kind⟩, greatest⟩⟩
    · obtain ⟨set, representation⟩ := choice
      cases main.unique same
      cases best.unique good
      exact .inl rfl
    · cases main.unique also
      refine .inr ?_
      rw [if_pos (by rw [at_, Option.map_some, kind])]
      exact defaultAudio_iff.mpr ⟨greatest, good⟩

/-- The representations a selection names, or those played by default. -/
def Chosen (period : Dash.Period) (selection : Option ExecutionSelection) (choice : Nat × Nat) :
    Prop :=
  match selection with
  | none => PlayedByDefault period choice
  | some selection => ∃ selected, Selection.parseDash selection = .ok selected ∧
      (selected.videoSet = some choice.1 ∧ selected.videoRepresentation = some choice.2 ∨
        selected.audioSet = some choice.1 ∧ selected.audioRepresentation = some choice.2)

theorem selectedDashTrack_ok {set representation : Option Nat} {kind : Dash.TrackKind}
    {bandwidth : Option Nat} {track : Option (Nat × Nat)}
    (h : selectedDashTrack period set representation kind bandwidth = .ok track)
    (choice : Nat × Nat) :
    track = some choice ↔ set = some choice.1 ∧ representation = some choice.2 := by
  unfold selectedDashTrack at h
  split at h
  · obtain ⟨_, _, h⟩ := bind_ok h
    cases h
    obtain ⟨set, representation⟩ := choice
    simp only [Option.some.injEq, Prod.mk.injEq]
  · cases h
    constructor
    · intro absurdity
      cases absurdity
    · rintro ⟨absurdity, _⟩
      cases absurdity
  · cases h

theorem chosenDashTracks_choices {selection : Option ExecutionSelection} {tracks : DashTracks}
    (h : chosenDashTracks period selection = .ok tracks) (choice : Nat × Nat) :
    choice ∈ tracks.choices ↔ Chosen period selection choice := by
  cases selection with
  | none => exact defaultDashTracks_choices h choice
  | some selection =>
    unfold chosenDashTracks selectedDashTracks at h
    obtain ⟨selected, parsed, h⟩ := bind_ok h
    obtain ⟨video, picture, h⟩ := bind_ok h
    obtain ⟨audio, sound, h⟩ := bind_ok h
    cases h
    unfold DashTracks.choices Chosen
    simp only [List.mem_append, Option.mem_toList, parsed, Except.ok.injEq, exists_eq_left',
      selectedDashTrack_ok picture, selectedDashTrack_ok sound]

end Gunda.Stream

import Gunda.Stream.Dash

/-!
# Addressing inheritance

The levels of an MPD, the most specific one first, and what the addressing of a
representation takes from them. A template is taken before a list and a list before a base,
whatever their levels are.
-/
namespace Gunda.Stream.Dash

/-! ## Merging levels -/

namespace SegmentTemplate

theorem inherit_assoc (a b c : SegmentTemplate) :
    (a.inherit b).inherit c = a.inherit (b.inherit c) := by
  simp only [inherit, Option.or_assoc]

theorem empty_inherit (template : SegmentTemplate) : empty.inherit template = template := rfl

/-- Every field is the first one that a level declares. -/
structure CompletedFrom (template : SegmentTemplate) (levels : List SegmentTemplate) : Prop where
  timescale : template.timescale? = levels.findSome? (·.timescale?)
  duration : template.duration = levels.findSome? (·.duration)
  startNumber : template.startNumber? = levels.findSome? (·.startNumber?)
  media : template.media = levels.findSome? (·.media)
  initialization : template.initialization = levels.findSome? (·.initialization)
  presentationTimeOffset : template.presentationTimeOffset? =
    levels.findSome? (·.presentationTimeOffset?)
  timeline : template.timeline = levels.findSome? (·.timeline)

end SegmentTemplate

namespace SegmentList

theorem inherit_assoc (a b c : SegmentList) :
    (a.inherit b).inherit c = a.inherit (b.inherit c) := by
  simp only [inherit, Option.or_assoc]

theorem empty_inherit (list : SegmentList) : empty.inherit list = list := rfl

structure CompletedFrom (list : SegmentList) (levels : List SegmentList) : Prop where
  timescale : list.timescale? = levels.findSome? (·.timescale?)
  duration : list.duration = levels.findSome? (·.duration)
  startNumber : list.startNumber? = levels.findSome? (·.startNumber?)
  initialization : list.initialization = levels.findSome? (·.initialization)
  segmentUrls : list.segmentUrls = levels.findSome? (·.segmentUrls)

end SegmentList

/-- The declarations of one level. -/
structure Level where
  template : Option SegmentTemplate
  list : Option SegmentList
  base : Option SegmentBase
  deriving DecidableEq, Repr

def Level.declares (level : Level) : Bool :=
  level.template.isSome || level.list.isSome || level.base.isSome

/-- The levels of a representation, the most specific one first. -/
def addressingLevels (representation : Representation) (set : AdaptationSet) (period : Period) :
    List Level :=
  [⟨representation.segmentTemplate, representation.segmentList, representation.segmentBase⟩,
    ⟨set.segmentTemplate, set.segmentList, none⟩,
    ⟨period.segmentTemplate, period.segmentList, none⟩]

/-- The addressing is declared at the most specific level that declares any, and completed
from less specific declarations of its kind. -/
def MostSpecific (levels : List Level) : RepresentationAddressing → Prop
  | .template template => (levels.find? Level.declares).any (·.template.isSome) = true ∧
      template.CompletedFrom (levels.filterMap (·.template))
  | .list list => (levels.find? Level.declares).any (·.list.isSome) = true ∧
      list.CompletedFrom (levels.filterMap (·.list))
  | .base base => (levels.find? Level.declares).bind (·.base) = some base
  | .singleFile => levels.find? Level.declares = none

/-- The order of the kinds: a template of any level, then a list of any level, then a base. -/
def ByKind (levels : List Level) : RepresentationAddressing → Prop
  | .template template => levels.any (·.template.isSome) = true ∧
      template.CompletedFrom (levels.filterMap (·.template))
  | .list list => levels.any (·.template.isSome) = false ∧ levels.any (·.list.isSome) = true ∧
      list.CompletedFrom (levels.filterMap (·.list))
  | .base base => levels.any (·.template.isSome) = false ∧
      levels.any (·.list.isSome) = false ∧ levels.findSome? (·.base) = some base
  | .singleFile => levels.any Level.declares = false

/-- The level that declares any first declares the kind that goes first. -/
def KindsAgree (levels : List Level) : Prop :=
  ∀ level ∈ levels.find? Level.declares,
    (levels.any (·.template.isSome) = true → level.template.isSome = true) ∧
    (levels.any (·.template.isSome) = false → levels.any (·.list.isSome) = true →
      level.list.isSome = true)

section Merging

variable {levels : List SegmentTemplate} {lists : List SegmentList}

theorem SegmentTemplate.CompletedFrom.more {template : SegmentTemplate}
    (completed : template.CompletedFrom levels) (outer : Option SegmentTemplate) :
    (outer.elim template template.inherit).CompletedFrom (levels ++ outer.toList) := by
  cases outer with
  | none => simpa using completed
  | some outer =>
    constructor
    all_goals rw [List.findSome?_append]
    · rw [← completed.timescale]
      simp [inherit]
    · rw [← completed.duration]
      simp [inherit]
    · rw [← completed.startNumber]
      simp [inherit]
    · rw [← completed.media]
      simp [inherit]
    · rw [← completed.initialization]
      simp [inherit]
    · rw [← completed.presentationTimeOffset]
      simp [inherit]
    · rw [← completed.timeline]
      simp [inherit]

theorem SegmentList.CompletedFrom.more {list : SegmentList}
    (completed : list.CompletedFrom lists) (outer : Option SegmentList) :
    (outer.elim list list.inherit).CompletedFrom (lists ++ outer.toList) := by
  cases outer with
  | none => simpa using completed
  | some outer =>
    constructor
    all_goals rw [List.findSome?_append]
    · rw [← completed.timescale]
      simp [inherit]
    · rw [← completed.duration]
      simp [inherit]
    · rw [← completed.startNumber]
      simp [inherit]
    · rw [← completed.initialization]
      simp [inherit]
    · rw [← completed.segmentUrls]
      simp [inherit]

theorem mergeTemplate_isSome (inner set period : Option SegmentTemplate) :
    (mergeTemplate inner set period).isSome = (inner.isSome || set.isSome || period.isSome) := by
  unfold mergeTemplate
  split
  · rename_i declared
    rw [declared]
    rfl
  · rename_i undeclared
    rw [Bool.eq_false_iff.mpr undeclared]
    rfl

theorem mergeList_isSome (inner set period : Option SegmentList) :
    (mergeList inner set period).isSome = (inner.isSome || set.isSome || period.isSome) := by
  unfold mergeList
  split
  · rename_i declared
    rw [declared]
    rfl
  · rename_i undeclared
    rw [Bool.eq_false_iff.mpr undeclared]
    rfl

theorem mergeTemplate_completed {inner set period : Option SegmentTemplate}
    {template : SegmentTemplate} (h : mergeTemplate inner set period = some template) :
    template.CompletedFrom (inner.toList ++ set.toList ++ period.toList) := by
  have first : (inner.getD .empty).CompletedFrom inner.toList := by
    have empty : SegmentTemplate.empty.CompletedFrom [] := ⟨rfl, rfl, rfl, rfl, rfl, rfl, rfl⟩
    cases inner with
    | none => exact empty
    | some inner => exact empty.more (some inner)
  unfold mergeTemplate at h
  split at h
  · cases h
    exact (first.more set).more period
  · cases h

theorem mergeList_completed {inner set period : Option SegmentList} {list : SegmentList}
    (h : mergeList inner set period = some list) :
    list.CompletedFrom (inner.toList ++ set.toList ++ period.toList) := by
  have first : (inner.getD .empty).CompletedFrom inner.toList := by
    have empty : SegmentList.empty.CompletedFrom [] := ⟨rfl, rfl, rfl, rfl, rfl⟩
    cases inner with
    | none => exact empty
    | some inner => exact empty.more (some inner)
  unfold mergeList at h
  split at h
  · cases h
    exact (first.more set).more period
  · cases h

/-- Two levels merged into one give what the three give. -/
def MergesAlike {α : Type} (merge : Option α → Option α → Option α → Option α) : Prop :=
  ∀ inner set period, merge inner set period = merge (merge inner set none) period none ∧
    merge inner set period = merge inner (merge set period none) none

theorem mergeTemplate_alike : MergesAlike mergeTemplate := by
  intro inner set period
  cases inner <;> cases set <;> cases period <;>
    simp [mergeTemplate, SegmentTemplate.empty_inherit, SegmentTemplate.inherit_assoc]

theorem mergeList_alike : MergesAlike mergeList := by
  intro inner set period
  cases inner <;> cases set <;> cases period <;>
    simp [mergeList, SegmentList.empty_inherit, SegmentList.inherit_assoc]

end Merging

/-! ## The kind that is taken -/

theorem filterMap_three {α β : Type} (f : α → Option β) (a b c : α) :
    [a, b, c].filterMap f = (f a).toList ++ (f b).toList ++ (f c).toList := by
  cases first : f a <;> cases second : f b <;> cases third : f c <;>
    simp [first, second, third]

theorem addressing_by_kind (representation : Representation) (set : AdaptationSet)
    (period : Period) :
    ByKind (addressingLevels representation set period)
      (representation.addressing set period) := by
  have templates := mergeTemplate_isSome representation.segmentTemplate set.segmentTemplate
    period.segmentTemplate
  have lists := mergeList_isSome representation.segmentList set.segmentList period.segmentList
  have anyTemplate : (addressingLevels representation set period).any (·.template.isSome) =
      (mergeTemplate representation.segmentTemplate set.segmentTemplate
        period.segmentTemplate).isSome := by
    simp [addressingLevels, templates, Bool.or_assoc]
  have anyList : (addressingLevels representation set period).any (·.list.isSome) =
      (mergeList representation.segmentList set.segmentList period.segmentList).isSome := by
    simp [addressingLevels, lists, Bool.or_assoc]
  unfold Representation.addressing
  cases merged : mergeTemplate representation.segmentTemplate set.segmentTemplate
      period.segmentTemplate with
  | some template =>
    rw [merged] at anyTemplate
    refine ⟨anyTemplate, ?_⟩
    unfold addressingLevels
    rw [filterMap_three]
    exact mergeTemplate_completed merged
  | none =>
    rw [merged] at anyTemplate
    cases mergedList : mergeList representation.segmentList set.segmentList period.segmentList with
    | some list =>
      rw [mergedList] at anyList
      refine ⟨anyTemplate, anyList, ?_⟩
      unfold addressingLevels
      rw [filterMap_three]
      exact mergeList_completed mergedList
    | none =>
      rw [mergedList] at anyList
      cases base : representation.segmentBase with
      | some base' =>
        refine ⟨anyTemplate, anyList, ?_⟩
        simp [addressingLevels, base]
      | none =>
        simp only [addressingLevels, List.any_cons, List.any_nil, Option.isSome_none,
          Bool.or_false, Bool.or_eq_false_iff] at anyTemplate anyList
        simp [ByKind, addressingLevels, Level.declares, anyTemplate, anyList, base]

variable {levels : List Level}

theorem find_declares_isSome {level : Level} (member : level ∈ levels)
    (declares : level.declares = true) : ∃ first, levels.find? Level.declares = some first := by
  rw [← Option.isSome_iff_exists, List.find?_isSome]
  exact ⟨level, member, declares⟩

/-- Where only bases are declared, the first level that declares any declares the base. -/
theorem find_base (noTemplate : levels.any (·.template.isSome) = false)
    (noList : levels.any (·.list.isSome) = false) :
    (levels.find? Level.declares).bind (·.base) = levels.findSome? (·.base) := by
  induction levels with
  | nil => rfl
  | cons level levels ih =>
    rw [List.any_cons, Bool.or_eq_false_iff] at noTemplate noList
    have later := ih noTemplate.2 noList.2
    have same : level.declares = level.base.isSome := by
      unfold Level.declares
      rw [noTemplate.1, noList.1]
      rfl
    cases base : level.base with
    | none =>
      rw [base] at same
      rw [List.find?_cons_of_neg (by rw [same]; exact Bool.false_ne_true),
        List.findSome?_cons_of_isNone (by rw [base]; rfl)]
      exact later
    | some found =>
      rw [base] at same
      rw [List.find?_cons_of_pos same, List.findSome?_cons_of_isSome (by rw [base]; rfl)]
      exact rfl

theorem mostSpecific_iff {result : RepresentationAddressing} (byKind : ByKind levels result) :
    MostSpecific levels result ↔ KindsAgree levels := by
  cases result with
  | template template =>
    obtain ⟨declared, completed⟩ := byKind
    obtain ⟨level, member, some⟩ := List.any_eq_true.mp declared
    obtain ⟨first, found⟩ := find_declares_isSome member (by simp [Level.declares, some])
    simp [MostSpecific, KindsAgree, found, declared, completed]
  | list list =>
    obtain ⟨noTemplate, declared, completed⟩ := byKind
    obtain ⟨level, member, some⟩ := List.any_eq_true.mp declared
    obtain ⟨first, found⟩ := find_declares_isSome member (by simp [Level.declares, some])
    simp [MostSpecific, KindsAgree, found, noTemplate, declared, completed]
  | base base =>
    obtain ⟨noTemplate, noList, found⟩ := byKind
    refine iff_of_true ((find_base noTemplate noList).trans found) fun level _ => ?_
    rw [noTemplate, noList]
    exact ⟨nofun, fun _ => nofun⟩
  | singleFile =>
    have none : levels.find? Level.declares = none := by
      rw [List.find?_eq_none]
      exact List.any_eq_false.mp byKind
    refine iff_of_true none fun level member => ?_
    rw [none] at member
    cases member

/-- Addressing goes by kind before it goes by level; it is the most specific one exactly
where the kinds agree with the levels. Merging is the same whichever levels come first. -/
theorem addressing_inherits (representation : Representation) (set : AdaptationSet)
    (period : Period) :
    ByKind (addressingLevels representation set period) (representation.addressing set period) ∧
      (MostSpecific (addressingLevels representation set period)
          (representation.addressing set period) ↔
        KindsAgree (addressingLevels representation set period)) ∧
      MergesAlike mergeTemplate ∧ MergesAlike mergeList :=
  have byKind := addressing_by_kind representation set period
  ⟨byKind, mostSpecific_iff byKind, mergeTemplate_alike, mergeList_alike⟩

/-- A representation with a list of its own, under a template of its period. -/
theorem outer_template_wins : ∃ representation set period,
    ¬ MostSpecific (addressingLevels representation set period)
      (representation.addressing set period) := by
  let representation : Representation :=
    ⟨none, none, none, none, none, none, [], none, some .empty, none⟩
  let set : AdaptationSet := ⟨none, none, none, [], none, none, [representation]⟩
  refine ⟨representation, set, ⟨none, none, [], some .empty, none, [set]⟩, fun specific => ?_⟩
  exact Bool.false_ne_true specific.1

end Gunda.Stream.Dash

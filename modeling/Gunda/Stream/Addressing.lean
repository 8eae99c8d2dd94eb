import Gunda.Stream.Timeline

/-!
# Segment templates against the standard

A template planned with a number and a start time for every segment, whichever of them
it names, and when `plan_set` plans the same.
-/
namespace Gunda.Stream

open Gunda.Lib Gunda.Lib.Text
open Gunda.Core (Url)
open Dash (SegmentTemplate TimelineEntry Representation Mpd Period AdaptationSet)

/-! ## Substitution -/

/-- What stands between the dollar signs of a template. -/
def templateTokens : Nat → Text → List Text
  | 0, _ => []
  | rounds + 1, rest =>
      match splitOnce '$' rest with
      | none => []
      | some (_, after) => match splitOnce '$' after with
          | none => []
          | some (token, rest) => token :: templateTokens rounds rest

def tokenIdentifier (token : Text) : Text := (splitOnce '%' token).elim token (·.1)

def namesIdentifier (identifier template : Text) : Bool :=
  (templateTokens template.length template).any (tokenIdentifier · = identifier)

section

variable {representationId : Option Text} {bandwidth number time number' time' : Option Nat}
variable {token value : Text}

theorem substituteToken_eq (token : Text) (format : Option Text)
    (split : format = (splitOnce '%' token).map (·.2)) :
    substituteToken token representationId bandwidth number time =
      if token = [] then .ok ['$']
      else if tokenIdentifier token = "RepresentationID".toList then
        if format.isSome then .error .malformed else required .malformed representationId
      else if tokenIdentifier token = "Bandwidth".toList then
        required .malformed bandwidth >>= fun value => formatNumber value format
      else if tokenIdentifier token = "Number".toList then
        required .malformed number >>= fun value => formatNumber value format
      else if tokenIdentifier token = "Time".toList then
        required .malformed time >>= fun value => formatNumber value format
      else .error .malformed := by
  subst split
  unfold substituteToken tokenIdentifier
  cases splitOnce '%' token with
  | none => rfl
  | some parts => rfl

/-- A token that is given the values it was given, and perhaps more of them. -/
theorem substituteToken_more
    (h : substituteToken token representationId bandwidth number time = .ok value)
    (numbers : ∀ n, number = some n → number' = some n)
    (times : ∀ t, time = some t → time' = some t) :
    substituteToken token representationId bandwidth number' time' = .ok value := by
  rw [substituteToken_eq token _ rfl] at h ⊢
  by_cases blank : token = []
  · rw [if_pos blank] at h ⊢
    exact h
  rw [if_neg blank] at h ⊢
  by_cases identity : tokenIdentifier token = "RepresentationID".toList
  · rw [if_pos identity] at h ⊢
    exact h
  rw [if_neg identity] at h ⊢
  by_cases rate : tokenIdentifier token = "Bandwidth".toList
  · rw [if_pos rate] at h ⊢
    exact h
  rw [if_neg rate] at h ⊢
  by_cases numbered : tokenIdentifier token = "Number".toList
  · rw [if_pos numbered] at h ⊢
    obtain ⟨n, known, h⟩ := bind_ok h
    rw [numbers n (required_ok known)]
    exact h
  rw [if_neg numbered] at h ⊢
  by_cases timed : tokenIdentifier token = "Time".toList
  · rw [if_pos timed] at h ⊢
    obtain ⟨t, known, h⟩ := bind_ok h
    rw [times t (required_ok known)]
    exact h
  · rw [if_neg timed] at h
    cases h

/-- A token that is substituted has its value. -/
theorem substituteToken_given
    (h : substituteToken token representationId bandwidth number time = .ok value) :
    (number = none → tokenIdentifier token ≠ "Number".toList) ∧
      (time = none → tokenIdentifier token ≠ "Time".toList) := by
  have nonempty (named : tokenIdentifier token ≠ []) : token ≠ [] := by
    rintro rfl
    exact named rfl
  rw [substituteToken_eq token _ rfl] at h
  constructor <;> rintro rfl named <;>
    (rw [if_neg (nonempty (by rw [named]; decide)), named] at h; cases h)

theorem substituteRounds_more {rounds : Nat} {rest : Text}
    (h : substituteRounds representationId bandwidth number time rounds rest = .ok value)
    (numbers : ∀ n, number = some n → number' = some n)
    (times : ∀ t, time = some t → time' = some t) :
    substituteRounds representationId bandwidth number' time' rounds rest = .ok value := by
  induction rounds generalizing rest value with
  | zero => exact h
  | succ rounds ih =>
    unfold substituteRounds at h ⊢
    cases found : splitOnce '$' rest with
    | none =>
      rw [found] at h
      exact h
    | some parts =>
      rw [found] at h
      obtain ⟨⟨token, after⟩, closed, h⟩ := bind_ok h
      obtain ⟨image, substituted, h⟩ := bind_ok h
      obtain ⟨tail, remaining, h⟩ := bind_ok h
      dsimp only
      rw [closed, ok_bind, substituteToken_more substituted numbers times, ok_bind, ih remaining]
      exact h

/-- What every token is, when all of them are substituted. -/
theorem substituteRounds_tokens {identifier : Text}
    (token_ : ∀ token value, substituteToken token representationId bandwidth number time =
      .ok value → tokenIdentifier token ≠ identifier) {rounds : Nat} {rest : Text}
    (h : substituteRounds representationId bandwidth number time rounds rest = .ok value) :
    (templateTokens rounds rest).any (tokenIdentifier · = identifier) = false := by
  induction rounds generalizing rest value with
  | zero => rfl
  | succ rounds ih =>
    unfold substituteRounds at h
    unfold templateTokens
    cases found : splitOnce '$' rest with
    | none => rfl
    | some parts =>
      rw [found] at h
      obtain ⟨⟨token, after⟩, closed, h⟩ := bind_ok h
      obtain ⟨image, substituted, h⟩ := bind_ok h
      obtain ⟨tail, remaining, h⟩ := bind_ok h
      dsimp only
      rw [required_ok closed]
      rw [List.any_cons, ih remaining, Bool.or_false]
      exact decide_eq_false (token_ token image substituted)

theorem substituteTemplate_unnumbered {template : Text}
    (h : substituteTemplate template representationId bandwidth none time = .ok value) :
    namesIdentifier "Number".toList template = false :=
  substituteRounds_tokens (fun _ _ h => (substituteToken_given h).1 rfl) h

theorem substituteTemplate_untimed {template : Text}
    (h : substituteTemplate template representationId bandwidth number none = .ok value) :
    namesIdentifier "Time".toList template = false :=
  substituteRounds_tokens (fun _ _ h => (substituteToken_given h).2 rfl) h

end

/-! ## The plan of the standard -/

variable (urls : UrlLibrary)

/-- The resource of a template at a number and a time. -/
def expandAt (resolved : Url) (representation : Representation) (pattern : Text)
    (number time : Option Nat) : Except ManifestError StreamResource := do
  let uri ← substituteTemplate pattern representation.id representation.bandwidth number time
  resolve urls resolved uri none

/-- The end of the period in thousandths of a tick of the media's time line. -/
def standardEnd (template : SegmentTemplate) (millis : Option Nat) : Option Nat :=
  millis.map fun millis => template.presentationTimeOffset * 1000 + millis * template.timescale

/-- How many segments of a duration it takes to fill the period. -/
def segmentsIn (millis timescale duration : Nat) : Nat :=
  (millis * timescale + (duration * 1000 - 1)) / (duration * 1000)

/-- The numbers and start times of the segments that cover the period. -/
def templateSegments (template : SegmentTemplate) (millis : Option Nat) :
    Option (List (Nat × Nat)) :=
  match template.timeline with
  | some entries => Dash.standardSegments template.presentationTimeOffset
      (standardEnd template millis) template.startNumber (some 0) entries
  | none => do
      let duration ← template.duration
      let millis ← millis
      if duration = 0 then none
      else some ((List.range (segmentsIn millis template.timescale duration)).map fun index =>
        (template.startNumber + index, template.presentationTimeOffset + index * duration))

/-- The initialization and the segments, each with its number and its start time. -/
def standardPlan (resolved : Url) (representation : Representation) (template : SegmentTemplate)
    (millis : Option Nat) : Option (List StreamResource) := do
  let media ← template.media
  let initialization ← (template.initialization.mapM fun pattern =>
    expandAt urls resolved representation pattern none none).toOption
  let segments ← templateSegments template millis
  let resources ← (segments.mapM fun segment =>
    expandAt urls resolved representation media (some segment.1) (some segment.2)).toOption
  some (initialization.toList ++ resources)

/-- `$Number$` with a timeline, or `$Time$` with a fixed duration. -/
def mixesIdentifiers (template : SegmentTemplate) (media : Text) : Bool :=
  namesIdentifier (if template.timeline.isSome then "Number".toList else "Time".toList) media

def listsNothing (template : SegmentTemplate) (millis : Option Nat) : Prop :=
  match template.timeline with
  | some entries => entries = []
  | none => millis = some 0

/-- Segments at different times, or with different numbers, have different addresses. -/
def Distinguishes (resolved : Url) (representation : Representation) (template : SegmentTemplate)
    (media : Text) : Prop :=
  ∀ n t n' t' resource,
    expandAt urls resolved representation media (some n) (some t) = .ok resource →
    expandAt urls resolved representation media (some n') (some t') = .ok resource →
    if template.timeline.isSome then t = t' else n = n'

/-- The period's end as the source gives it to its time line. -/
def sourceEnd (template : SegmentTemplate) (millis : Option Nat) : Option Nat :=
  millis.map fun millis => saturatingMul millis template.timescale / 1000

/-- The segments the source lists are those that cover the period, and have their numbers. -/
def CoversPeriod (template : SegmentTemplate) (millis : Option Nat) : Prop :=
  match template.timeline with
  | some entries => Dash.ListsPeriod template.presentationTimeOffset
      (standardEnd template millis) (sourceEnd template millis) (some 0) entries
  | none => ∀ duration period, template.duration = some duration → millis = some period →
      ∀ index < segmentsIn period template.timescale duration,
        template.startNumber + index ≤ maxU64

/-- The template names what its addressing gives, and its segments are the period's. -/
def AsStandard (template : SegmentTemplate) (media : Text) (millis : Option Nat) : Prop :=
  (mixesIdentifiers template media = true → listsNothing template millis) ∧
    CoversPeriod template millis

section

variable {urls}
variable {resolved : Url} {representation : Representation} {template : SegmentTemplate}
  {media : Text} {millis : Option Nat} {resources : List StreamResource}

variable {segments : List StreamResource}

theorem expandAt_more {number time number' time' : Option Nat} {resource : StreamResource}
    (h : expandAt urls resolved representation media number time = .ok resource)
    (numbers : ∀ n, number = some n → number' = some n)
    (times : ∀ t, time = some t → time' = some t) :
    expandAt urls resolved representation media number' time' = .ok resource := by
  obtain ⟨uri, substituted, h⟩ := bind_ok h
  unfold expandAt
  have more : substituteTemplate media representation.id representation.bandwidth number' time' =
      .ok uri := substituteRounds_more substituted numbers times
  rw [more]
  exact h

/-- Resources planned from some items are those planned from others that give them as well. -/
theorem mapM_eq_ok {α β γ ε : Type} {f : α → Except ε γ} {g : β → Except ε γ} {image : β → α}
    {list : List β} {results : List γ} (h : (list.map image).mapM f = .ok results)
    (agree : ∀ item ∈ list, ∀ result, f (image item) = .ok result → g item = .ok result) :
    list.mapM g = .ok results := by
  induction list generalizing results with
  | nil =>
    cases h
    rfl
  | cons item list ih =>
    rw [List.map_cons, List.mapM_cons] at h
    obtain ⟨first, made, h⟩ := bind_ok h
    obtain ⟨rest, others, h⟩ := bind_ok h
    cases h
    rw [List.mapM_cons, agree item List.mem_cons_self first made, ok_bind,
      ih others fun other member => agree other (List.mem_cons_of_mem _ member)]
    rfl

/-- Two lists that give the same results item by item. -/
theorem forall₂_of_mapM {α β γ ε : Type} {f : α → Except ε γ} {g : β → Except ε γ}
    {left : List α} {right : List β} {results : List γ} (first : left.mapM f = .ok results)
    (second : right.mapM g = .ok results) :
    List.Forall₂ (fun a b => ∃ result, f a = .ok result ∧ g b = .ok result) left right := by
  have these := mapM_ok first
  have those := mapM_ok second
  clear first second
  induction these generalizing right with
  | nil =>
    cases those
    exact .nil
  | cons made _ ih =>
    cases those with
    | cons other rest => exact .cons ⟨_, made, other⟩ (ih rest)

theorem listedTimes_start {periodEnd : Option Nat} {entries : List TimelineEntry} :
    Dash.listedTimes periodEnd none entries = Dash.listedTimes periodEnd (some 0) entries := by
  cases entries with
  | nil => rfl
  | cons entry entries =>
    unfold Dash.listedTimes
    cases entry.time with
    | none => rfl
    | some time => rfl

theorem listedTimes_ne_nil {periodEnd current : Option Nat} {entries : List TimelineEntry}
    (some_ : entries ≠ []) : Dash.listedTimes periodEnd current entries ≠ [] := by
  cases entries with
  | nil => exact absurd rfl some_
  | cons entry entries =>
    unfold Dash.listedTimes
    have listed := @Dash.listedCount_pos ((entry.time.or current).getD 0) periodEnd entry
    dsimp only
    obtain ⟨more, counted⟩ : ∃ more,
        Dash.listedCount periodEnd ((entry.time.or current).getD 0) entry = more + 1 :=
      ⟨Dash.listedCount periodEnd ((entry.time.or current).getD 0) entry - 1, by omega⟩
    rw [counted, Dash.entryTimes_succ]
    exact List.cons_ne_nil _ _

/-- What an accepted template's resources are planned from. -/
inductive PlannedFrom (urls : UrlLibrary) (resolved : Url) (representation : Representation)
    (template : SegmentTemplate) (media : Text) (millis : Option Nat) :
    List StreamResource → Prop where
  | timeline {entries : List TimelineEntry} {segments : List StreamResource}
      (listed : template.timeline = some entries)
      (made : (Dash.listedTimes (sourceEnd template millis) (some 0) entries).mapM
        (fun time => expandAt urls resolved representation media none (some time)) = .ok segments) :
      PlannedFrom urls resolved representation template media millis segments
  | fixed {duration period : Nat} {segments : List StreamResource}
      (unlisted : template.timeline = none) (lasts : template.duration = some duration)
      (known : millis = some period) (positive : duration ≠ 0)
      (made : (List.range (segmentsIn period template.timescale duration)).mapM
        (fun index => expandAt urls resolved representation media
          (some (saturatingAdd template.startNumber index)) none) = .ok segments) :
      PlannedFrom urls resolved representation template media millis segments

theorem segmentCount_ok {timescale duration count : Nat}
    (h : segmentCount millis timescale duration = .ok count) :
    ∃ period, millis = some period ∧ duration ≠ 0 ∧ count = segmentsIn period timescale duration := by
  unfold segmentCount at h
  obtain ⟨period, known, h⟩ := bind_ok h
  obtain ⟨positive, h⟩ := guard_ok h
  obtain ⟨_, h⟩ := guard_ok h
  cases h
  exact ⟨period, required_ok known, fun zero => positive (Or.inl zero), rfl⟩

theorem planTemplate_ok (h : planTemplate urls resolved representation template millis =
    .ok resources) (pattern : template.media = some media) :
    ∃ initialization segments,
      (template.initialization.mapM fun pattern =>
        expandAt urls resolved representation pattern none none) = .ok initialization ∧
      resources = initialization.toList ++ segments ∧
      PlannedFrom urls resolved representation template media millis segments := by
  unfold planTemplate at h
  obtain ⟨other, known, h⟩ := bind_ok h
  have same := required_ok known
  rw [pattern] at same
  cases same
  obtain ⟨initialization, first, h⟩ := bind_ok h
  split at h
  · rename_i entries listed
    obtain ⟨times, expanded, h⟩ := bind_ok h
    obtain ⟨_, h⟩ := guard_ok h
    obtain ⟨segments, made, h⟩ := bind_ok h
    cases h
    have read := Dash.expandEntries_ok expanded
    rw [List.nil_append, listedTimes_start] at read
    subst read
    exact ⟨initialization, segments, first, rfl, PlannedFrom.timeline listed made⟩
  · rename_i unlisted
    obtain ⟨duration, lasts, h⟩ := bind_ok h
    obtain ⟨count, counted, h⟩ := bind_ok h
    obtain ⟨_, h⟩ := guard_ok h
    obtain ⟨segments, made, h⟩ := bind_ok h
    cases h
    obtain ⟨period, known, positive, rfl⟩ := segmentCount_ok counted
    exact ⟨initialization, segments, first, rfl,
      PlannedFrom.fixed unlisted (required_ok lasts) known positive made⟩

section

variable (planned : PlannedFrom urls resolved representation template media millis segments)
include planned

theorem PlannedFrom.standard (timed : CoversPeriod template millis) :
    ∃ listed, templateSegments template millis = some listed ∧
      (listed.mapM fun segment => expandAt urls resolved representation media (some segment.1)
        (some segment.2)) = .ok segments := by
  unfold CoversPeriod at timed
  unfold templateSegments
  cases planned with
  | timeline listed made =>
    rw [listed] at timed ⊢
    obtain ⟨standard, found, times⟩ := Dash.standard_of_listsPeriod timed fun time known => known
    refine ⟨standard, found, ?_⟩
    rw [← times] at made
    exact mapM_eq_ok made fun segment _ result expanded =>
      expandAt_more expanded (fun n absent => by cases absent) fun t known => known
  | @fixed duration period _ unlisted lasts known positive made =>
    rw [unlisted] at timed ⊢
    simp only [lasts, known, Option.bind_eq_bind, Option.bind_some, if_neg positive]
    refine ⟨_, rfl, ?_⟩
    have bounds := timed duration period lasts known
    have numbered : ((List.range (segmentsIn period template.timescale duration)).map fun index =>
        (template.startNumber + index, template.presentationTimeOffset + index * duration)).mapM
        (fun segment => expandAt urls resolved representation media (some segment.1)
          (some segment.2)) = .ok segments := by
      rw [← List.map_id (List.range _)] at made
      rw [List.mapM_map]
      refine mapM_eq_ok made fun index member result expanded => ?_
      have small := bounds index (List.mem_range.mp member)
      have exact_ : saturatingAdd template.startNumber index = template.startNumber + index :=
        Nat.min_eq_left small
      rw [id_eq, exact_] at expanded
      exact expandAt_more expanded (fun n known => known) fun t absent => by cases absent
    exact numbered

theorem PlannedFrom.covers {listed : List (Nat × Nat)}
    (conforming : ∀ entries, template.timeline = some entries → Dash.Conforming 0 (some 0) entries)
    (distinct : Distinguishes urls resolved representation template media)
    (found : templateSegments template millis = some listed)
    (made : (listed.mapM fun segment => expandAt urls resolved representation media
      (some segment.1) (some segment.2)) = .ok segments) : CoversPeriod template millis := by
  unfold templateSegments at found
  unfold CoversPeriod
  unfold Distinguishes at distinct
  cases planned with
  | @timeline entries _ known source =>
    rw [known] at found ⊢
    simp only [known, Option.isSome_some, if_true] at distinct
    have same : listed.map Prod.snd =
        Dash.listedTimes (sourceEnd template millis) (some 0) entries := by
      rw [← List.forall₂_eq_eq_eq, List.forall₂_map_left_iff]
      refine (forall₂_of_mapM made source).imp fun segment time both => ?_
      obtain ⟨result, standard, sourced⟩ := both
      have numbered : expandAt urls resolved representation media (some 0) (some time) =
          .ok result := expandAt_more sourced (fun n absent => by cases absent) fun t known => known
      exact distinct _ _ _ _ _ standard numbered
    exact Dash.listsPeriod_of_standard (conforming entries known) (fun time known => known) found same
  | @fixed duration period _ unlisted lasts known positive source =>
    rw [unlisted] at found ⊢
    simp only [unlisted, Option.isSome_none, Bool.false_eq_true, if_false] at distinct
    simp only [lasts, known, Option.bind_eq_bind, Option.bind_some, if_neg positive] at found
    cases found
    intro other period_ lasts_ known_ index inside
    rw [lasts] at lasts_
    rw [known] at known_
    cases lasts_
    cases known_
    rw [List.mapM_map] at made
    have both := forall₂_of_mapM made source
    obtain ⟨_, at_, result, standard, sourced⟩ := forall₂_getElem? both
      (List.getElem?_range inside)
    rw [List.getElem?_range inside] at at_
    cases at_
    have timed : expandAt urls resolved representation media
        (some (saturatingAdd template.startNumber index)) (some 0) = .ok result :=
      expandAt_more sourced (fun n known => known) fun t absent => by cases absent
    have same : template.startNumber + index = saturatingAdd template.startNumber index :=
      distinct _ _ _ _ _ standard timed
    have bound : saturatingAdd template.startNumber index ≤ maxU64 := Nat.min_le_right _ _
    omega

/-- A template that is planned names what its addressing gives. -/
theorem PlannedFrom.unmixed
    (mixes : mixesIdentifiers template media = true) : listsNothing template millis := by
  unfold mixesIdentifiers at mixes
  unfold listsNothing
  cases planned with
  | @timeline entries _ known made =>
    rw [known] at mixes ⊢
    by_contra some_
    obtain ⟨time, times, listed⟩ : ∃ time times,
        Dash.listedTimes (sourceEnd template millis) (some 0) entries = time :: times :=
      List.exists_cons_of_ne_nil (listedTimes_ne_nil some_)
    rw [listed, List.mapM_cons] at made
    obtain ⟨first, expanded, _⟩ := bind_ok made
    obtain ⟨uri, substituted, _⟩ := bind_ok expanded
    rw [Option.isSome_some, if_pos rfl, substituteTemplate_unnumbered substituted] at mixes
    cases mixes
  | @fixed duration period _ unlisted lasts known positive made =>
    rw [unlisted] at mixes ⊢
    by_contra some_
    have ticks : 0 < period * template.timescale := by
      refine Nat.mul_pos (Nat.pos_of_ne_zero fun zero => some_ (by rw [known, zero])) ?_
      unfold Dash.SegmentTemplate.timescale
      split
      · split <;> omega
      · omega
    have counted : 0 < segmentsIn period template.timescale duration := by
      unfold segmentsIn
      apply Nat.div_pos
      · omega
      · omega
    obtain ⟨more, count⟩ : ∃ more, segmentsIn period template.timescale duration = more + 1 :=
      ⟨segmentsIn period template.timescale duration - 1, by omega⟩
    rw [count, List.range_succ_eq_map, List.mapM_cons] at made
    obtain ⟨first, expanded, _⟩ := bind_ok made
    obtain ⟨uri, substituted, _⟩ := bind_ok expanded
    rw [Option.isSome_none, if_neg Bool.false_ne_true, substituteTemplate_untimed substituted]
      at mixes
    cases mixes

end

/-- Where no segment is listed, the source plans the initialization as the standard does. -/
theorem planTemplate_nothing (nothing : listsNothing template millis)
    (h : standardPlan urls resolved representation template millis = some resources) :
    ∃ planned, planTemplate urls resolved representation template millis = .ok planned := by
  unfold standardPlan at h
  obtain ⟨media, pattern, h⟩ := Option.bind_eq_some_iff.mp h
  obtain ⟨initialization, first, h⟩ := Option.bind_eq_some_iff.mp h
  obtain ⟨segments, found, h⟩ := Option.bind_eq_some_iff.mp h
  have initialized := toOption_eq_some first
  have one : initialization.toList.length ≤ 1 := by
    cases initialization with
    | none => exact Nat.zero_le _
    | some resource => exact le_rfl
  refine ⟨initialization.toList, ?_⟩
  unfold planTemplate
  rw [pattern]
  change (((template.initialization.mapM fun pattern =>
    expandAt urls resolved representation pattern none none)) >>= _) = _
  rw [initialized, ok_bind]
  unfold listsNothing at nothing
  unfold templateSegments at found
  cases timeline : template.timeline with
  | some entries =>
    rw [timeline] at nothing
    cases nothing
    have short : ¬ maxSegments < initialization.toList.length + 0 := by
      unfold maxSegments
      omega
    dsimp only [Dash.expandTimeline, Dash.expandEntries]
    rw [ok_bind, List.length_nil, if_neg short, List.mapM_nil]
    exact congrArg Except.ok (List.append_nil _)
  | none =>
    rw [timeline] at nothing found
    cases nothing
    obtain ⟨duration, lasts, found⟩ := Option.bind_eq_some_iff.mp found
    have positive : duration ≠ 0 := by
      rintro rfl
      cases found
    have scale : template.timescale ≠ 0 := by
      unfold Dash.SegmentTemplate.timescale
      split
      · split <;> omega
      · omega
    have none_ : segmentCount (some 0) template.timescale duration = .ok 0 := by
      unfold segmentCount
      have counted : (0 * template.timescale + (duration * 1000 - 1)) / (duration * 1000) = 0 :=
        Nat.div_eq_of_lt (by omega)
      simp only [required, ok_bind, counted]
      rw [if_neg (by rintro (zero | zero) <;> contradiction), if_neg (Nat.not_lt_zero _)]
      rfl
    rw [lasts]
    change (segmentCount (some 0) template.timescale duration >>= _) = _
    rw [none_, ok_bind, if_neg (Nat.not_lt_zero _)]
    exact congrArg Except.ok (List.append_nil _)

end

/-- A template is planned as the standard addresses it exactly when it names what its
addressing gives and the segments listed are those that cover the period. -/
theorem planSet_template_iff {base : Url} {mpd : Mpd} {period : Period} {set : AdaptationSet}
    {index : Nat} {representation : Representation} {resolved : Url} {template : SegmentTemplate}
    {media : Text} (chosen : set.representations[index]? = some representation)
    (based : representationBase urls base mpd period set representation = .ok resolved)
    (addressing : representation.addressing set period = .template template)
    (pattern : template.media = some media)
    (domain : (∃ planned, planSet urls base mpd period set index = .ok planned) ∨
      mixesIdentifiers template media = true ∧ ∃ resources, standardPlan urls resolved
        representation template (period.durationMillis.or mpd.durationMillis) = some resources) :
    (AsStandard template media (period.durationMillis.or mpd.durationMillis) →
      ∃ planned, planSet urls base mpd period set index = .ok planned ∧
        standardPlan urls resolved representation template
          (period.durationMillis.or mpd.durationMillis) = some planned.resources) ∧
    ((∀ entries, template.timeline = some entries → Dash.Conforming 0 (some 0) entries) →
      Distinguishes urls resolved representation template media →
      (∃ planned, planSet urls base mpd period set index = .ok planned ∧
        standardPlan urls resolved representation template
          (period.durationMillis.or mpd.durationMillis) = some planned.resources) →
      AsStandard template media (period.durationMillis.or mpd.durationMillis)) := by
  generalize span : period.durationMillis.or mpd.durationMillis = millis at domain ⊢
  have planSet_eq : planSet urls base mpd period set index =
      (planTemplate urls resolved representation template millis).map fun resources =>
        { resources := resources
          label := labelForRepresentation representation
          container := if set.kind = .audio then .m4a else .mp4
          durationMillis := millis } := by
    unfold planSet
    rw [chosen, required, ok_bind, based, ok_bind, addressing, span]
    rfl
  rw [planSet_eq] at domain ⊢
  have accepted_of {planned : PlannedSet} (h : (planTemplate urls resolved representation template
      millis).map (fun resources => PlannedSet.mk resources (labelForRepresentation representation)
        (if set.kind = .audio then .m4a else .mp4) millis) = .ok planned) :
      ∃ initialization segments,
        (template.initialization.mapM fun pattern =>
          expandAt urls resolved representation pattern none none) = .ok initialization ∧
        planned.resources = initialization.toList ++ segments ∧
        PlannedFrom urls resolved representation template media millis segments := by
    obtain ⟨resources, made, rfl⟩ := map_ok h
    exact planTemplate_ok made pattern
  constructor
  · intro condition
    obtain ⟨planned, accepted⟩ : ∃ planned, (planTemplate urls resolved representation template
        millis).map (fun resources => PlannedSet.mk resources (labelForRepresentation representation)
          (if set.kind = .audio then .m4a else .mp4) millis) = .ok planned := by
      obtain accepted | ⟨mixes, resources, standard⟩ := domain
      · exact accepted
      · obtain ⟨planned, made⟩ := planTemplate_nothing (condition.1 mixes) standard
        rw [made]
        exact ⟨_, rfl⟩
    refine ⟨planned, accepted, ?_⟩
    obtain ⟨initialization, segments, first, same, from_⟩ := accepted_of accepted
    obtain ⟨listed, found, made⟩ := from_.standard condition.2
    unfold standardPlan
    rw [pattern, first, found, same]
    simp only [Option.bind_eq_bind, Option.bind_some, Except.toOption, made]
  · intro conforming distinct both
    obtain ⟨planned, accepted, standard⟩ := both
    obtain ⟨initialization, segments, first, same, from_⟩ := accepted_of accepted
    refine ⟨from_.unmixed, ?_⟩
    unfold standardPlan at standard
    rw [pattern, first, same] at standard
    obtain ⟨_, known, standard⟩ := Option.bind_eq_some_iff.mp standard
    cases known
    obtain ⟨_, initialized, standard⟩ := Option.bind_eq_some_iff.mp standard
    cases initialized
    obtain ⟨listed, found, standard⟩ := Option.bind_eq_some_iff.mp standard
    obtain ⟨resources, made, standard⟩ := Option.bind_eq_some_iff.mp standard
    have equal := List.append_cancel_left (Option.some.inj standard)
    subst equal
    exact from_.covers conforming distinct found (toOption_eq_some made)

/-! ## Ten seconds -/

def plainRepresentation : Representation :=
  ⟨some "v0".toList, some 1, none, none, none, none, [], none, none, none⟩

def templateSet (template : SegmentTemplate) : AdaptationSet :=
  ⟨some "video".toList, none, none, [], some template, none, [plainRepresentation]⟩

def tenSeconds (template : SegmentTemplate) : Period :=
  ⟨none, some 10000, [], none, none, [templateSet template]⟩

def tenSecondsMpd (template : SegmentTemplate) : Mpd :=
  ⟨.static, none, none, [], [tenSeconds template]⟩

/-- Segments of four seconds by number. -/
def numberedTemplate : SegmentTemplate :=
  ⟨none, some 4, some 7, some "s-$Number$.m4s".toList, none, none, none⟩

theorem numbered_as_standard :
    ∃ planned, planSet sampleUrls sampleBase (tenSecondsMpd numberedTemplate)
      (tenSeconds numberedTemplate) (templateSet numberedTemplate) 0 = .ok planned ∧
      standardPlan sampleUrls sampleBase plainRepresentation
        (Dash.SegmentTemplate.inherit .empty numberedTemplate) (some 10000) =
        some planned.resources := by
  have accepted : (planSet sampleUrls sampleBase (tenSecondsMpd numberedTemplate)
      (tenSeconds numberedTemplate) (templateSet numberedTemplate) 0).toOption.any
      (fun _ => true) = true := by decide +kernel
  obtain ⟨planned, made, _⟩ := toOption_any_ok accepted
  have condition : AsStandard (Dash.SegmentTemplate.inherit .empty numberedTemplate)
      "s-$Number$.m4s".toList (some 10000) := by
    refine ⟨fun mixes => absurd mixes (by decide +kernel), ?_⟩
    intro duration period lasts known index inside
    cases lasts
    cases known
    have three : index < 3 := inside
    change 7 + index ≤ 2 ^ 64 - 1
    omega
  exact (planSet_template_iff sampleUrls rfl rfl rfl rfl (Or.inl ⟨planned, made⟩)).1 condition

/-- Segments of four seconds by time, repeated to the end of the period. -/
def openTemplate : SegmentTemplate :=
  ⟨none, none, none, some "t-$Time$.m4s".toList, none, none, some [⟨some 0, 4, -1⟩]⟩

/-- The third segment, which begins at 8 seconds, is left out. -/
theorem last_open_segment_is_left_out : ¬ ∀ (urls : UrlLibrary) (base resolved : Url) (mpd : Mpd)
    (period : Period) (set : AdaptationSet) (index : Nat) (representation : Representation)
    (template : SegmentTemplate) (planned : PlannedSet),
    set.representations[index]? = some representation →
    representationBase urls base mpd period set representation = .ok resolved →
    representation.addressing set period = .template template →
    planSet urls base mpd period set index = .ok planned →
    standardPlan urls resolved representation template
      (period.durationMillis.or mpd.durationMillis) = some planned.resources := by
  have accepted : (planSet sampleUrls sampleBase (tenSecondsMpd openTemplate)
      (tenSeconds openTemplate) (templateSet openTemplate) 0).toOption.any
      (·.resources.length == 2) = true := by decide +kernel
  obtain ⟨planned, made, two⟩ := toOption_any_ok accepted
  intro claimed
  have standard := claimed sampleUrls sampleBase sampleBase (tenSecondsMpd openTemplate)
    (tenSeconds openTemplate) (templateSet openTemplate) 0 plainRepresentation
    (Dash.SegmentTemplate.inherit .empty openTemplate) planned rfl rfl rfl made
  have three : (standardPlan sampleUrls sampleBase plainRepresentation
      (Dash.SegmentTemplate.inherit .empty openTemplate) (some 10000)).any
      (·.length == 3) = true := by decide +kernel
  change standardPlan sampleUrls sampleBase plainRepresentation
      (Dash.SegmentTemplate.inherit .empty openTemplate) (some 10000) = _ at standard
  rw [standard] at three
  have twice := beq_iff_eq.mp two
  have thrice := beq_iff_eq.mp three
  omega

end Gunda.Stream

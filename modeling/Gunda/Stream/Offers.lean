import Gunda.Stream.Presentation
import Mathlib.Data.List.Flatten
import Mathlib.Data.List.Nodup

/-!
# What is offered can be chosen

A selector reads back as the choice it was written for, so the planner plans
exactly that choice or refuses it for a reason of its own.
-/
namespace Gunda.Stream

open Gunda.Lib Gunda.Lib.Text
open Gunda.Core (Url ExecutionSelection)
open Gunda.Stream.Hls (MasterPlaylist Variant Rendition)
open Gunda.Stream.Dash (Mpd Period AdaptationSet Representation TrackKind)

/-! ## Reading back what was written -/

namespace Selection

variable {resolution : Option (Nat × Nat)} {language : Option Text} {total : Option Nat}
    {audioIndex : Nat}

theorem newSelection_ok {fields : List Text} {selection : ExecutionSelection}
    (h : newSelection fields = .ok selection) : selection.value = joinWith ':' fields :=
  ExecutionSelection.new_eq_some (required_ok h)

theorem number_ofNat {value : Nat} (fits : value < 2 ^ 64) :
    number (some (ofNat value)) = .ok value := by
  rw [number]
  change required _ (parseU64 (ofNat value)) = _
  rw [parseU64_ofNat fits]
  rfl

theorem ofNat_ne_hyphen (value : Nat) : ofNat value ≠ ['-'] := by
  intro same
  have absent : '-' ∉ ofNat value := not_mem_ofNat value rfl
  rw [same] at absent
  exact absent List.mem_cons_self

theorem optionalNumberValue_ofNat {value : Nat} (fits : value < 2 ^ 64) :
    optionalNumberValue (some (ofNat value)) = .ok (some value) := by
  have number : ofNat value ≠ "-".toList := ofNat_ne_hyphen value
  rw [optionalNumberValue, if_neg number, parseU64_ofNat fits]
  rfl

theorem optionalNumberValue_optionalNumber {value : Option Nat} (fits : ∀ n ∈ value, n < 2 ^ 64) :
    optionalNumberValue (some (optionalNumber value)) = .ok value := by
  cases value with
  | none => rfl
  | some value => exact optionalNumberValue_ofNat (fits value rfl)

theorem colon_not_mem_ofNat (value : Nat) : ':' ∉ ofNat value := not_mem_ofNat value rfl

theorem colon_not_mem_optionalNumber (value : Option Nat) : ':' ∉ optionalNumber value := by
  cases value with
  | none => decide
  | some value => exact colon_not_mem_ofNat value

theorem colon_not_mem_resolutionFields :
    ∀ field ∈ resolutionFields resolution, ':' ∉ field := by
  intro field member
  cases resolution with
  | none =>
    rcases List.mem_pair.mp member with same | same <;>
    · subst same
      decide
  | some size =>
    rcases List.mem_pair.mp member with same | same <;>
    · subst same
      exact colon_not_mem_ofNat _

theorem colon_not_mem_languageField (language : Option Text) : ':' ∉ languageField language := by
  intro member
  obtain ⟨c, _, same⟩ := List.mem_map.mp member
  split at same
  · rename_i allowed
    subst same
    cases allowed
  · cases same

variable {choice : Option (Nat × Nat × Option Nat)}

theorem colon_not_mem_choiceFields :
    ∀ field ∈ choiceFields choice, ':' ∉ field := by
  intro field member
  cases choice with
  | none =>
    simp only [choiceFields, List.mem_cons, List.not_mem_nil, or_false, or_self] at member
    subst member
    decide
  | some choice =>
    simp only [choiceFields, List.mem_cons, List.not_mem_nil, or_false] at member
    rcases member with same | same | same
    · subst same
      exact colon_not_mem_ofNat _
    · subst same
      exact colon_not_mem_ofNat _
    · subst same
      exact colon_not_mem_optionalNumber _

/-- A language tag the selector carries unchanged. -/
def Plain : Option Text → Prop
  | none => True
  | some tag => tag ≠ ['-'] ∧ tag.all isLanguageCharacter = true

theorem languageField_plain (plain : Plain language) :
    (some (languageField language)).filter (· ≠ ['-']) = language := by
  cases language with
  | none => rfl
  | some tag =>
    have same : languageField (some tag) = tag := by
      have kept : ∀ c ∈ tag, (if isLanguageCharacter c then c else '-') = c := by
        intro c member
        rw [if_pos (List.all_eq_true.mp plain.2 c member)]
      exact List.map_congr_left kept |>.trans (List.map_id tag)
    rw [same]
    exact Option.filter_some_pos (by simpa using plain.1)

section

variable (fits : ∀ size ∈ resolution, size.1 < 2 ^ 32 ∧ size.2 < 2 ^ 32)
include fits

theorem resolutionOf_fits :
    resolutionOf (resolution.map (·.1)) (resolution.map (·.2)) = .ok resolution := by
  cases resolution with
  | none => rfl
  | some size => exact if_pos (fits size rfl)

/-- The two fields of a resolution, read back. -/
theorem resolutionFields_read :
    ∃ width height, resolutionFields resolution = [width, height] ∧
      optionalNumberValue (some width) = .ok (resolution.map (·.1)) ∧
      optionalNumberValue (some height) = .ok (resolution.map (·.2)) := by
  cases resolution with
  | none => exact ⟨['-'], ['-'], rfl, rfl, rfl⟩
  | some size =>
    have both := fits size rfl
    exact ⟨ofNat size.1, ofNat size.2, rfl, optionalNumberValue_ofNat (by omega),
      optionalNumberValue_ofNat (by omega)⟩

end

/-- The fields a variant's selector begins with. -/
def variantFields (version : Text) (index : Nat) (variant : Variant) : List Text :=
  ["hls".toList, version, ofNat index, optionalNumber variant.bandwidth] ++
    resolutionFields variant.resolution

theorem colon_not_mem_variantFields {version : Text} {index : Nat} {variant : Variant}
    (clean : ':' ∉ version) : ∀ field ∈ variantFields version index variant, ':' ∉ field := by
  intro field member
  rcases List.mem_append.mp member with first | size
  · simp only [List.mem_cons, List.not_mem_nil, or_false] at first
    rcases first with same | same | same | same
    · rw [same]
      decide
    · rw [same]
      exact clean
    · rw [same]
      exact colon_not_mem_ofNat index
    · rw [same]
      exact colon_not_mem_optionalNumber _
  · exact colon_not_mem_resolutionFields field size

/-- The fields of a declared total, where there is one. -/
def totalFields (total : Option Nat) : List Text := (total.map ofNat).toList

theorem totalFields_read (fits : ∀ n ∈ total, n < 2 ^ 64) :
    optionalNumberValue (totalFields total)[0]? = .ok total ∧
      (totalFields total)[1]?.isSome = false := by
  cases total with
  | none => exact ⟨rfl, rfl⟩
  | some total => exact ⟨optionalNumberValue_ofNat (fits total rfl), rfl⟩

/-- The fields of a rendition, where one is selected. -/
def audioFields : Option (Nat × Option Text) → List Text
  | none => []
  | some (index, language) => [ofNat index, languageField language]

def versionField (audio : Option (Nat × Option Text)) : Text :=
  if audio.isSome then "2".toList else "1".toList

/-- The language that a rendition's field reads back as. -/
def languageRead (audio : Option (Nat × Option Text)) : Option Text :=
  audio.bind fun choice => (some (languageField choice.2)).filter (· ≠ ['-'])

section

variable {index : Nat} {variant : Variant} {audio : Option (Nat × Option Text)}
  {selection : ExecutionSelection}

theorem splitAll_selection (h : newSelection
      (variantFields (versionField audio) index variant ++ audioFields audio) = .ok selection) :
    splitAll ':' selection.value =
      variantFields (versionField audio) index variant ++ audioFields audio := by
  have clean : ':' ∉ versionField audio := by
    unfold versionField
    split <;> decide
  rw [newSelection_ok h]
  apply splitAll_joinWith
  · exact List.append_ne_nil_of_left_ne_nil (List.cons_ne_nil _ _) _
  intro field member
  rcases List.mem_append.mp member with first | last
  · exact colon_not_mem_variantFields clean field first
  · cases audio with
    | none => cases last
    | some choice =>
      rcases List.mem_pair.mp last with same | same
      · rw [same]
        exact colon_not_mem_ofNat choice.1
      · rw [same]
        exact colon_not_mem_languageField choice.2

theorem parseHls_fields (split : splitAll ':' selection.value =
      variantFields (versionField audio) index variant ++ audioFields audio ++ totalFields total)
    (indexFits : index < 2 ^ 64) (audioFits : ∀ choice ∈ audio, choice.1 < 2 ^ 64)
    (bandwidthFits : ∀ n ∈ variant.bandwidth, n < 2 ^ 64)
    (sizeFits : ∀ size ∈ variant.resolution, size.1 < 2 ^ 32 ∧ size.2 < 2 ^ 32)
    (totalFits : ∀ n ∈ total, n < 2 ^ 64) :
    parseHls selection = .ok ⟨index, variant.bandwidth, variant.resolution, total,
      audio.map (·.1), languageRead audio⟩ := by
  obtain ⟨width, height, fields, readWidth, readHeight⟩ := resolutionFields_read sizeFits
  obtain ⟨readTotal, last⟩ := totalFields_read totalFits
  have readAudio : (audio.elim (pure none) fun choice =>
      optionalNumberValue (some (ofNat choice.1))) = .ok (audio.map (·.1)) := by
    cases audio with
    | none => rfl
    | some choice => exact optionalNumberValue_ofNat (audioFits choice rfl)
  rw [variantFields, fields] at split
  have parsed : parseHls selection = (do
      let variant' ← number (some (ofNat index))
      let bandwidth ← optionalNumberValue (some (optionalNumber variant.bandwidth))
      let width ← optionalNumberValue (some width)
      let height ← optionalNumberValue (some height)
      let audioRendition ← audio.elim (pure none) fun choice =>
        optionalNumberValue (some (ofNat choice.1))
      let declaredTotal ← optionalNumberValue (totalFields total)[0]?
      if (totalFields total)[1]?.isSome then
        throw ManifestError.selectionUnavailable
      let resolution ← resolutionOf width height
      pure (⟨variant', bandwidth, resolution, declaredTotal, audioRendition,
        languageRead audio⟩ : HlsSelection)) := by
    unfold parseHls
    rw [split]
    cases audio <;> rfl
  rw [parsed, number_ofNat indexFits, ok_bind, optionalNumberValue_optionalNumber bandwidthFits,
    ok_bind, readWidth, ok_bind, readHeight, ok_bind, readAudio, ok_bind, readTotal, ok_bind, last,
    resolutionOf_fits sizeFits]
  rfl

end

/-- The three fields of a track, read back. -/
theorem choiceFields_read
    (fits : ∀ track ∈ choice, track.1 < 2 ^ 64 ∧ track.2.1 < 2 ^ 64 ∧ ∀ n ∈ track.2.2, n < 2 ^ 64) :
    ∃ set representation bandwidth, choiceFields choice = [set, representation, bandwidth] ∧
      optionalNumberValue (some set) = .ok (choice.map (·.1)) ∧
      optionalNumberValue (some representation) = .ok (choice.map (·.2.1)) ∧
      optionalNumberValue (some bandwidth) = .ok (choice.bind (·.2.2)) := by
  cases choice with
  | none => exact ⟨['-'], ['-'], ['-'], rfl, rfl, rfl, rfl⟩
  | some track =>
    obtain ⟨setFits, representationFits, bandwidthFits⟩ := fits track rfl
    exact ⟨ofNat track.1, ofNat track.2.1, optionalNumber track.2.2, rfl,
      optionalNumberValue_ofNat setFits, optionalNumberValue_ofNat representationFits,
      optionalNumberValue_optionalNumber bandwidthFits⟩

theorem parseDash_dashSelection {video audio : Option (Nat × Nat × Option Nat)}
    {selection : ExecutionSelection} (h : dashSelection video audio = .ok selection)
    (videoFits : ∀ track ∈ video, track.1 < 2 ^ 64 ∧ track.2.1 < 2 ^ 64 ∧ ∀ n ∈ track.2.2, n < 2 ^ 64)
    (audioFits : ∀ track ∈ audio, track.1 < 2 ^ 64 ∧ track.2.1 < 2 ^ 64 ∧ ∀ n ∈ track.2.2, n < 2 ^ 64) :
    parseDash selection = .ok ⟨video.map (·.1), video.map (·.2.1), video.bind (·.2.2),
      audio.map (·.1), audio.map (·.2.1), audio.bind (·.2.2)⟩ := by
  have split : splitAll ':' selection.value =
      ["dash".toList, "1".toList] ++ choiceFields video ++ choiceFields audio := by
    rw [newSelection_ok h]
    apply splitAll_joinWith
    · exact List.cons_ne_nil _ _
    intro field member
    rcases List.mem_append.mp member with first | last
    · rcases List.mem_append.mp first with first | middle
      · rcases List.mem_pair.mp first with same | same <;>
        · subst same
          decide
      · exact colon_not_mem_choiceFields field middle
    · exact colon_not_mem_choiceFields field last
  obtain ⟨set, representation, bandwidth, fields, readSet, readRepresentation, readBandwidth⟩ :=
    choiceFields_read videoFits
  obtain ⟨set', representation', bandwidth', fields', readSet', readRepresentation',
    readBandwidth'⟩ := choiceFields_read audioFits
  rw [fields, fields'] at split
  unfold parseDash
  rw [split]
  change (do
    let videoSet ← optionalNumberValue (some set)
    let videoRepresentation ← optionalNumberValue (some representation)
    let videoBandwidth ← optionalNumberValue (some bandwidth)
    let audioSet ← optionalNumberValue (some set')
    let audioRepresentation ← optionalNumberValue (some representation')
    let audioBandwidth ← optionalNumberValue (some bandwidth')
    pure (⟨videoSet, videoRepresentation, videoBandwidth, audioSet, audioRepresentation,
      audioBandwidth⟩ : DashSelection)) = _
  rw [readSet, ok_bind, readRepresentation, ok_bind, readBandwidth, ok_bind, readSet', ok_bind,
    readRepresentation', ok_bind, readBandwidth']
  rfl

end Selection

/-! ## HLS -/

/-- The numbers of a variant are as wide as the source's integers. -/
structure Hls.Variant.Representable (variant : Variant) : Prop where
  bandwidth : ∀ n ∈ variant.bandwidth, n < 2 ^ 64
  size : ∀ size ∈ variant.resolution, size.1 < 2 ^ 32 ∧ size.2 < 2 ^ 32

structure Hls.MasterPlaylist.Representable (master : MasterPlaylist) : Prop where
  variants : ∀ variant ∈ master.variants, variant.Representable
  variantCount : master.variants.length < 2 ^ 64
  renditionCount : master.renditions.length < 2 ^ 64

/-- What a variant is offered with: each rendition of its audio group, or nothing. -/
def offeredRenditions (master : MasterPlaylist) (variant : Variant) :
    List (Option (Nat × Rendition)) :=
  if (audioRenditions master variant).isEmpty then [none]
  else (audioRenditions master variant).map some

/-- The variant and rendition a selector names, by index. -/
def hlsChoice (track : PresentationTrack) : Option (Nat × Option Nat) := do
  let selected ← (Selection.parseHls (← track.selection)).toOption
  pure (selected.variant, selected.audioRendition)

/-- The plan of a variant with a rendition, whoever chose them. -/
def planHlsChoice (urls : UrlLibrary) (decimals : Decimals) (base : Url) (variant : Variant)
    (rendition : Option Rendition) : Except ManifestError HlsOutcome := do
  let picture ← resolve urls base variant.uri none
  let audio ← (rendition.bind (·.uri)).mapM fun uri => (resolve urls base uri none).map (·.url)
  pure (.fetchVariant picture.url (labelForVariant decimals variant) variant.bandwidth none audio)

variable {master : MasterPlaylist} {variant : Variant}

theorem mem_audioRenditions {audio : Nat × Rendition}
    (member : audio ∈ audioRenditions master variant) :
    master.renditions[audio.1]? = some audio.2 ∧
      eqIgnoreAsciiCase audio.2.kind "AUDIO".toList = true ∧
      audio.2.groupId = variant.audioGroup ∧ audio.2.uri.isSome = true := by
  unfold audioRenditions at member
  split at member
  · cases member
  · rename_i group named
    obtain ⟨indexed, filtered, same⟩ := List.mem_map.mp member
    subst same
    obtain ⟨inside, qualifies⟩ := List.mem_filter.mp filtered
    simp only [Bool.and_eq_true, decide_eq_true_eq] at qualifies
    obtain ⟨⟨audio, grouped⟩, addressed⟩ := qualifies
    exact ⟨List.mem_zipIdx_iff_getElem?.mp inside, audio, grouped.trans named.symm, addressed⟩

/-- A variant offered without a rendition is one the planner finds none for. -/
theorem defaultAudioRendition_none (none_offered : audioRenditions master variant = []) :
    master.defaultAudioRendition variant = none := by
  unfold audioRenditions at none_offered
  unfold Hls.MasterPlaylist.defaultAudioRendition
  cases named : variant.audioGroup with
  | none => rfl
  | some group =>
    rw [named] at none_offered
    have empty := List.map_eq_nil_iff.mp none_offered
    have unqualified : master.renditions.filter (fun rendition =>
        eqIgnoreAsciiCase rendition.kind "AUDIO".toList && rendition.groupId = some group &&
          rendition.uri.isSome) = [] := by
      rw [List.filter_eq_nil_iff] at empty ⊢
      intro rendition member
      obtain ⟨index, found⟩ := List.mem_iff_getElem?.mp member
      exact empty (rendition, index) (List.mem_zipIdx_iff_getElem?.mpr found)
    change minByKey _ _ = none
    rw [unqualified]
    rfl

theorem mem_offeredRenditions_some {choice : Nat × Rendition}
    (offered : some choice ∈ offeredRenditions master variant) :
    choice ∈ audioRenditions master variant := by
  unfold offeredRenditions at offered
  split at offered
  · cases List.mem_singleton.mp offered
  · obtain ⟨other, member, same⟩ := List.mem_map.mp offered
    cases same
    exact member

theorem mem_offeredRenditions_none (offered : none ∈ offeredRenditions master variant) :
    audioRenditions master variant = [] := by
  unfold offeredRenditions at offered
  split at offered
  · exact List.isEmpty_iff.mp ‹_›
  · obtain ⟨other, _, same⟩ := List.mem_map.mp offered
    cases same

section

variable {urls : UrlLibrary} {decimals : Decimals} {base manifest : Url} {master : MasterPlaylist}
  {index : Nat} {variant : Variant} {audio : Option (Nat × Rendition)} {track : PresentationTrack}

/-- A rendition as a selector names it. -/
def renditionField (audio : Option (Nat × Rendition)) : Option (Nat × Option Text) :=
  audio.map fun choice => (choice.1, choice.2.language)

theorem describedVariant_eq_some
    (h : describedVariant decimals manifest index variant audio = some track) :
    ∃ selection, track.selection = some selection ∧ splitAll ':' selection.value =
      Selection.variantFields (Selection.versionField (renditionField audio)) index variant ++
        Selection.audioFields (renditionField audio) := by
  unfold describedVariant at h
  obtain ⟨selection, written, h⟩ := Option.bind_eq_some_iff.mp h
  cases h
  refine ⟨selection, rfl, Selection.splitAll_selection ?_⟩
  cases audio with
  | none => exact (congrArg Selection.newSelection (List.append_nil _)).trans (toOption_eq_some written)
  | some choice => exact toOption_eq_some written

section

variable (representable : master.Representable) (found : master.variants[index]? = some variant)
  (offered : audio ∈ offeredRenditions master variant)
  (h : describedVariant decimals manifest index variant audio = some track)
include representable found offered h

/-- What the selector of an offered variant reads back as, with a declared total or without. -/
theorem parseHls_describedTotal : ∃ selection, track.selection = some selection ∧
    ∀ (total : Option Nat) (sized : ExecutionSelection), (∀ n ∈ total, n < 2 ^ 64) →
      splitAll ':' sized.value = splitAll ':' selection.value ++ Selection.totalFields total →
      Selection.parseHls sized = .ok ⟨index, variant.bandwidth, variant.resolution, total,
        audio.map (·.1), audio.bind fun choice =>
          (some (Selection.languageField choice.2.language)).filter (· ≠ ['-'])⟩ := by
  obtain ⟨selection, selected, split⟩ := describedVariant_eq_some h
  have fits := representable.variants variant (List.mem_of_getElem? found)
  have indexFits : index < 2 ^ 64 :=
    Nat.lt_trans (List.getElem?_eq_some_iff.mp found).1 representable.variantCount
  have audioFits : ∀ choice ∈ renditionField audio, choice.1 < 2 ^ 64 := by
    intro choice named
    obtain ⟨one, picked, same⟩ := Option.map_eq_some_iff.mp named
    rw [picked] at offered
    have member := mem_offeredRenditions_some offered
    rw [← same]
    exact Nat.lt_trans (List.getElem?_eq_some_iff.mp (mem_audioRenditions member).1).1
      representable.renditionCount
  refine ⟨selection, selected, fun total sized totalFits longer => ?_⟩
  rw [split] at longer
  rw [Selection.parseHls_fields longer indexFits audioFits fits.bandwidth fits.size totalFits]
  cases audio <;> rfl

theorem parseHls_describedVariant : ∃ selection, track.selection = some selection ∧
    Selection.parseHls selection = .ok ⟨index, variant.bandwidth, variant.resolution, none,
      audio.map (·.1), audio.bind fun choice =>
        (some (Selection.languageField choice.2.language)).filter (· ≠ ['-'])⟩ := by
  obtain ⟨selection, selected, parsed⟩ := parseHls_describedTotal representable found offered h
  refine ⟨selection, selected, parsed none selection ?_ (List.append_nil _).symm⟩
  intro n absent
  cases absent

theorem hlsChoice_describedVariant : hlsChoice track = some (index, audio.map (·.1)) := by
  obtain ⟨selection, selected, parsed⟩ := parseHls_describedVariant representable found offered h
  unfold hlsChoice
  rw [selected]
  change ((Selection.parseHls selection).toOption.bind _) = _
  rw [parsed]
  rfl

/-- The planner plans the variant and rendition a track was built from. -/
theorem planHlsSelected_describedVariant
    (plain : ∀ choice ∈ audio, Selection.Plain choice.2.language) :
    ∃ selection, track.selection = some selection ∧
      planHlsSelected urls decimals base (.master master) (some selection) =
        planHlsChoice urls decimals base variant (audio.map (·.2)) := by
  obtain ⟨selection, selected, parsed⟩ := parseHls_describedVariant representable found offered h
  have languages : (audio.bind fun choice =>
      (some (Selection.languageField choice.2.language)).filter (· ≠ ['-'])) =
        audio.bind fun choice => choice.2.language := by
    cases audio with
    | none => rfl
    | some choice => exact Selection.languageField_plain (plain choice rfl)
  rw [languages] at parsed
  refine ⟨selection, selected, ?_⟩
  have chosen : selectedVariant master selection = .ok variant := by
    unfold selectedVariant
    rw [parsed, ok_bind, found]
    simp [required, ok_bind]
    rfl
  have rendition : selectedAudioRendition master variant (some selection) =
      .ok (audio.map (·.2)) := by
    unfold selectedAudioRendition
    dsimp only
    rw [parsed, ok_bind]
    cases audio with
    | none =>
      change Except.ok (master.defaultAudioRendition variant) = _
      rw [defaultAudioRendition_none (mem_offeredRenditions_none offered)]
      rfl
    | some choice =>
      obtain ⟨placed, kind, group, uri⟩ := mem_audioRenditions (mem_offeredRenditions_some offered)
      have accepted : (!eqIgnoreAsciiCase choice.2.kind "AUDIO".toList || choice.2.uri.isNone ||
          decide (choice.2.groupId ≠ variant.audioGroup) ||
          decide (choice.2.language ≠ choice.2.language)) = false := by
        rw [kind, Option.isNone_eq_false_iff.mpr uri]
        simp [group]
      simp only [Option.map_some, Option.bind_some, placed, required, ok_bind]
      exact if_neg (Bool.eq_false_iff.mp accepted)
  unfold planHlsSelected planHlsChoice
  change ((selectedVariant master selection) >>= _) = _
  rw [chosen, ok_bind, rendition]
  have undeclared : ((some selection).bind fun selection =>
      (Selection.parseHls selection).toOption.bind (·.declaredTotal)) = none := by
    change (Selection.parseHls selection).toOption.bind _ = none
    rw [parsed]
    rfl
  rw [undeclared]
  rfl

end

/-! ### Which tracks are offered -/

/-- The tracks a variant would be offered as, were there no limit. -/
def variantTracks (decimals : Decimals) (manifest : Url) (master : MasterPlaylist)
    (indexed : Variant × Nat) : List PresentationTrack :=
  (offeredRenditions master indexed.1).filterMap
    (describedVariant decimals manifest indexed.2 indexed.1)

/-- The limit only cuts the tracks of a variant short. -/
theorem describeRenditions_sublist (audios : List (Nat × Rendition))
    (tracks : List PresentationTrack) :
    ∃ added, describeRenditions decimals manifest index variant audios tracks = tracks ++ added ∧
      added.Sublist ((audios.map some).filterMap
        (describedVariant decimals manifest index variant)) := by
  induction audios generalizing tracks with
  | nil => exact ⟨[], (List.append_nil tracks).symm, List.Sublist.refl _⟩
  | cons audio audios ih =>
    unfold describeRenditions
    split
    · exact ⟨[], (List.append_nil tracks).symm, List.nil_sublist _⟩
    · obtain ⟨added, grown, sub⟩ :=
        ih (tracks ++ (describedVariant decimals manifest index variant (some audio)).toList)
      refine ⟨(describedVariant decimals manifest index variant (some audio)).toList ++ added,
        ?_, ?_⟩
      · rw [grown, List.append_assoc]
      · exact toList_append_sublist _ _ sub

theorem describeVariants_sublist (decimals : Decimals) (manifest : Url) (master : MasterPlaylist)
    (variants : List (Variant × Nat)) (tracks : List PresentationTrack) :
    ∃ added, describeVariants decimals manifest master variants tracks = tracks ++ added ∧
      added.Sublist (variants.flatMap (variantTracks decimals manifest master)) := by
  induction variants generalizing tracks with
  | nil => exact ⟨[], (List.append_nil tracks).symm, List.Sublist.refl _⟩
  | cons indexed variants ih =>
    obtain ⟨variant, index⟩ := indexed
    have one : ∃ added, (if (audioRenditions master variant).isEmpty then
          tracks ++ (describedVariant decimals manifest index variant none).toList
        else describeRenditions decimals manifest index variant (audioRenditions master variant)
          tracks) = tracks ++ added ∧
        added.Sublist (variantTracks decimals manifest master (variant, index)) := by
      unfold variantTracks offeredRenditions
      split
      · refine ⟨_, rfl, ?_⟩
        have single := toList_append_sublist (f := describedVariant decimals manifest index variant)
          none [] (List.Sublist.refl _)
        rwa [List.filterMap_nil, List.append_nil] at single
      · exact describeRenditions_sublist _ _
    obtain ⟨added, grown, sub⟩ := one
    unfold describeVariants
    dsimp only
    rw [grown]
    split
    · exact ⟨added, rfl, sub.trans (List.sublist_append_left _ _)⟩
    · obtain ⟨more, grown, others⟩ := ih (tracks ++ added)
      refine ⟨added ++ more, ?_, sub.append others⟩
      rw [grown, List.append_assoc]

theorem describedRendition_selection {rendition : Rendition}
    (h : describedRendition urls base rendition = some track) : track.selection = none := by
  unfold describedRendition at h
  obtain ⟨_, _, h⟩ := Option.bind_eq_some_iff.mp h
  obtain ⟨_, _, h⟩ := Option.bind_eq_some_iff.mp h
  obtain ⟨_, _, h⟩ := Option.bind_eq_some_iff.mp h
  cases h
  rfl

/-- Every track with a selector was built from a variant and a rendition it is
offered with. -/
theorem built_from (member : track ∈ inspectHls urls decimals base (.master master))
    {selection : ExecutionSelection} (selected : track.selection = some selection) :
    ∃ index variant audio, master.variants[index]? = some variant ∧
      audio ∈ offeredRenditions master variant ∧
      describedVariant decimals base index variant audio = some track := by
  have inside := (List.mem_insertionSort _).mp member
  rcases List.mem_append.mp inside with offered | rendition
  · obtain ⟨added, grown, sub⟩ :=
      describeVariants_sublist decimals base master master.variants.zipIdx []
    rw [grown, List.nil_append] at offered
    obtain ⟨indexed, placed, offered⟩ := List.mem_flatMap.mp (sub.subset offered)
    obtain ⟨audio, choice, described⟩ := List.mem_filterMap.mp offered
    exact ⟨indexed.2, indexed.1, audio, List.mem_zipIdx_iff_getElem?.mp placed, choice, described⟩
  · obtain ⟨other, _, described⟩ := List.mem_filterMap.mp rendition
    rw [describedRendition_selection described] at selected
    cases selected

/-- The choices of one variant, by index. -/
def variantChoices (master : MasterPlaylist) (indexed : Variant × Nat) :
    List (Nat × Option Nat) :=
  (offeredRenditions master indexed.1).map fun audio => (indexed.2, audio.map (·.1))

theorem variantChoices_nodup (master : MasterPlaylist) (indexed : Variant × Nat) :
    (variantChoices master indexed).Nodup := by
  unfold variantChoices offeredRenditions
  split
  · exact List.nodup_singleton _
  · have indices : ((audioRenditions master indexed.1).map (·.1)).Nodup := by
      unfold audioRenditions
      split
      · exact List.nodup_nil
      · rw [List.map_map]
        have all : (master.renditions.zipIdx.map Prod.snd).Nodup := by
          rw [List.zipIdx_map_snd]
          exact List.nodup_range'
        exact (List.filter_sublist.map Prod.snd).nodup all
    rw [List.map_map]
    have paired : (audioRenditions master indexed.1).map
        ((fun audio => (indexed.2, Option.map (·.1) audio)) ∘ some) =
        ((audioRenditions master indexed.1).map (·.1)).map fun audio => (indexed.2, some audio) := by
      rw [List.map_map]
      rfl
    rw [paired]
    apply indices.map
    intro a b same
    cases same
    rfl

theorem allChoices_nodup (master : MasterPlaylist) :
    (master.variants.zipIdx.flatMap (variantChoices master)).Nodup := by
  rw [List.nodup_flatMap]
  refine ⟨fun indexed _ => variantChoices_nodup master indexed, ?_⟩
  have indices : (master.variants.zipIdx.map Prod.snd).Nodup := by
    rw [List.zipIdx_map_snd]
    exact List.nodup_range'
  refine (List.pairwise_map.mp indices).imp ?_
  intro a b differ choice first second
  obtain ⟨_, _, same⟩ := List.mem_map.mp first
  obtain ⟨_, _, other⟩ := List.mem_map.mp second
  subst same
  exact differ (congrArg Prod.fst other).symm

/-- No two tracks offered resolve to the same variant and rendition. -/
theorem hlsChoices_nodup (representable : master.Representable) :
    ((inspectHls urls decimals base (.master master)).filterMap hlsChoice).Nodup := by
  have sorted := (List.perm_insertionSort ranksBefore (describeVariants decimals base master
    master.variants.zipIdx [] ++ master.renditions.filterMap
      (describedRendition urls base))).filterMap hlsChoice
  apply sorted.nodup_iff.mpr
  have unselected : (master.renditions.filterMap (describedRendition urls base)).filterMap
      hlsChoice = [] := by
    rw [List.filterMap_eq_nil_iff]
    intro track member
    obtain ⟨rendition, _, described⟩ := List.mem_filterMap.mp member
    unfold hlsChoice
    rw [describedRendition_selection described]
    rfl
  obtain ⟨added, grown, sub⟩ :=
    describeVariants_sublist decimals base master master.variants.zipIdx []
  rw [List.filterMap_append, unselected, List.append_nil, grown, List.nil_append]
  apply (sub.filterMap hlsChoice).nodup
  rw [List.filterMap_flatMap]
  have within : (master.variants.zipIdx.flatMap fun indexed =>
      (variantTracks decimals base master indexed).filterMap hlsChoice).Sublist
        (master.variants.zipIdx.flatMap (variantChoices master)) := by
    apply List.Sublist.flatMap_right
    intro indexed placed
    unfold variantTracks variantChoices
    rw [List.filterMap_filterMap]
    have described : ∀ audio ∈ offeredRenditions master indexed.1,
        ((describedVariant decimals base indexed.2 indexed.1 audio).bind hlsChoice) = none ∨
        ((describedVariant decimals base indexed.2 indexed.1 audio).bind hlsChoice) =
          some (indexed.2, audio.map (·.1)) := by
      intro audio offered
      cases built : describedVariant decimals base indexed.2 indexed.1 audio with
      | none => exact .inl rfl
      | some track =>
        exact .inr (hlsChoice_describedVariant representable
          (List.mem_zipIdx_iff_getElem?.mp placed) offered built)
    exact filterMap_sublist_map described
  exact within.nodup (allChoices_nodup master)

end

/-! ## DASH -/

/-- The counts and numbers of a period are as wide as the source's integers. -/
structure Dash.Period.Representable (period : Period) : Prop where
  sets : period.adaptationSets.length < 2 ^ 64
  representations : ∀ set ∈ period.adaptationSets, set.representations.length < 2 ^ 64
  bandwidths : ∀ set ∈ period.adaptationSets, ∀ representation ∈ set.representations,
    ∀ n ∈ representation.bandwidth, n < 2 ^ 64

/-- The sets and representations a selector names. -/
def dashChoice (track : PresentationTrack) : Option DashTracks := do
  let selected ← (Selection.parseDash (← track.selection)).toOption
  pure
    { video := selected.videoSet.bind fun set => selected.videoRepresentation.map (set, ·)
      audio := selected.audioSet.bind fun set => selected.audioRepresentation.map (set, ·) }

/-- The plan of these tracks, whoever chose them. -/
def planDashChoice (urls : UrlLibrary) (base : Url) (mpd : Mpd) (period : Period)
    (tracks : DashTracks) : Except ManifestError TrackPlan := do
  let videoPlan ← tracks.video.mapM fun choice =>
    planDashTrack urls base mpd period choice.1 choice.2
  let audioPlan ← tracks.audio.mapM fun choice =>
    planDashTrack urls base mpd period choice.1 choice.2
  match videoPlan, audioPlan with
  | some video, some audio => video.withAudio audio
  | some video, none => pure video
  | none, some audio => pure audio
  | none, none => throw .malformed

/-- A set, representation and bandwidth as they stand in the period. -/
structure Stands (period : Period) (kind : TrackKind) (track : Nat × Nat × Option Nat)
    (set : AdaptationSet) (representation : Representation) : Prop where
  atSet : period.adaptationSets[track.1]? = some set
  ofKind : set.kind = kind
  atRepresentation : set.representations[track.2.1]? = some representation
  declared : representation.bandwidth = track.2.2

/-- The indices of a track named with its bandwidth. -/
def indices (track : Nat × Nat × Option Nat) : Nat × Nat := (track.1, track.2.1)

section

variable {urls : UrlLibrary} {base : Url} {mpd : Mpd} {period : Period}
  {video audio : Option (Nat × Nat × Option Nat)} {selection : ExecutionSelection}

variable {kind : TrackKind} {set : AdaptationSet} {setIndex : Nat} {indexed : Representation × Nat}
variable {track : Nat × Nat × Option Nat}

theorem Stands.fits {representation : Representation}
    (stands : Stands period kind track set representation) (representable : period.Representable) :
    track.1 < 2 ^ 64 ∧ track.2.1 < 2 ^ 64 ∧ ∀ n ∈ track.2.2, n < 2 ^ 64 := by
  have inSet := List.mem_of_getElem? stands.atSet
  have placed := (List.getElem?_eq_some_iff.mp stands.atSet).1
  have inside := (List.getElem?_eq_some_iff.mp stands.atRepresentation).1
  refine ⟨Nat.lt_trans placed representable.sets,
    Nat.lt_trans inside (representable.representations set inSet), ?_⟩
  rw [← stands.declared]
  exact representable.bandwidths set inSet representation (List.mem_of_getElem? stands.atRepresentation)

theorem Stands.validate {representation : Representation}
    (stands : Stands period kind track set representation) :
    validateDashChoice period track.1 track.2.1 kind track.2.2 = .ok () := by
  unfold validateDashChoice
  rw [stands.atSet]
  change (if set.kind ≠ kind then _ else _) = _
  rw [if_neg (not_not.mpr stands.ofKind), stands.atRepresentation]
  change (if representation.bandwidth ≠ track.2.2 then _ else _) = _
  rw [if_neg (not_not.mpr stands.declared)]
  rfl

theorem selectedDashTrack_stands {choice : Option (Nat × Nat × Option Nat)}
    (stands : ∀ track ∈ choice, ∃ set representation, Stands period kind track set representation) :
    selectedDashTrack period (choice.map (·.1)) (choice.map (·.2.1)) kind (choice.bind (·.2.2)) =
      .ok (choice.map indices) := by
  cases choice with
  | none => rfl
  | some track =>
    obtain ⟨set, representation, named⟩ := stands track rfl
    change (validateDashChoice period track.1 track.2.1 kind track.2.2 >>= _) = _
    rw [named.validate]
    rfl

/-- A selector written for tracks that stand in the period is planned as them. -/
theorem planDashSelected_stands (static : mpd.kind ≠ .dynamic) (only : mpd.mediaPeriod = .ok period)
    (videoStands : ∀ track ∈ video, ∃ set representation,
      Stands period .video track set representation)
    (audioStands : ∀ track ∈ audio, ∃ set representation,
      Stands period .audio track set representation)
    (parsed : Selection.parseDash selection = .ok ⟨video.map (·.1), video.map (·.2.1),
      video.bind (·.2.2), audio.map (·.1), audio.map (·.2.1), audio.bind (·.2.2)⟩) :
    planDashSelected urls base mpd (some selection) =
      planDashChoice urls base mpd period ⟨video.map indices, audio.map indices⟩ := by
  have chosen : chosenDashTracks period (some selection) =
      .ok ⟨video.map indices, audio.map indices⟩ := by
    change selectedDashTracks period selection = _
    unfold selectedDashTracks
    rw [parsed, ok_bind, selectedDashTrack_stands videoStands, ok_bind,
      selectedDashTrack_stands audioStands]
    rfl
  unfold planDashSelected planDashChoice
  rw [if_neg static]
  change (mpd.mediaPeriod >>= _) = _
  rw [only, ok_bind, chosen]
  rfl

/-! ### Which tracks are offered -/

/-- The set offered as audio is an audio set. -/
def ListedAsAudio (period : Period) : Prop :=
  ∀ index ∈ (offeredSets period).2, ∀ set, period.adaptationSets[index]? = some set →
    set.kind = .audio

/-- What a track was built from: a quality of the video set beside the offered
audio, or a quality of the audio set alone. -/
inductive DashOffer (urls : UrlLibrary) (base : Url) (mpd : Mpd) (decimals : Decimals)
    (period : Period) (track : PresentationTrack) : DashTracks → Prop where
  | video {set : AdaptationSet} {representation : Representation} {setIndex index : Nat}
      {duration : Option Nat} {group : Option Text}
      (selected : (offeredSets period).1 = some setIndex)
      (stands : Stands period .video (setIndex, index, representation.bandwidth) set representation)
      (built : describedDashVideo urls base mpd duration
        (offeredAudio period (offeredSets period).2) group setIndex (representation, index) =
          .ok track) :
      DashOffer urls base mpd decimals period track
        ⟨some (setIndex, index), (offeredAudio period (offeredSets period).2).map indices⟩
  | audio {set : AdaptationSet} {representation : Representation} {setIndex index : Nat}
      {duration : Option Nat}
      (selected : (offeredSets period).2 = some setIndex)
      (stands : Stands period set.kind (setIndex, index, representation.bandwidth) set
        representation)
      (built : describedDashAudio urls base mpd decimals duration set setIndex
        (representation, index) = .ok track) :
      DashOffer urls base mpd decimals period track ⟨none, some (setIndex, index)⟩

theorem offeredSets_video (selected : (offeredSets period).1 = some setIndex) :
    (∀ set, period.adaptationSets[setIndex]? = some set → set.kind = .video) ∧
      (offeredSets period).2 = audioSetIndex period := by
  unfold offeredSets at selected ⊢
  split at selected
  · split at selected
    · rename_i index found picture
      cases selected
      rw [if_pos picture]
      refine ⟨?_, rfl⟩
      intro set present
      rw [present] at picture
      exact Option.some.inj picture
    · cases selected
  · cases selected

theorem audioSetIndex_kind {index : Nat} (found : audioSetIndex period = some index)
    (present : period.adaptationSets[index]? = some set) :
    set.kind = .audio := by
  unfold audioSetIndex bestSetIndex at found
  obtain ⟨other, placed, qualifies, _⟩ := lastMaxIndex_isLastMax found
  rw [present] at placed
  cases placed
  rw [Bool.and_eq_true, decide_eq_true_eq] at qualifies
  exact qualifies.1

/-- Beside a video set the audio offered is always an audio set. -/
theorem listedAsAudio_of_video (selected : (offeredSets period).1 = some setIndex) :
    ListedAsAudio period := by
  intro index found set present
  rw [(offeredSets_video selected).2] at found
  exact audioSetIndex_kind found present

theorem offeredAudio_stands (listed : ListedAsAudio period)
    (offered : offeredAudio period (offeredSets period).2 = some track) :
    ∃ set representation, Stands period .audio track set representation := by
  unfold offeredAudio at offered
  obtain ⟨index, found, offered⟩ := Option.bind_eq_some_iff.mp offered
  obtain ⟨set, present, offered⟩ := Option.bind_eq_some_iff.mp offered
  obtain ⟨best, chosen, offered⟩ := Option.bind_eq_some_iff.mp offered
  obtain ⟨representation, inside, _, _⟩ := lastMaxIndex_isLastMax chosen
  cases offered
  refine ⟨set, representation, present, listed index found set present, inside, ?_⟩
  rw [inside]
  rfl

variable {decimals : Decimals}

/-- What an offered track's selector names is what the track was built from, and the
planner plans exactly that. -/
theorem DashOffer.planned {track : PresentationTrack} {choice : DashTracks}
    (offer : DashOffer urls base mpd decimals period track choice)
    (representable : period.Representable) (static : mpd.kind ≠ .dynamic)
    (only : mpd.mediaPeriod = .ok period) :
    ∃ selection, track.selection = some selection ∧ dashChoice track = some choice ∧
      ((track.kind = .audio → ListedAsAudio period) →
        planDashSelected urls base mpd (some selection) =
          planDashChoice urls base mpd period choice) := by
  cases offer with
  | video selected stands built =>
    obtain ⟨selection, written, same⟩ := bind_ok built
    cases same
    have audioStands : ∀ track ∈ offeredAudio period (offeredSets period).2,
        ∃ set representation, Stands period .audio track set representation :=
      fun _ offered => offeredAudio_stands (listedAsAudio_of_video selected) offered
    have parsed := Selection.parseDash_dashSelection written
      (by
        intro track same
        cases same
        exact stands.fits representable)
      (by
        intro track offered
        obtain ⟨set, representation, named⟩ := audioStands track offered
        exact named.fits representable)
    refine ⟨selection, rfl, ?_, ?_⟩
    · change ((Selection.parseDash selection).toOption.bind _) = _
      rw [parsed]
      cases offeredAudio period (offeredSets period).2 <;> rfl
    · intro _
      exact planDashSelected_stands static only
        (by
          intro track same
          cases same
          exact ⟨_, _, stands⟩)
        audioStands parsed
  | audio selected stands built =>
    obtain ⟨selection, written, same⟩ := bind_ok built
    cases same
    have parsed := Selection.parseDash_dashSelection written
      (by
        intro track absent
        cases absent)
      (by
        intro track same
        cases same
        exact stands.fits representable)
    refine ⟨selection, rfl, ?_, ?_⟩
    · change ((Selection.parseDash selection).toOption.bind _) = _
      rw [parsed]
      rfl
    · intro listed
      have kind := listed rfl _ selected _ stands.atSet
      exact planDashSelected_stands static only
        (by
          intro track absent
          cases absent)
        (by
          intro track same
          cases same
          exact ⟨_, _, stands.atSet, kind, stands.atRepresentation, stands.declared⟩)
        parsed

theorem mem_describedRepresentations (member : indexed ∈ describedRepresentations set) :
    set.representations[indexed.2]? = some indexed.1 := by
  have placed := List.mem_zipIdx_iff_getElem?.mp member
  rw [List.getElem?_take] at placed
  split at placed
  · exact placed
  · cases placed

/-- Every video offered is a quality of the video set. -/
theorem offeredVideos_ok {videos : List PresentationTrack}
    (h : offeredVideos urls base mpd period = .ok videos) :
    videos = [] ∨ ∃ index set group, (offeredSets period).1 = some index ∧
      period.adaptationSets[index]? = some set ∧
      (describedRepresentations set).mapM (describedDashVideo urls base mpd
        (presentationDuration mpd period) (offeredAudio period (offeredSets period).2) group index) =
          .ok videos := by
  unfold offeredVideos at h
  split at h
  · cases h
    exact .inl rfl
  · rename_i index selected
    split at h
    · cases h
      exact .inl rfl
    · exact .inr ⟨index, _, _, selected, ‹_›, h⟩

theorem offeredAudios_ok {audios : List PresentationTrack}
    (h : offeredAudios urls base mpd decimals period = .ok audios) :
    audios = [] ∨ ∃ index set, (offeredSets period).2 = some index ∧
      period.adaptationSets[index]? = some set ∧
      (describedRepresentations set).mapM (describedDashAudio urls base mpd decimals
        (presentationDuration mpd period) set index) = .ok audios := by
  unfold offeredAudios at h
  split at h
  · cases h
    exact .inl rfl
  · rename_i index selected
    split at h
    · cases h
      exact .inl rfl
    · exact .inr ⟨index, _, selected, ‹_›, h⟩

/-- A quality of a set stands in the period under the set's own kind. -/
theorem stands_of_described (present : period.adaptationSets[setIndex]? = some set)
    (member : indexed ∈ describedRepresentations set) :
    Stands period set.kind (setIndex, indexed.2, indexed.1.bandwidth) set indexed.1 :=
  ⟨present, rfl, mem_describedRepresentations member, rfl⟩

theorem videoOffer {group : Option Text} {duration : Option Nat} {track : PresentationTrack}
    (selected : (offeredSets period).1 = some setIndex)
    (present : period.adaptationSets[setIndex]? = some set)
    (member : indexed ∈ describedRepresentations set)
    (built : describedDashVideo urls base mpd duration (offeredAudio period (offeredSets period).2)
      group setIndex indexed = .ok track) :
    DashOffer urls base mpd decimals period track
      ⟨some (setIndex, indexed.2), (offeredAudio period (offeredSets period).2).map indices⟩ := by
  have stands := stands_of_described present member
  rw [(offeredSets_video selected).1 set present] at stands
  exact .video selected stands built

theorem numbers_nodup (set : AdaptationSet) :
    ((describedRepresentations set).map Prod.snd).Nodup := by
  unfold describedRepresentations
  rw [List.zipIdx_map_snd]
  exact List.nodup_range'

section Choices

variable (representable : period.Representable) (static : mpd.kind ≠ .dynamic)
  (only : mpd.mediaPeriod = .ok period)

include representable static only

/-- The choices of the videos offered differ in their representation alone. -/
theorem offeredVideos_choices {videos : List PresentationTrack} (h : offeredVideos urls base mpd period = .ok videos) :
    ∃ (setIndex : Nat) (numbers : List Nat), numbers.Nodup ∧
      videos.filterMap dashChoice = numbers.map fun number => ⟨some (setIndex, number),
        (offeredAudio period (offeredSets period).2).map indices⟩ := by
  rcases offeredVideos_ok h with none | ⟨index, set, group, selected, present, described⟩
  · exact ⟨0, [], List.nodup_nil, by rw [none]; rfl⟩
  · refine ⟨index, _, numbers_nodup set, ?_⟩
    rw [List.map_map]
    apply mapM_ok_filterMap described
    intro indexed inside track built
    have offer : DashOffer urls base mpd sampleDecimals period track _ :=
      videoOffer selected present inside built
    obtain ⟨_, _, choice, _⟩ := offer.planned representable static only
    exact choice

theorem offeredAudios_choices {audios : List PresentationTrack}
    (h : offeredAudios urls base mpd decimals period = .ok audios) :
    ∃ (setIndex : Nat) (numbers : List Nat), numbers.Nodup ∧
      audios.filterMap dashChoice = numbers.map fun number => ⟨none, some (setIndex, number)⟩ := by
  rcases offeredAudios_ok h with none | ⟨index, set, selected, present, described⟩
  · exact ⟨0, [], List.nodup_nil, by rw [none]; rfl⟩
  · refine ⟨index, _, numbers_nodup set, ?_⟩
    rw [List.map_map]
    apply mapM_ok_filterMap described
    intro indexed inside track built
    obtain ⟨_, _, choice, _⟩ := (DashOffer.audio selected (stands_of_described present inside)
      built).planned representable static only
    exact choice

end Choices

/-- Every track of an inspection is an offer, and no two are of the same choice. -/
theorem inspectMpd_offers {tracks : List PresentationTrack}
    (h : inspectMpd urls base mpd decimals = .ok tracks) :
    ∃ period, mpd.mediaPeriod = .ok period ∧ mpd.kind ≠ .dynamic ∧
      (∀ track ∈ tracks, ∃ choice, DashOffer urls base mpd decimals period track choice) ∧
      (period.Representable → (tracks.filterMap dashChoice).Nodup) := by
  unfold inspectMpd at h
  obtain ⟨period, only, h⟩ := bind_ok h
  obtain ⟨static, h⟩ := guard_ok h
  obtain ⟨_, h⟩ := guard_ok h
  obtain ⟨videos, videosOk, h⟩ := bind_ok h
  obtain ⟨audios, audiosOk, h⟩ := bind_ok h
  cases h
  refine ⟨period, only, static, ?_, ?_⟩
  · intro track member
    rcases List.mem_append.mp ((List.mem_insertionSort _).mp member) with video | audio
    · rcases offeredVideos_ok videosOk with none | ⟨index, set, group, selected, present, described⟩
      · rw [none] at video
        cases video
      · obtain ⟨indexed, inside, built⟩ := mapM_ok_mem described video
        exact ⟨_, videoOffer selected present inside built⟩
    · rcases offeredAudios_ok audiosOk with none | ⟨index, set, selected, present, described⟩
      · rw [none] at audio
        cases audio
      · obtain ⟨indexed, inside, built⟩ := mapM_ok_mem described audio
        exact ⟨_, .audio selected (stands_of_described present inside) built⟩
  · intro representable
    obtain ⟨videoSet, pictures, distinct, videoChoices⟩ :=
      offeredVideos_choices representable static only videosOk
    obtain ⟨audioSet, sounds, different, audioChoices⟩ :=
      offeredAudios_choices representable static only audiosOk
    have sorted := (List.perm_insertionSort ranksBefore (videos ++ audios)).filterMap dashChoice
    apply sorted.nodup_iff.mpr
    rw [List.filterMap_append, videoChoices, audioChoices, List.nodup_append]
    refine ⟨distinct.map ?_, different.map ?_, ?_⟩
    · intro a b same
      cases same
      rfl
    · intro a b same
      cases same
      rfl
    · intro picture first sound second same
      obtain ⟨_, _, pictured⟩ := List.mem_map.mp first
      obtain ⟨_, _, heard⟩ := List.mem_map.mp second
      rw [← pictured, ← heard] at same
      cases same

end

/-- Every track an HLS master playlist or a static MPD is offered as names, by the
selector it is offered with, exactly what it was built from; the planner plans that
and nothing else, where the language reads back unchanged and the audio set is one;
and no two tracks name the same. -/
theorem offered_tracks_resolve (urls : UrlLibrary) (decimals : Decimals) (base : Url) :
    (∀ master : MasterPlaylist, master.Representable →
      (∀ track ∈ inspectHls urls decimals base (.master master),
        ∀ selection ∈ track.selection, ∃ index variant audio,
          master.variants[index]? = some variant ∧ audio ∈ offeredRenditions master variant ∧
          describedVariant decimals base index variant audio = some track ∧
          hlsChoice track = some (index, audio.map (·.1)) ∧
          ((∀ choice ∈ audio, Selection.Plain choice.2.language) →
            planHlsSelected urls decimals base (.master master) (some selection) =
              planHlsChoice urls decimals base variant (audio.map (·.2)))) ∧
      ((inspectHls urls decimals base (.master master)).filterMap hlsChoice).Nodup) ∧
    ∀ (mpd : Mpd) (tracks : List PresentationTrack) (period : Period),
      inspectMpd urls base mpd decimals = .ok tracks → mpd.mediaPeriod = .ok period →
      period.Representable →
      (∀ track ∈ tracks, ∃ selection choice, track.selection = some selection ∧
        DashOffer urls base mpd decimals period track choice ∧ dashChoice track = some choice ∧
        ((track.kind = .audio → ListedAsAudio period) →
          planDashSelected urls base mpd (some selection) =
            planDashChoice urls base mpd period choice)) ∧
      (tracks.filterMap dashChoice).Nodup := by
  refine ⟨fun master representable => ⟨?_, hlsChoices_nodup representable⟩, ?_⟩
  · intro track member selection selected
    obtain ⟨index, variant, audio, found, offered, built⟩ := built_from member selected
    refine ⟨index, variant, audio, found, offered, built,
      hlsChoice_describedVariant representable found offered built, ?_⟩
    intro plain
    obtain ⟨other, same, planned⟩ :=
      planHlsSelected_describedVariant representable found offered built plain
    cases same.symm.trans selected
    exact planned
  · intro mpd tracks period inspected only representable
    obtain ⟨found, unique, static, offers, distinct⟩ := inspectMpd_offers inspected
    cases unique.symm.trans only
    refine ⟨?_, distinct representable⟩
    intro track member
    obtain ⟨choice, offer⟩ := offers track member
    obtain ⟨selection, selected, chosen, planned⟩ := offer.planned representable static only
    exact ⟨selection, choice, selected, offer, chosen, planned⟩

/-- A quality addressed through a segment index, which the planner does not read. -/
def indexedMpd : Text :=
  ("<MPD><Period duration=\"PT4S\"><AdaptationSet contentType=\"video\">" ++
    "<Representation id=\"v\" bandwidth=\"1\"><SegmentBase indexRange=\"0-99\"/>" ++
    "</Representation></AdaptationSet></Period></MPD>").toList

theorem offered_quality_refused :
    ∃ mpd tracks, Dash.parse sampleDecimals indexedMpd = .ok mpd ∧
      inspectMpd sampleUrls sampleBase mpd sampleDecimals = .ok tracks ∧
      ∃ track ∈ tracks, ∃ selection ∈ track.selection,
        planDashSelected sampleUrls sampleBase mpd (some selection) =
          .error (.unsupported .segmentIndex) := by
  have offered : (Dash.parse sampleDecimals indexedMpd).toOption.any (fun mpd =>
      (inspectMpd sampleUrls sampleBase mpd sampleDecimals).toOption.any fun tracks =>
        tracks.any fun track => track.selection.any fun selection =>
          match planDashSelected sampleUrls sampleBase mpd (some selection) with
          | .error error => error = .unsupported .segmentIndex
          | .ok _ => false) = true := by
    decide +kernel
  obtain ⟨mpd, parsed, offered⟩ := toOption_any_ok offered
  obtain ⟨tracks, inspected, offered⟩ := toOption_any_ok offered
  obtain ⟨track, member, offered⟩ := List.any_eq_true.mp offered
  obtain ⟨selection, selected, refused⟩ := (Option.any_eq_true _ _).mp offered
  refine ⟨mpd, tracks, parsed, inspected, track, member, selection, selected, ?_⟩
  cases planned : planDashSelected sampleUrls sampleBase mpd (some selection) with
  | ok plan =>
    rw [planned] at refused
    cases refused
  | error error =>
    rw [planned] at refused
    rw [decide_eq_true_eq.mp refused]

/-- One quality with two languages. -/
def sampleMaster : MasterPlaylist where
  variants := [⟨"video.m3u8".toList, some 4000000, some 1920, some 1080, none, some "a".toList⟩]
  renditions :=
    [⟨"AUDIO".toList, some "a".toList, none, some "pt-BR".toList, some "pt.m3u8".toList, true⟩,
      ⟨"AUDIO".toList, some "a".toList, none, some "en".toList, some "en.m3u8".toList, false⟩]
  iframeVariants := []

def samplePeriod : Period where
  id := none
  durationMillis := some 4000
  baseUrls := []
  segmentTemplate := none
  segmentList := none
  adaptationSets :=
    [⟨some "video".toList, none, none, [], none, none,
      [⟨none, some 1000, none, none, none, none, ["v.mp4".toList], none, none, none⟩]⟩,
      ⟨some "audio".toList, none, none, [], none, none,
        [⟨none, some 100, none, none, none, none, ["a.mp4".toList], none, none, none⟩]⟩]

def sampleMpd : Mpd := ⟨.static, none, none, [], [samplePeriod]⟩

theorem offered_tracks_resolve_example :
    (∃ track ∈ inspectHls sampleUrls sampleDecimals sampleBase (.master sampleMaster),
      ∃ selection ∈ track.selection, ∃ variant rendition,
        planHlsSelected sampleUrls sampleDecimals sampleBase (.master sampleMaster)
            (some selection) =
          planHlsChoice sampleUrls sampleDecimals sampleBase variant rendition) ∧
    ∃ tracks, inspectMpd sampleUrls sampleBase sampleMpd sampleDecimals = .ok tracks ∧
      tracks.length = 2 ∧ ∀ track ∈ tracks, ∃ selection choice, track.selection = some selection ∧
        planDashSelected sampleUrls sampleBase sampleMpd (some selection) =
          planDashChoice sampleUrls sampleBase sampleMpd samplePeriod choice := by
  constructor
  · have offered : (inspectHls sampleUrls sampleDecimals sampleBase (.master sampleMaster)).any
        (fun track => track.selection.isSome) = true := by
      decide +kernel
    obtain ⟨track, member, selected⟩ := List.any_eq_true.mp offered
    obtain ⟨selection, selected⟩ := Option.isSome_iff_exists.mp selected
    have representable : sampleMaster.Representable := by
      refine ⟨?_, by decide, by decide⟩
      intro variant member
      cases List.mem_singleton.mp member
      refine ⟨?_, ?_⟩
      · rintro _ ⟨⟩
        decide
      · rintro _ ⟨⟩
        decide
    obtain ⟨index, variant, audio, _, heard, _, _, planned⟩ :=
      ((offered_tracks_resolve sampleUrls sampleDecimals sampleBase).1 sampleMaster
        representable).1 track member selection selected
    refine ⟨track, member, selection, selected, variant, audio.map (·.2), planned ?_⟩
    intro choice chosen
    cases chosen
    have placed := List.mem_of_getElem? (mem_audioRenditions (mem_offeredRenditions_some heard)).1
    have plain : ∀ rendition ∈ sampleMaster.renditions,
        rendition.language.all (fun tag => tag ≠ ['-'] ∧ tag.all Selection.isLanguageCharacter) =
          true := by
      decide +kernel
    have tag := plain _ placed
    cases declared : choice.2.language with
    | none => trivial
    | some language =>
      have checked : language ≠ ['-'] ∧ language.all Selection.isLanguageCharacter = true := by
        rw [declared] at tag
        exact of_decide_eq_true tag
      exact checked
  · have inspected : (inspectMpd sampleUrls sampleBase sampleMpd sampleDecimals).toOption.any
        (fun tracks => tracks.length = 2) = true := by
      decide +kernel
    obtain ⟨tracks, inspected, two⟩ := toOption_any_ok inspected
    have representable : samplePeriod.Representable := by
      refine ⟨by decide, by decide, by decide⟩
    have resolved := ((offered_tracks_resolve sampleUrls sampleDecimals sampleBase).2 sampleMpd
      tracks samplePeriod inspected rfl representable).1
    refine ⟨tracks, inspected, of_decide_eq_true two, ?_⟩
    intro track member
    obtain ⟨selection, choice, selected, _, _, planned⟩ := resolved track member
    refine ⟨selection, choice, selected, planned ?_⟩
    intro _ index found set present
    have second : (offeredSets samplePeriod).2 = some 1 := by decide +kernel
    rw [second] at found
    cases found
    cases present
    rfl

end Gunda.Stream

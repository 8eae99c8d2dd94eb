import Gunda.Capture.Extractor

/-!
# What a walk gathers

The loop of `visit` sees some values of a document, one after the other. What it has
gathered in the end is told from these values alone.
-/
namespace Gunda.Capture

open Gunda.Lib Gunda.Lib.Text
open Gunda.Core (Url)
open Gunda.Gundad (UrlCrate PageUrls)

namespace Walk

variable {pages : PageUrls} (walk : Walk pages)
variable {key : Text}

/-- The values the loop looks at. -/
def visited : Nat → List (Json × Nat) → Collector pages.crate → List Json
  | 0, _, _ => []
  | _ + 1, [], _ => []
  | left_ + 1, (value, depth) :: pending, collector =>
      if MAX_PRESENTATIONS ≤ collector.presentations.length ∨ MAX_DEPTH < depth then []
      else value :: visited left_ (children depth value ++ pending) (walk.see collector value)

/-- The values of a document within the limits of the walk. -/
def traversed (document : Json) : List Json := walk.visited MAX_NODES [(document, 0)] .empty

/-- The offers for a key. -/
def offers (key : Text) (values : List Json) : List (Offer pages.crate) :=
  values.filterMap fun value => (walk.offerOf value).bind fun found =>
    if found.1 = key then some found.2 else none

/-- What is found for a presentation: the variants of its key, or without one the media
texts. -/
def offered (values : List Json) : Option Text → List (MediaVariant pages.crate)
  | some key => (walk.offers key values).flatMap (·.variants)
  | none => values.filterMap mediaText

def manifest (values : List Json) : Option Text → Option (MediaVariant pages.crate)
  | some key => (walk.offers key values).findSome? (·.manifest)
  | none => none

def builder (values : List Json) : Option Text → PresentationBuilder pages.crate
  | some key => (walk.offers key values).foldl PresentationBuilder.add .empty
  | none => (values.filterMap mediaText).foldl PresentationBuilder.addVariant .empty

variable {walk} {collector : Collector pages.crate} {values : List Json} {value : Json}

theorem visit_eq (left_ : Nat) (pending : List (Json × Nat)) (collector : Collector pages.crate) :
    walk.visit left_ pending collector =
      (walk.visited left_ pending collector).foldl walk.see collector := by
  induction left_ generalizing pending collector with
  | zero => rfl
  | succ left_ ih =>
    cases pending with
    | nil => rfl
    | cons entry pending =>
      obtain ⟨value, depth⟩ := entry
      rw [visit, visited]
      split
      · rfl
      · rw [ih, List.foldl_cons]

/-! ## The presentations -/

variable {urls : UrlCrate}

theorem entry_length (key : Text) (change : PresentationBuilder urls → PresentationBuilder urls)
    (presentations : List (Text × PresentationBuilder urls)) :
    (Collector.entry key change presentations).length ≤ presentations.length + 1 := by
  unfold Collector.entry
  split
  · rw [List.length_map]
    exact Nat.le_succ _
  · rw [List.orderedInsert_length]

theorem see_length (collector : Collector pages.crate) (value : Json) :
    (walk.see collector value).presentations.length ≤ collector.presentations.length + 1 := by
  unfold see
  split
  · dsimp only
    apply entry_length
  · unfold Collector.addFallback
    split <;> exact Nat.le_succ _
  · exact Nat.le_succ _

theorem visit_length {left_ : Nat} {pending : List (Json × Nat)}
    (few : collector.presentations.length ≤ MAX_PRESENTATIONS) :
    (walk.visit left_ pending collector).presentations.length ≤ MAX_PRESENTATIONS := by
  induction left_ generalizing pending collector with
  | zero => exact few
  | succ left_ ih =>
    cases pending with
    | nil => exact few
    | cons entry pending =>
      obtain ⟨value, depth⟩ := entry
      rw [visit]
      split
      · exact few
      · rename_i more
        have longer := walk.see_length collector value
        apply ih
        omega

theorem mem_entry {change : PresentationBuilder urls → PresentationBuilder urls}
    {presentations : List (Text × PresentationBuilder urls)}
    {one : Text × PresentationBuilder urls} :
    one ∈ Collector.entry key change presentations ↔
      (one ∈ presentations ∧ one.1 ≠ key) ∨
      (one.1 = key ∧ ∃ before, (key, before) ∈ presentations ∧ one.2 = change before) ∨
      ((∀ other ∈ presentations, other.1 ≠ key) ∧ one = (key, change .empty)) := by
  unfold Collector.entry
  split
  · rename_i present
    obtain ⟨other, inside, same⟩ := List.any_eq_true.mp present
    have same := of_decide_eq_true same
    rw [List.mem_map]
    constructor
    · rintro ⟨before, member, changed⟩
      split at changed
      · rename_i keyed
        rw [← changed]
        refine .inr (.inl ⟨rfl, before.2, ?_, rfl⟩)
        rw [← keyed]
        exact member
      · rename_i other_
        rw [← changed]
        exact .inl ⟨member, other_⟩
    · rintro (⟨member, differs⟩ | ⟨keyed, before, member, changed⟩ | ⟨absent, _⟩)
      · exact ⟨one, member, if_neg differs⟩
      · refine ⟨(key, before), member, ?_⟩
        rw [if_pos rfl, ← changed, ← keyed]
      · exact absurd same (absent other inside)
  · rename_i absent
    have absent : ∀ other ∈ presentations, other.1 ≠ key := by
      intro other member same
      exact absent (List.any_eq_true.mpr ⟨other, member, decide_eq_true same⟩)
    rw [List.mem_orderedInsert]
    constructor
    · rintro (new | member)
      · exact .inr (.inr ⟨absent, new⟩)
      · exact .inl ⟨member, absent one member⟩
    · rintro (⟨member, _⟩ | ⟨_, before, member, _⟩ | ⟨_, new⟩)
      · exact .inr member
      · exact absurd rfl (absent _ member)
      · exact .inl new

theorem offers_snoc (key : Text) : walk.offers key (values ++ [value]) =
    walk.offers key values ++ ((walk.offerOf value).bind fun found =>
      if found.1 = key then some found.2 else none).toList := by
  unfold offers
  rw [List.filterMap_append]
  congr 1

/-- What has been gathered from the values seen. -/
structure Gathers (walk : Walk pages) (values : List Json) (collector : Collector pages.crate) :
    Prop where
  built : ∀ one ∈ collector.presentations,
    walk.offers one.1 values ≠ [] ∧ one.2 = walk.builder values (some one.1)
  found : ∀ key, walk.offers key values ≠ [] → ∃ builder, (key, builder) ∈ collector.presentations
  texts : collector.fallbackVariants =
    (variantGathering pages.crate).all (values.filterMap mediaText)

/-- What is said of media by a text alone. -/
theorem mediaText_bare {variant : MediaVariant pages.crate} (h : mediaText value = some variant) :
    ∃ url, variant = bareVariant url := by
  unfold mediaText at h
  split at h
  · obtain ⟨url, _, same⟩ := Option.map_eq_some_iff.mp h
    exact ⟨url, same.symm⟩
  · cases h

theorem all_bare {texts : List (MediaVariant urls)}
    (bare : ∀ variant ∈ texts, ∃ url, variant = bareVariant url) :
    ∀ variant ∈ (variantGathering urls).all texts, ∃ url, variant = bareVariant url := by
  apply Gathering.forall_all
  · rintro _ _ _ ⟨url, rfl⟩ ⟨other, rfl⟩
    exact ⟨url, rfl⟩
  · exact bare

theorem fallback_snoc {texts : List (MediaVariant pages.crate)} {text : MediaVariant pages.crate}
    (bare : ∀ variant ∈ texts ++ [text], ∃ url, variant = bareVariant url)
    (before : collector.fallbackVariants = (variantGathering pages.crate).all texts) :
    (collector.addFallback text).fallbackVariants =
      (variantGathering pages.crate).all (texts ++ [text]) := by
  obtain ⟨earlier, last⟩ := List.forall_mem_append.mp bare
  obtain ⟨url, spelled⟩ := last text List.mem_cons_self
  have kept := all_bare earlier
  rw [← before] at kept
  rw [Gathering.all_snoc, ← before, Gathering.put]
  unfold Collector.addFallback
  by_cases full : MAX_VARIANTS ≤ collector.fallbackVariants.length
  · have none_ : (variantGathering pages.crate).capacity ≤ collector.fallbackVariants.length := full
    rw [if_neg (fun more => Nat.not_lt.mpr full more.1), if_pos none_]
  · have room : ¬ (variantGathering pages.crate).capacity ≤ collector.fallbackVariants.length := full
    rw [if_neg room]
    cases found : (variantGathering pages.crate).mergeFirst text collector.fallbackVariants with
    | some next =>
      have unchanged : next = collector.fallbackVariants := by
        apply Gathering.mergeFirst_same found
        intro variant member
        obtain ⟨own, same⟩ := kept variant member
        rw [same, spelled]
        rfl
      rw [unchanged, if_neg]
      rintro ⟨_, absent⟩
      have none_ : (variantGathering pages.crate).mergeFirst text collector.fallbackVariants = none := by
        apply Gathering.mergeFirst_none.mpr
        intro variant member same
        exact absent (List.any_eq_true.mpr ⟨variant, member, decide_eq_true same⟩)
      rw [found] at none_
      cases none_
    | none =>
      have absent := Gathering.mergeFirst_none.mp found
      rw [if_pos]
      refine ⟨Nat.not_le.mp full, ?_⟩
      intro present
      obtain ⟨variant, member, same⟩ := List.any_eq_true.mp present
      exact absent variant member (of_decide_eq_true same)

theorem see_texts (collector : Collector pages.crate) (value : Json) :
    (walk.see collector value).fallbackVariants =
      match mediaText value with
      | none => collector.fallbackVariants
      | some text => (collector.addFallback text).fallbackVariants := by
  cases value with
  | object members =>
    simp only [see, offerOf, mediaText]
    cases consider pages walk.platform members <;> rfl
  | string text =>
    simp only [see, offerOf, mediaText]
    cases mediaUrlVariant pages text <;> rfl
  | null => rfl
  | bool value => rfl
  | number value => rfl
  | array items => rfl

theorem see_presentations (collector : Collector pages.crate) (value : Json) :
    (walk.see collector value).presentations =
      match walk.offerOf value with
      | none => collector.presentations
      | some (key, offer) => Collector.entry key (·.add offer) collector.presentations := by
  unfold see
  cases walk.offerOf value with
  | some found => rfl
  | none =>
    cases (mediaText value : Option (MediaVariant pages.crate)) with
    | none => rfl
    | some text =>
      dsimp only
      unfold Collector.addFallback
      split <;> rfl

theorem offers_snoc_none (same : walk.offerOf value = none) (key : Text) :
    walk.offers key (values ++ [value]) = walk.offers key values := by
  rw [offers_snoc, same]
  exact List.append_nil _

theorem offers_snoc_self {offer : Offer pages.crate}
    (found : walk.offerOf value = some (key, offer)) :
    walk.offers key (values ++ [value]) = walk.offers key values ++ [offer] := by
  rw [offers_snoc, found, Option.bind_some, if_pos rfl]
  rfl

theorem offers_snoc_other {other : Text} {offer : Offer pages.crate}
    (found : walk.offerOf value = some (key, offer)) (differs : other ≠ key) :
    walk.offers other (values ++ [value]) = walk.offers other values := by
  rw [offers_snoc, found, Option.bind_some, if_neg (Ne.symm differs)]
  exact List.append_nil _

theorem builder_some (key : Text) : walk.builder values (some key) =
    (walk.offers key values).foldl PresentationBuilder.add .empty := rfl

/-- One more value seen. -/
theorem Gathers.see (gathers : Gathers walk values collector) (value : Json) :
    Gathers walk (values ++ [value]) (walk.see collector value) := by
  have texts : (walk.see collector value).fallbackVariants =
      (variantGathering pages.crate).all ((values ++ [value]).filterMap mediaText) := by
    rw [see_texts, List.filterMap_append]
    cases found : (mediaText value : Option (MediaVariant pages.crate)) with
    | none =>
      rw [List.filterMap_cons_none found, List.filterMap_nil, List.append_nil]
      exact gathers.texts
    | some text =>
      rw [List.filterMap_cons_some found, List.filterMap_nil]
      apply fallback_snoc _ gathers.texts
      intro variant member
      rcases List.mem_append.mp member with before | last
      · obtain ⟨_, _, spelled⟩ := List.mem_filterMap.mp before
        exact mediaText_bare spelled
      · rw [List.mem_singleton.mp last]
        exact mediaText_bare found
  cases offered : walk.offerOf value with
  | none =>
    refine ⟨?_, ?_, texts⟩
    · rw [see_presentations, offered]
      intro one member
      rw [builder_some]
      rw [offers_snoc_none offered]
      exact gathers.built one member
    · rw [see_presentations, offered]
      intro key some_
      rw [offers_snoc_none offered] at some_
      exact gathers.found key some_
  | some found =>
    obtain ⟨key, offer⟩ := found
    refine ⟨?_, ?_, texts⟩
    · rw [see_presentations, offered]
      intro one member
      rw [builder_some]
      rcases mem_entry.mp member with ⟨before, differs⟩ | ⟨same, before, inside, now⟩ | ⟨absent, new⟩
      · rw [offers_snoc_other offered differs]
        exact gathers.built one before
      · obtain ⟨_, built⟩ := gathers.built _ inside
        dsimp only at built
        rw [same, offers_snoc_self offered, List.foldl_append]
        refine ⟨List.append_ne_nil_of_right_ne_nil _ (List.cons_ne_nil _ _), ?_⟩
        rw [now, built]
        rfl
      · have fresh : walk.offers key values = [] := by
          by_contra some_
          obtain ⟨builder, inside⟩ := gathers.found key some_
          exact absent _ inside rfl
        rw [new]
        rw [offers_snoc_self offered, fresh]
        exact ⟨List.cons_ne_nil _ _, rfl⟩
    · rw [see_presentations, offered]
      intro other some_
      by_cases same : other = key
      · by_cases present : ∀ one ∈ collector.presentations, one.1 ≠ key
        · exact ⟨_, mem_entry.mpr (.inr (.inr ⟨present, by rw [same]⟩))⟩
        · obtain ⟨one, inside, keyed⟩ : ∃ one ∈ collector.presentations, one.1 = key := by
            by_contra none_
            exact present fun one inside keyed => none_ ⟨one, inside, keyed⟩
          refine ⟨one.2.add offer, mem_entry.mpr (.inr (.inl ⟨same, one.2, ?_, rfl⟩))⟩
          rw [← keyed]
          exact inside
      · rw [offers_snoc_other offered same] at some_
        obtain ⟨builder, inside⟩ := gathers.found other some_
        exact ⟨builder, mem_entry.mpr (.inl ⟨inside, same⟩)⟩

theorem gathers_foldl (walk : Walk pages) (values : List Json) :
    Gathers walk values (values.foldl walk.see .empty) := by
  induction values using List.reverseRecOn with
  | nil => exact ⟨(fun _ member => nomatch member), fun _ some_ => absurd rfl some_, rfl⟩
  | append_singleton values value ih =>
    rw [List.foldl_append]
    exact ih.see value

theorem gathers (walk : Walk pages) (document : Json) : Gathers walk (walk.traversed document)
    (walk.visit MAX_NODES [(document, 0)] .empty) := by
  rw [visit_eq]
  exact gathers_foldl walk _

end Walk

/-! ## A presentation -/

namespace PresentationBuilder

variable {urls : UrlCrate}

theorem foldl_addVariant (variants : List (MediaVariant urls)) (builder : PresentationBuilder urls) :
    variants.foldl addVariant builder =
      { builder with variants := variants.foldl (variantGathering urls).put builder.variants } := by
  induction variants generalizing builder with
  | nil => rfl
  | cons variant variants ih => rw [List.foldl_cons, ih, List.foldl_cons, addVariant]

theorem foldl_add (offers : List (Offer urls)) (builder : PresentationBuilder urls) :
    offers.foldl add builder =
      { variants := (offers.flatMap (·.variants)).foldl (variantGathering urls).put builder.variants
        manifest := builder.manifest.or (offers.findSome? (·.manifest))
        title := builder.title.or (offers.findSome? (·.title)) } := by
  induction offers generalizing builder with
  | nil =>
    rw [List.foldl_nil, List.findSome?_nil, List.findSome?_nil, Option.or_none, Option.or_none]
    rfl
  | cons offer offers ih =>
    rw [List.foldl_cons, ih, add, foldl_addVariant, List.flatMap_cons, List.foldl_append]
    congr 1
    · dsimp only
      rw [List.findSome?_cons, Option.or_assoc]
      cases offer.manifest <;> rfl
    · dsimp only
      rw [List.findSome?_cons, Option.or_assoc]
      cases offer.title <;> rfl

end PresentationBuilder

namespace Walk

variable {pages : PageUrls} {walk : Walk pages} {values : List Json}

theorem builder_variants (values : List Json) (key : Option Text) :
    (walk.builder values key).variants =
      (variantGathering pages.crate).all (walk.offered values key) := by
  cases key with
  | some key =>
    rw [builder_some, PresentationBuilder.foldl_add]
    rfl
  | none =>
    rw [builder, PresentationBuilder.foldl_addVariant]
    rfl

theorem builder_manifest (values : List Json) (key : Option Text) :
    (walk.builder values key).manifest = walk.manifest values key := by
  cases key with
  | some key =>
    rw [builder_some, PresentationBuilder.foldl_add]
    rfl
  | none =>
    rw [builder, PresentationBuilder.foldl_addVariant]
    rfl

/-- Whether there is a presentation of a key. -/
def Found (walk : Walk pages) (values : List Json) : Option Text → Prop
  | some key => walk.offers key values ≠ []
  | none => (∀ value ∈ values, walk.offerOf value = none) ∧ walk.offered values none ≠ []

theorem offers_nil_iff : (∀ key, walk.offers key values = []) ↔
    ∀ value ∈ values, walk.offerOf value = none := by
  constructor
  · intro none_ value member
    cases offered : walk.offerOf value with
    | none => rfl
    | some found =>
      have inside : found.2 ∈ walk.offers found.1 values := by
        apply List.mem_filterMap.mpr
        refine ⟨value, member, ?_⟩
        rw [offered, Option.bind_some, if_pos rfl]
      rw [none_] at inside
      cases inside
  · intro none_ key
    apply List.filterMap_eq_nil_iff.mpr
    intro value member
    rw [none_ value member]
    rfl

theorem Gathers.presentations_nil {collector : Collector pages.crate}
    (gathers : Gathers walk values collector) :
    collector.presentations = [] ↔ ∀ value ∈ values, walk.offerOf value = none := by
  rw [← offers_nil_iff]
  constructor
  · intro empty key
    by_contra some_
    obtain ⟨builder, member⟩ := gathers.found key some_
    rw [empty] at member
    cases member
  · intro none_
    apply List.eq_nil_iff_forall_not_mem.mpr
    intro one member
    exact (gathers.built one member).1 (none_ one.1)

end Walk

namespace PresentationBuilder

variable {urls : UrlCrate} {builder : PresentationBuilder urls}

theorem finish_isSome (some_ : builder.variants ≠ [] ∨ builder.manifest ≠ none) :
    ∃ presentation, builder.finish = some presentation := by
  unfold finish
  cases manifest : builder.manifest with
  | some manifest => exact ⟨_, rfl⟩
  | none =>
    have nonempty := some_.resolve_right fun other => other manifest
    cases sorted : builder.variants.insertionSort Precedes with
    | nil =>
      have lengths := List.length_insertionSort Precedes builder.variants
      rw [sorted, List.length_nil, eq_comm, List.length_eq_zero_iff] at lengths
      exact absurd lengths nonempty
    | cons best rest => exact ⟨_, rfl⟩

end PresentationBuilder

namespace Walk

variable {pages : PageUrls} {walk : Walk pages} {values : List Json}
variable {key : Option Text}

/-- An object with an offer has something to offer. -/
theorem offer_nonempty {value : Json} {found : Text × Offer pages.crate}
    (h : walk.offerOf value = some found) : found.2.variants ≠ [] ∨ found.2.manifest ≠ none := by
  unfold offerOf at h
  split at h
  · rename_i object
    obtain ⟨offer, considered, same⟩ := Option.map_eq_some_iff.mp h
    rw [← same]
    unfold consider at considered
    split at considered
    · unfold considerInstagram at considered
      dsimp only at considered
      split at considered
      · cases considered
      · rename_i some_
        cases considered
        exact .inl some_
    · unfold considerFacebook at considered
      dsimp only at considered
      split at considered
      · cases considered
      · rename_i some_
        cases considered
        exact .inl some_
    · unfold considerYoutube at considered
      obtain ⟨streaming, _, considered⟩ := Option.bind_eq_some_iff.mp considered
      dsimp only at considered
      split at considered
      · cases considered
      · rename_i some_
        cases considered
        exact not_and_or.mp some_
    · unfold considerGeneric at considered
      dsimp only at considered
      split at considered
      · cases considered
      · rename_i some_
        cases considered
        exact .inl some_
  · cases h

theorem builder_finish (found : walk.Found values key) :
    ∃ presentation, (walk.builder values key).finish = some presentation := by
  apply PresentationBuilder.finish_isSome
  rw [builder_variants, builder_manifest]
  have kept : walk.offered values key ≠ [] →
      (variantGathering pages.crate).all (walk.offered values key) ≠ [] :=
    Gathering.all_ne_nil (show 0 < MAX_VARIANTS by decide)
  cases key with
  | none => exact Or.inl (kept found.2)
  | some key =>
    obtain ⟨offer, rest, first⟩ := List.exists_cons_of_ne_nil found
    have member : offer ∈ walk.offers key values := by
      rw [first]
      exact List.mem_cons_self
    obtain ⟨value, _, offered⟩ := List.mem_filterMap.mp member
    obtain ⟨pair, paired, same⟩ := Option.bind_eq_some_iff.mp offered
    split at same
    · cases same
      rcases offer_nonempty paired with variants | manifest
      · apply Or.inl
        apply kept
        intro empty
        exact variants (List.flatMap_eq_nil_iff.mp empty _ member)
      · apply Or.inr
        intro none_
        exact manifest (List.findSome?_eq_none_iff.mp none_ _ member)
    · cases same

variable {presentation : Presentation pages.crate}

theorem finish_variants (finished : (walk.builder values key).finish = some presentation) :
    presentation.variants.Perm ((variantGathering pages.crate).all (walk.offered values key)) := by
  rw [← builder_variants]
  unfold PresentationBuilder.finish at finished
  split at finished
  · cases finished
    rfl
  · obtain ⟨best, _, same⟩ := Option.map_eq_some_iff.mp finished
    rw [← same]
    exact List.perm_insertionSort _ _

/-- A presentation is of its manifest, or of the first of its variants. -/
theorem finish_of (finished : (walk.builder values key).finish = some presentation) :
    ∃ variant, presentation.url = variant.url ∧ presentation.contentType = variant.contentType ∧
      (walk.manifest values key = some variant ∨
        walk.manifest values key = none ∧ variant ∈ presentation.variants) := by
  rw [← builder_manifest]
  unfold PresentationBuilder.finish at finished
  split at finished
  · rename_i manifest found
    cases finished
    exact ⟨manifest, rfl, rfl, Or.inl found⟩
  · rename_i bare
    obtain ⟨best, first, same⟩ := Option.map_eq_some_iff.mp finished
    rw [← same]
    exact ⟨best, rfl, rfl, Or.inr ⟨bare, List.mem_of_head? first⟩⟩

/-! ## What is extracted -/

variable {collector : Collector pages.crate}

theorem builder_texts (gathered : Gathers walk values collector) :
    collector.fallbackVariants.foldl PresentationBuilder.addVariant .empty =
      walk.builder values none := by
  rw [builder, PresentationBuilder.foldl_addVariant, PresentationBuilder.foldl_addVariant,
    gathered.texts]
  congr 1
  exact Gathering.all_of_nodup (Gathering.all_nodup _) (Gathering.all_length _)

theorem mem_keyed (gathered : Gathers walk values collector) :
    presentation ∈ (collector.presentations.filterMap fun one => one.2.finish).insertionSort
        Collector.FirstOf ↔
      ∃ key, walk.Found values (some key) ∧
        (walk.builder values (some key)).finish = some presentation := by
  rw [(List.perm_insertionSort _ _).mem_iff, List.mem_filterMap]
  constructor
  · rintro ⟨one, member, finished⟩
    obtain ⟨some_, built⟩ := gathered.built one member
    rw [built] at finished
    exact ⟨one.1, some_, finished⟩
  · rintro ⟨key, some_, finished⟩
    obtain ⟨builder, member⟩ := gathered.found key some_
    refine ⟨_, member, ?_⟩
    rw [(gathered.built _ member).2]
    exact finished

/-- What is returned for presentations in order. -/
def result (presentations : List (Presentation pages.crate)) :
    Except Refusal (List (Presentation pages.crate)) :=
  if presentations = [] then .error .unsupportedMedia else .ok presentations

/-- The presentations of the keys that were found, or the one of the media texts. -/
theorem finish_eq (walk : Walk pages) (document : Json) :
    ∃ presentations : List (Presentation pages.crate),
      (walk.visit MAX_NODES [(document, 0)] .empty).finish = result presentations ∧
      presentations.length ≤ MAX_PRESENTATIONS ∧
      ∀ presentation, presentation ∈ presentations ↔
        ∃ key, walk.Found (walk.traversed document) key ∧
          (walk.builder (walk.traversed document) key).finish = some presentation := by
  have gathered := walk.gathers document
  have few : (walk.visit MAX_NODES [(document, 0)] .empty).presentations.length ≤
      MAX_PRESENTATIONS := visit_length (Nat.zero_le _)
  generalize walk.visit MAX_NODES [(document, 0)] .empty = collector at gathered few
  have offers := gathered.presentations_nil
  have texts : collector.fallbackVariants = [] ↔ walk.offered (walk.traversed document) none = [] := by
    rw [gathered.texts]
    constructor
    · intro empty
      by_contra some_
      exact Gathering.all_ne_nil (show 0 < MAX_VARIANTS by decide) some_ empty
    · intro empty
      rw [show (walk.traversed document).filterMap mediaText = [] from empty]
      rfl
  unfold Collector.finish
  split
  · rename_i bare
    have found : walk.Found (walk.traversed document) none :=
      ⟨offers.mp bare.1, texts.not.mp bare.2⟩
    obtain ⟨presentation, finished⟩ := builder_finish found
    rw [builder_texts gathered, finished]
    refine ⟨[presentation], rfl, Nat.le_of_ble_eq_true rfl, fun other => ?_⟩
    rw [List.mem_singleton]
    constructor
    · intro same
      rw [same]
      exact ⟨none, found, finished⟩
    · rintro ⟨key, foundKey, finishedKey⟩
      cases key with
      | none =>
        rw [finished] at finishedKey
        exact (Option.some.inj finishedKey).symm
      | some key => exact absurd (offers_nil_iff.mpr found.1 key) foundKey
  · rename_i keyed
    refine ⟨_, rfl, ?_, fun presentation => ?_⟩
    · rw [List.length_insertionSort]
      exact Nat.le_trans (List.length_filterMap_le _ _) few
    · rw [mem_keyed gathered]
      constructor
      · rintro ⟨key, found, finished⟩
        exact ⟨some key, found, finished⟩
      · rintro ⟨key, found, finished⟩
        cases key with
        | some key => exact ⟨key, found, finished⟩
        | none => exact absurd ⟨offers.mpr found.1, texts.not.mpr found.2⟩ keyed

end Walk

section

variable {pages : PageUrls} {pageUrl sourceUrl : Url} {document : Json}

/-- The walk an extraction makes, unless it refuses the source or the page. -/
def Walk.of (pages : PageUrls) (pageUrl sourceUrl : Url) : Option (Walk pages) :=
  if isHttp pages sourceUrl = false then none
  else (Platform.of pages pageUrl).map fun platform => ⟨platform, sourceUrl⟩

theorem extract_of_walk {walk : Walk pages} (h : Walk.of pages pageUrl sourceUrl = some walk) :
    extract pages pageUrl sourceUrl document =
      (walk.visit MAX_NODES [(document, 0)] .empty).finish := by
  unfold Walk.of at h
  unfold extract
  split at h
  · cases h
  · rename_i http
    obtain ⟨platform, found, same⟩ := Option.map_eq_some_iff.mp h
    rw [if_neg http, found, ← same]

theorem extract_of_none (h : Walk.of pages pageUrl sourceUrl = none) :
    ∃ reason, extract pages pageUrl sourceUrl document = .error reason := by
  unfold Walk.of at h
  unfold extract
  split at h
  · rename_i other
    exact ⟨_, if_pos other⟩
  · rename_i http
    rw [if_neg http, Option.map_eq_none_iff.mp h]
    exact ⟨_, rfl⟩

theorem extract_ok {presentations : List (Presentation pages.crate)}
    (h : extract pages pageUrl sourceUrl document = .ok presentations) :
    ∃ walk, Walk.of pages pageUrl sourceUrl = some walk ∧
      presentations.length ≤ MAX_PRESENTATIONS ∧
      ∀ presentation, presentation ∈ presentations ↔
        ∃ key, walk.Found (walk.traversed document) key ∧
          (walk.builder (walk.traversed document) key).finish = some presentation := by
  cases walks : Walk.of pages pageUrl sourceUrl with
  | none =>
    obtain ⟨reason, failed⟩ := @extract_of_none _ _ _ document walks
    rw [failed] at h
    cases h
  | some walk =>
    obtain ⟨found, finished, few, members⟩ := walk.finish_eq document
    rw [extract_of_walk walks, finished, Walk.result] at h
    split at h
    · cases h
    · cases h
      exact ⟨walk, rfl, few, members⟩

end

end Gunda.Capture

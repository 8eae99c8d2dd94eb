import Gunda.Capture.Gathered

/-!
# Reports of a document

What `extract` returns goes through `Report::new`, which has its own test for segments.
The two agree on what an object offers, but for a content type that is cut off; the media
texts of a document are not tested before.
-/
namespace Gunda.Capture

open Gunda.Lib Gunda.Lib.Text
open Gunda.Core (Url)
open Gunda.Gundad (ParsedUrl parseUrl_serialization PageUrls Report rangeQuery classify
  classifyContentType truncate maxContentTypeBytes)

section

variable (pages : PageUrls)

/-- A media resource that is neither a segment nor a fragment. -/
def Resource (url : Url) (contentType : Option Text) : Prop :=
  isHttp pages url = true ∧ isFragment pages url contentType = false

/-- A content type that reads as a segment's where a report cuts it off. -/
def cutToSegment (contentType : Option Text) : Bool :=
  contentType.bind (fun value => classifyContentType (truncate maxContentTypeBytes value)) =
    some .segment

/-- What the walk comes across names media that can be downloaded. -/
def OffersMedia (walk : Walk pages) (document : Json) : Prop :=
  ∃ value ∈ walk.traversed document, walk.offerOf value ≠ none ∨
    ∃ text : MediaVariant pages.crate, Walk.mediaText value = some text ∧ Resource pages text.url.1 none

/-- Every presentation is accepted, and one is reported where there is media. -/
structure Unbroken (sourceText pageText : Text) (sourceUrl pageUrl : Url)
    (pageTitle : Option String) (document : Json) : Prop where
  accepted : ∀ presentations, extract pages pageUrl sourceUrl document = .ok presentations →
    ∀ presentation ∈ presentations, ∃ report,
      Report.fromExtracted pages presentation.toExtracted pageUrl pageTitle = .ok report
  reported : OffersMedia pages ⟨(Platform.of pages pageUrl).getD .generic, sourceUrl⟩ document →
    ∃ presentations reports, extract pages pageUrl sourceUrl document = .ok presentations ∧
      sourceReports pages sourceText pageText pageTitle document = .ok reports ∧ reports ≠ [] ∧
      List.Forall₂ (fun (presentation : Presentation pages.crate) report =>
        report.url = presentation.url ∧
          report.variants = presentation.variants.map (·.toMediaVariant)) presentations reports ∧
      ∀ presentation ∈ presentations,
        Resource pages presentation.url.1 presentation.contentType ∧
          ∀ variant ∈ presentation.variants, Resource pages variant.url.1 variant.contentType

end

variable {pages : PageUrls}

/-! ## The two tests -/

theorem lastExtension_extension {url : Url} {found : Text}
    (h : Gundad.extension pages url = some found) :
    ∃ actual, lastExtension pages url = some actual ∧ found = toAsciiLowercase actual := by
  unfold Gundad.extension at h
  unfold lastExtension
  obtain ⟨segments, path, h⟩ := Option.bind_eq_some_iff.mp h
  obtain ⟨segment, last, h⟩ := Option.bind_eq_some_iff.mp h
  obtain ⟨actual, dotted, h⟩ := Option.bind_eq_some_iff.mp h
  dsimp only at h
  split at h
  · cases h
  · cases h
    refine ⟨actual, ?_, rfl⟩
    rw [path, Option.bind_eq_bind, Option.bind_some, last, Option.bind_eq_bind, Option.bind_some]
    exact dotted

/-- `classify` finds a segment only where a content type is cut off to one. -/
theorem classify_segment_iff {url : Url} {contentType : Option Text}
    (whole : isFragment pages url contentType = false) :
    classify pages url (contentType.map (truncate maxContentTypeBytes)) = .segment ↔
      cutToSegment contentType = true := by
  unfold isFragment at whole
  simp only [Bool.or_eq_false_iff] at whole
  obtain ⟨⟨range, _⟩, named⟩ := whole
  have unnamed : ∀ found, Gundad.extension pages url = some found →
      found ≠ "ts".toList ∧ found ≠ "m4s".toList := by
    intro found extension
    obtain ⟨actual, last, spelled⟩ := lastExtension_extension extension
    rw [last, Option.any_some, Bool.or_eq_false_iff] at named
    unfold eqIgnoreAsciiCase at named
    rw [← spelled] at named
    exact ⟨of_decide_eq_false named.1, of_decide_eq_false named.2⟩
  unfold classify cutToSegment
  have bound : (contentType.map (truncate maxContentTypeBytes)).bind classifyContentType =
      contentType.bind fun value => classifyContentType (truncate maxContentTypeBytes value) :=
    Option.bind_map
  rw [range, if_neg Bool.false_ne_true, bound]
  cases contentType.bind (fun value => classifyContentType (truncate maxContentTypeBytes value)) with
  | some classification => simp
  | none =>
    cases extension : Gundad.extension pages url with
    | none => simp
    | some found =>
      obtain ⟨ts, m4s⟩ := unnamed found extension
      dsimp only
      split
      · simp
      · split
        · simp
        · rw [if_neg (not_or.mpr ⟨ts, m4s⟩)]
          simp

theorem report_new_iff {pageUrl : Url} (reads : pages.crate.parse pageUrl.serialization = some pageUrl)
    (based : pages.cannotBeABase pageUrl = false) {url : ParsedUrl pages.crate}
    {contentType : Option Text} (resource : Resource pages url.1 contentType)
    (pageTitle : Option String) :
    (∃ report, Report.new pages url.1.serialization (contentType.map String.ofList)
        pageUrl.serialization pageTitle = .ok report) ↔ cutToSegment contentType = false := by
  have spelled : ((contentType.map String.ofList).map fun value =>
      String.ofList (truncate maxContentTypeBytes value.toList)).map String.toList =
        contentType.map (truncate maxContentTypeBytes) := by
    cases contentType <;> simp
  have http : ¬ (pages.crate.scheme url.1 ≠ "http".toList ∧ pages.crate.scheme url.1 ≠ "https".toList) := by
    have scheme := resource.1
    unfold isHttp at scheme
    rw [Bool.or_eq_true, decide_eq_true_eq, decide_eq_true_eq] at scheme
    rintro ⟨plain, secure⟩
    exact scheme.elim plain secure
  have segment := classify_segment_iff resource.2
  unfold Report.new
  rw [parseUrl_serialization]
  dsimp only
  rw [if_neg http, reads]
  dsimp only
  rw [based, if_neg Bool.false_ne_true, spelled]
  cases classified : classify pages url.1 (contentType.map (truncate maxContentTypeBytes)) with
  | segment =>
    rw [segment.mp classified]
    constructor
    · rintro ⟨report, refused⟩
      cases refused
    · exact fun other => nomatch other
  | downloadable kind =>
    rw [classified] at segment
    constructor
    · intro _
      apply Bool.eq_false_iff.mpr
      intro cut
      exact nomatch segment.mpr cut
    · exact fun _ => ⟨_, rfl⟩

variable {presentation : Presentation pages.crate}

/-- A presentation of a resource is accepted but for such a content type. -/
theorem fromExtracted_iff {pageUrl : Url}
    (reads : pages.crate.parse pageUrl.serialization = some pageUrl)
    (based : pages.cannotBeABase pageUrl = false)
    (resource : Resource pages presentation.url.1 presentation.contentType)
    (pageTitle : Option String) :
    (∃ report, Report.fromExtracted pages presentation.toExtracted pageUrl pageTitle = .ok report) ↔
      cutToSegment presentation.contentType = false := by
  rw [← report_new_iff reads based resource
    ((presentation.title.map String.ofList).or pageTitle)]
  unfold Report.fromExtracted
  constructor
  · rintro ⟨report, made⟩
    obtain ⟨before, new, _⟩ := map_ok made
    exact ⟨before, new⟩
  · rintro ⟨before, new⟩
    rw [show Report.new pages presentation.toExtracted.url.1.serialization
      presentation.toExtracted.contentType pageUrl.serialization
        (presentation.toExtracted.title.or pageTitle) = .ok before from new]
    exact ⟨_, rfl⟩

variable {pageTitle : Option String}

theorem fromExtracted_fields {pageUrl : Url} {report : Report pages.crate}
    (made : Report.fromExtracted pages presentation.toExtracted pageUrl pageTitle = .ok report) :
    report.url = presentation.url ∧
      report.variants = presentation.variants.map (·.toMediaVariant) := by
  obtain ⟨before, new, same⟩ := map_ok made
  rw [← same]
  refine ⟨?_, rfl⟩
  unfold Report.new at new
  rw [show presentation.toExtracted.url = presentation.url from rfl, parseUrl_serialization] at new
  dsimp only at new
  split at new
  · cases new
  · split at new
    · cases new
    · split at new
      · cases new
      · split at new
        · cases new
        · cases new
          rfl

/-! ## What is found is a resource -/

variable {walk : Walk pages} {values : List Json}

def MediaVariant.Sound (variant : MediaVariant pages.crate) : Prop :=
  Resource pages variant.url.1 variant.contentType

variable {variant : MediaVariant pages.crate}

theorem resource_mediaVariant {url : Option Json} {contentType : Option Text}
    {metadata : Json.Members} (h : mediaVariant pages url contentType metadata = some variant) :
    variant.Sound := by
  unfold mediaVariant at h
  obtain ⟨parsed, accepted, h⟩ := Option.bind_eq_some_iff.mp h
  obtain ⟨raw, _, accepted⟩ := Option.bind_eq_some_iff.mp accepted
  dsimp only at h
  split at h
  · cases h
  · rename_i whole
    cases h
    refine ⟨?_, Bool.eq_false_iff.mpr whole⟩
    unfold httpUrl at accepted
    split at accepted
    · cases accepted
    · exact (Option.filter_eq_some_iff.mp accepted).2

theorem resource_labeledVariant {url : Option Json} {contentType label : Text}
    {metadata : Json.Members} {rank : Nat}
    (h : labeledVariant pages url contentType metadata label rank = some variant) :
    variant.Sound := by
  obtain ⟨before, found, same⟩ := Option.map_eq_some_iff.mp h
  have sound := resource_mediaVariant found
  rw [← same]
  exact sound

/-- Every variant an object offers is a resource, and so is its manifest. -/
structure Offer.Sound (offer : Offer pages.crate) : Prop where
  variants : ∀ variant ∈ offer.variants, variant.Sound
  manifest : ∀ manifest ∈ offer.manifest, manifest.Sound

theorem forall_filterMap {α : Type} {f : α → Option (MediaVariant pages.crate)} (list : List α)
    (sound : ∀ {a variant}, f a = some variant → Resource pages variant.url.1 variant.contentType) :
    ∀ variant ∈ list.filterMap f, variant.Sound := by
  intro variant member
  obtain ⟨a, _, found⟩ := List.mem_filterMap.mp member
  exact sound found

theorem forall_toList {found : Option (MediaVariant pages.crate)}
    (sound : ∀ variant ∈ found, variant.Sound) : ∀ variant ∈ found.toList, variant.Sound :=
  fun variant member => sound variant (Option.mem_toList.mp member)

theorem resource_genericUrl {object : Json.Members} (h : genericUrl pages object = some variant) :
    variant.Sound := by
  unfold genericUrl at h
  obtain ⟨url, _, h⟩ := Option.bind_eq_some_iff.mp h
  dsimp only at h
  split at h
  · exact resource_mediaVariant h
  · cases h

theorem sound_consider {platform : Platform} {object : Json.Members} {offer : Offer pages.crate}
    (h : consider pages platform object = some offer) : offer.Sound := by
  unfold consider at h
  cases platform with
  | instagram =>
    simp only [considerInstagram] at h
    split at h
    · cases h
    · cases h
      refine ⟨?_, fun _ none_ => nomatch none_⟩
      refine List.forall_mem_append.mpr ⟨List.forall_mem_append.mpr ⟨?_, ?_⟩, ?_⟩
      · exact forall_filterMap _ resource_mediaVariant
      · exact forall_filterMap _ resource_mediaVariant
      · exact forall_toList fun _ => resource_mediaVariant
  | facebook =>
    simp only [considerFacebook] at h
    split at h
    · cases h
    · cases h
      refine ⟨?_, fun _ none_ => nomatch none_⟩
      refine List.forall_mem_append.mpr ⟨?_, ?_⟩
      · exact forall_filterMap _ resource_labeledVariant
      · exact forall_filterMap _ resource_mediaVariant
  | youTube =>
    simp only [considerYoutube] at h
    obtain ⟨streaming, _, h⟩ := Option.bind_eq_some_iff.mp h
    split at h
    · cases h
    · cases h
      refine ⟨?_, fun _ => resource_mediaVariant⟩
      intro variant member
      obtain ⟨name, _, inside⟩ := List.mem_flatMap.mp member
      exact forall_filterMap _ resource_mediaVariant variant inside
  | generic =>
    simp only [considerGeneric] at h
    split at h
    · cases h
    · cases h
      refine ⟨?_, fun _ none_ => nomatch none_⟩
      refine List.forall_mem_append.mpr ⟨List.forall_mem_append.mpr ⟨?_, ?_⟩, ?_⟩
      · exact forall_filterMap _ resource_mediaVariant
      · intro variant member
        obtain ⟨name, _, inside⟩ := List.mem_flatMap.mp member
        exact forall_filterMap _ resource_mediaVariant variant inside
      · exact forall_toList fun _ => resource_genericUrl

theorem sound_offers {key : Text} {offer : Offer pages.crate}
    (member : offer ∈ walk.offers key values) : offer.Sound := by
  obtain ⟨value, _, found⟩ := List.mem_filterMap.mp member
  obtain ⟨pair, paired, same⟩ := Option.bind_eq_some_iff.mp found
  split at same
  · cases same
    unfold Walk.offerOf at paired
    split at paired
    · obtain ⟨offer, considered, shape⟩ := Option.map_eq_some_iff.mp paired
      rw [← shape]
      exact sound_consider considered
    · cases paired
  · cases same

theorem resource_offered {key : Text} :
    ∀ variant ∈ walk.offered values (some key), variant.Sound := by
  intro variant member
  obtain ⟨offer, offered, inside⟩ := List.mem_flatMap.mp member
  exact (sound_offers offered).variants variant inside

theorem resource_manifest {key : Text} :
    ∀ manifest ∈ walk.manifest values (some key), manifest.Sound := by
  intro manifest member
  obtain ⟨offer, offered, inside⟩ := List.exists_of_findSome?_eq_some member
  exact (sound_offers offered).manifest manifest inside

/-- Merging keeps one of two content types. -/
theorem resource_enrich (a b : MediaVariant pages.crate) (same : a.url = b.url) (sound : a.Sound)
    (other : b.Sound) : (enrich a b).Sound := by
  unfold MediaVariant.Sound at *
  cases given : b.contentType with
  | none =>
    rw [show (enrich a b).contentType = a.contentType by simp [enrich, given]]
    exact sound
  | some contentType =>
    rw [show (enrich a b).contentType = b.contentType by simp [enrich, given]]
    rw [show (enrich a b).url = b.url from same]
    exact other

/-! ## Media texts -/

theorem media_not_fragment {actual : Text}
    (media : mediaExtensions.any (eqIgnoreAsciiCase actual) = true) :
    eqIgnoreAsciiCase actual "ts".toList = false ∧ eqIgnoreAsciiCase actual "m4s".toList = false := by
  have apart : ∀ extension ∈ mediaExtensions, toAsciiLowercase extension ≠ "ts".toList ∧
      toAsciiLowercase extension ≠ "m4s".toList := by decide +kernel
  obtain ⟨extension, listed, same⟩ := List.any_eq_true.mp media
  have same : toAsciiLowercase actual = toAsciiLowercase extension := of_decide_eq_true same
  obtain ⟨ts, m4s⟩ := apart extension listed
  rw [← same] at ts m4s
  exact ⟨decide_eq_false ts, decide_eq_false m4s⟩

/-- A media text is a resource but for its query. -/
theorem resource_mediaText {value : Json} {text : MediaVariant pages.crate}
    (h : Walk.mediaText value = some text) :
    text.Sound ↔ rangeQuery pages text.url.1 = false := by
  unfold Walk.mediaText at h
  split at h
  · obtain ⟨url, accepted, same⟩ := Option.map_eq_some_iff.mp h
    obtain ⟨parsed, named⟩ := Option.filter_eq_some_iff.mp accepted
    have http : isHttp pages url.1 = true := by
      unfold httpUrl at parsed
      split at parsed
      · cases parsed
      · exact (Option.filter_eq_some_iff.mp parsed).2
    rw [← same]
    have fragment : isFragment pages url.1 none = rangeQuery pages url.1 := by
      unfold mediaPath at named
      unfold isFragment
      cases last : lastExtension pages url.1 with
      | none =>
        rw [last] at named
        cases named
      | some actual =>
        rw [last, Option.any_some] at named
        obtain ⟨ts, m4s⟩ := media_not_fragment named
        rw [Option.any_some, ts, m4s, Option.any_none, Bool.or_false, Bool.or_false, Bool.or_false]
    change isHttp pages url.1 = true ∧ isFragment pages url.1 none = false ↔
      rangeQuery pages url.1 = false
    rw [fragment]
    exact and_iff_right http
  · cases h

/-- No media text that is kept for a document without other media is a range. -/
def Walk.TextsWhole (walk : Walk pages) (values : List Json) : Prop :=
  (∀ value ∈ values, walk.offerOf value = none) →
    ∀ before text after, walk.offered values none = before ++ text :: after →
      (before.map fun one => one.url).dedup.length < MAX_VARIANTS →
        rangeQuery pages text.url.1 = false

theorem mem_texts {text : MediaVariant pages.crate} (member : text ∈ walk.offered values none) :
    ∃ value ∈ values, Walk.mediaText value = some text := List.mem_filterMap.mp member

/-- The media texts that are kept, by where they stand. -/
theorem kept_texts {kept : MediaVariant pages.crate}
    (member : kept ∈ (variantGathering pages.crate).all (walk.offered values none)) :
    kept.contentType = none ∧ ∃ before text after,
      walk.offered values none = before ++ text :: after ∧ text.url = kept.url ∧
        (before.map fun one => one.url).dedup.length < MAX_VARIANTS := by
  have bare : ∀ variant ∈ walk.offered values none, ∃ url, variant = bareVariant url := by
    intro variant inside
    obtain ⟨value, _, spelled⟩ := mem_texts inside
    exact Walk.mediaText_bare spelled
  obtain ⟨url, same⟩ := Walk.all_bare bare kept member
  refine ⟨by rw [same]; rfl, ?_⟩
  exact Gathering.mem_keys_all.mp (List.mem_map_of_mem (f := (variantGathering pages.crate).key) member)

theorem sound_texts (none_ : ∀ value ∈ values, walk.offerOf value = none)
    (whole : walk.TextsWhole values) :
    ∀ kept ∈ (variantGathering pages.crate).all (walk.offered values none), kept.Sound := by
  intro kept member
  obtain ⟨contentType, before, text, after, split, same, room⟩ := kept_texts member
  have inside : text ∈ walk.offered values none := by
    rw [split]
    exact List.mem_append_right _ List.mem_cons_self
  obtain ⟨value, _, spelled⟩ := mem_texts inside
  have sound := (resource_mediaText spelled).mpr (whole none_ before text after split room)
  obtain ⟨url, bare⟩ := Walk.mediaText_bare spelled
  have untyped : text.contentType = none := by
    rw [bare]
    rfl
  unfold MediaVariant.Sound at *
  rw [contentType, ← same, ← untyped]
  exact sound

/-! ## Presentations -/

/-- The content type a presentation takes from its manifest or its first variant. -/
def Walk.contentType (walk : Walk pages) (values : List Json) (key : Option Text) : Option Text :=
  match walk.manifest values key with
  | some manifest => manifest.contentType
  | none => (((variantGathering pages.crate).all (walk.offered values key)).insertionSort
      Precedes).head?.bind (·.contentType)

variable {key : Option Text}

theorem finish_contentType (finished : (walk.builder values key).finish = some presentation) :
    presentation.contentType = walk.contentType values key := by
  unfold Walk.contentType
  rw [← Walk.builder_manifest, ← Walk.builder_variants]
  unfold PresentationBuilder.finish at finished
  split at finished
  · rename_i manifest found
    cases finished
    rw [found]
  · rename_i bare
    obtain ⟨best, first, same⟩ := Option.map_eq_some_iff.mp finished
    rw [bare, ← same]
    rw [first]
    rfl

/-- A presentation is of resources, and so are its variants. -/
theorem sound_finish (found : walk.Found values key) (whole : walk.TextsWhole values)
    (finished : (walk.builder values key).finish = some presentation) :
    Resource pages presentation.url.1 presentation.contentType ∧
      ∀ variant ∈ presentation.variants, variant.Sound := by
  have kept : ∀ variant ∈ (variantGathering pages.crate).all (walk.offered values key),
      variant.Sound := by
    cases key with
    | none => exact sound_texts found.1 whole
    | some key => exact Gathering.forall_all resource_enrich resource_offered
  have variants : ∀ variant ∈ presentation.variants, variant.Sound := by
    intro variant member
    exact kept variant ((Walk.finish_variants finished).mem_iff.mp member)
  refine ⟨?_, variants⟩
  obtain ⟨variant, url, contentType, manifest | ⟨_, member⟩⟩ := Walk.finish_of finished
  · rw [url, contentType]
    cases key with
    | none => cases manifest
    | some key => exact resource_manifest variant manifest
  · rw [url, contentType]
    exact variants variant member

/-! ## Every document -/

section

variable {sourceUrl pageUrl : Url} {document : Json}

/-- The kind of document whose presentations are all accepted: the source and the page are
those of a walk or there is no media, a document without other media names no range in its
texts, and no content type is cut off to a segment's. -/
def Usable (pages : PageUrls) (pageUrl sourceUrl : Url) (document : Json) : Prop :=
  match Walk.of pages pageUrl sourceUrl with
  | none => ¬ OffersMedia pages ⟨(Platform.of pages pageUrl).getD .generic, sourceUrl⟩ document
  | some walk => walk.TextsWhole (walk.traversed document) ∧
      ∀ key, walk.Found (walk.traversed document) key →
        cutToSegment (walk.contentType (walk.traversed document) key) = false

section

variable (walks : Walk.of pages pageUrl sourceUrl = some walk)
include walks

theorem extract_found (found : walk.Found (walk.traversed document) key) :
    ∃ presentations presentation,
      extract pages pageUrl sourceUrl document = .ok presentations ∧
      presentation ∈ presentations ∧
      (walk.builder (walk.traversed document) key).finish = some presentation := by
  obtain ⟨presentation, finished⟩ := Walk.builder_finish found
  obtain ⟨presentations, returned, _, members⟩ := walk.finish_eq document
  have member := (members presentation).mpr ⟨key, found, finished⟩
  refine ⟨presentations, presentation, ?_, member, finished⟩
  rw [extract_of_walk walks, returned, Walk.result, if_neg (List.ne_nil_of_mem member)]

theorem walk_of :
    walk = ⟨(Platform.of pages pageUrl).getD .generic, sourceUrl⟩ ∧
      pages.crate.hostStr pageUrl ≠ none := by
  unfold Walk.of at walks
  split at walks
  · cases walks
  · obtain ⟨platform, found, same⟩ := Option.map_eq_some_iff.mp walks
    refine ⟨by rw [found, ← same]; rfl, ?_⟩
    intro none_
    unfold Platform.of at found
    rw [none_] at found
    cases found

omit walks in
theorem found_of_offers (offers : OffersMedia pages walk document) :
    ∃ key, walk.Found (walk.traversed document) key := by
  by_cases none_ : ∀ value ∈ walk.traversed document, walk.offerOf value = none
  · obtain ⟨value, member, some_ | ⟨text, spelled, _⟩⟩ := offers
    · exact absurd (none_ value member) some_
    · have inside : text ∈ walk.offered (walk.traversed document) none :=
        List.mem_filterMap.mpr ⟨value, member, spelled⟩
      exact ⟨none, none_, List.ne_nil_of_mem inside⟩
  · by_contra nothing
    apply none_
    apply Walk.offers_nil_iff.mp
    intro key
    by_contra some_
    exact nothing ⟨some key, some_⟩

omit walks in
theorem range_refused {report : Report pages.crate}
    (made : Report.fromExtracted pages presentation.toExtracted pageUrl pageTitle = .ok report) :
    rangeQuery pages presentation.url.1 = false := by
  obtain ⟨before, new, _⟩ := map_ok made
  by_contra range
  have range := Bool.of_not_eq_false range
  unfold Report.new at new
  rw [show presentation.toExtracted.url = presentation.url from rfl, parseUrl_serialization] at new
  dsimp only at new
  split at new
  · cases new
  · split at new
    · cases new
    · split at new
      · cases new
      · unfold classify at new
        rw [if_pos range] at new
        cases new

omit walks in
theorem mapM_of_forall {α β ε : Type} {f : α → Except ε β} {list : List α}
    (each : ∀ a ∈ list, ∃ b, f a = .ok b) : ∃ results, list.mapM f = .ok results := by
  induction list with
  | nil => exact ⟨[], rfl⟩
  | cons first rest ih =>
    obtain ⟨b, made⟩ := each first List.mem_cons_self
    obtain ⟨results, others⟩ := ih fun a member => each a (List.mem_cons_of_mem _ member)
    refine ⟨b :: results, ?_⟩
    rw [List.mapM_cons, made, ok_bind, others, ok_bind]
    rfl

/-- Where a kept text is a range, what is extracted of the texts is not all accepted. -/
theorem texts_whole {sourceText pageText : Text}
    (unbroken : Unbroken pages sourceText pageText sourceUrl pageUrl pageTitle document) :
    walk.TextsWhole (walk.traversed document) := by
  intro none_ before text after split room
  by_contra range
  have inside : text ∈ walk.offered (walk.traversed document) none := by
    rw [split]
    exact List.mem_append_right _ List.mem_cons_self
  obtain ⟨presentations, presentation, extracted, member, finished⟩ :=
    extract_found walks (show walk.Found _ none from ⟨none_, List.ne_nil_of_mem inside⟩)
  have variants := Walk.finish_variants finished
  have keyed : text.url ∈ ((variantGathering pages.crate).all
      (walk.offered (walk.traversed document) none)).map (variantGathering pages.crate).key :=
    Gathering.mem_keys_all.mpr ⟨before, text, after, split, rfl, room⟩
  obtain ⟨kept, keptMember, keptUrl⟩ := List.mem_map.mp keyed
  have keptUrl : kept.url = text.url := keptUrl
  -- the presentation is accepted, so that its first text is no range
  obtain ⟨report, made⟩ := unbroken.accepted presentations extracted presentation member
  have whole := range_refused made
  obtain ⟨best, url, _, manifest | ⟨_, first⟩⟩ := Walk.finish_of finished
  · cases manifest
  · obtain ⟨_, _, other, _, shape, same, _⟩ := kept_texts (variants.mem_iff.mp first)
    have found : other ∈ walk.offered (walk.traversed document) none := by
      rw [shape]
      exact List.mem_append_right _ List.mem_cons_self
    obtain ⟨value, seen, spelled⟩ := mem_texts found
    have untyped : other.contentType = none := by
      obtain ⟨_, bare⟩ := Walk.mediaText_bare spelled
      rw [bare]
      rfl
    have sound : other.Sound := by
      apply (resource_mediaText spelled).mpr
      rw [same, ← url]
      exact whole
    unfold MediaVariant.Sound at sound
    rw [untyped] at sound
    have offers : OffersMedia pages walk document :=
      ⟨value, seen, Or.inr ⟨other, spelled, sound⟩⟩
    rw [(walk_of walks).1] at offers
    obtain ⟨again, _, extracted', _, _, _, resources⟩ := unbroken.reported offers
    rw [extracted] at extracted'
    cases extracted'
    have fragment := ((resources presentation member).2 kept (variants.mem_iff.mpr keptMember)).2
    unfold isFragment at fragment
    rw [keptUrl, Bool.of_not_eq_false range] at fragment
    cases fragment

end

theorem usable_of_unbroken {sourceText pageText : Text}
    (reads : pages.crate.parse pageUrl.serialization = some pageUrl)
    (based : pages.crate.hostStr pageUrl ≠ none → pages.cannotBeABase pageUrl = false)
    (unbroken : Unbroken pages sourceText pageText sourceUrl pageUrl pageTitle document) :
    Usable pages pageUrl sourceUrl document := by
  unfold Usable
  cases walks : Walk.of pages pageUrl sourceUrl with
  | none =>
    intro offers
    obtain ⟨presentations, _, extracted, _⟩ := unbroken.reported offers
    obtain ⟨reason, refused⟩ := @extract_of_none _ _ _ document walks
    rw [extracted] at refused
    cases refused
  | some walk =>
    have whole := texts_whole walks unbroken
    refine ⟨whole, ?_⟩
    intro key found
    obtain ⟨presentations, presentation, extracted, member, finished⟩ := extract_found walks found
    rw [← finish_contentType finished]
    exact (fromExtracted_iff reads (based (walk_of walks).2)
      (sound_finish found whole finished).1 pageTitle).mp
        (unbroken.accepted presentations extracted presentation member)

theorem unbroken_of_usable {sourceText pageText : Text} (pageTitle : Option String)
    (source : pages.crate.parse sourceText = some sourceUrl)
    (page : pages.crate.parse pageText = some pageUrl)
    (based : pages.crate.hostStr pageUrl ≠ none → pages.cannotBeABase pageUrl = false)
    (usable : Usable pages pageUrl sourceUrl document) :
    Unbroken pages sourceText pageText sourceUrl pageUrl pageTitle document := by
  have reads := pages.crate.reads_back page
  unfold Usable at usable
  cases walks : Walk.of pages pageUrl sourceUrl with
  | none =>
    rw [walks] at usable
    refine ⟨?_, fun offers => absurd offers usable⟩
    intro presentations extracted
    obtain ⟨reason, refused⟩ := @extract_of_none _ _ _ document walks
    rw [extracted] at refused
    cases refused
  | some walk =>
    rw [walks] at usable
    obtain ⟨whole, typed⟩ := usable
    obtain ⟨same, hosted⟩ := walk_of walks
    have sound : ∀ presentations, extract pages pageUrl sourceUrl document = .ok presentations →
        ∀ presentation ∈ presentations, (∃ report,
          Report.fromExtracted pages presentation.toExtracted pageUrl pageTitle = .ok report) ∧
            Resource pages presentation.url.1 presentation.contentType ∧
              ∀ variant ∈ presentation.variants, variant.Sound := by
      intro presentations extracted presentation member
      obtain ⟨walk', walks', _, members⟩ := extract_ok extracted
      rw [walks] at walks'
      cases walks'
      obtain ⟨key, found, finished⟩ := (members presentation).mp member
      have resources := sound_finish found whole finished
      refine ⟨(fromExtracted_iff reads (based hosted) resources.1 pageTitle).mpr ?_, resources⟩
      rw [finish_contentType finished]
      exact typed key found
    refine ⟨fun presentations extracted one member => (sound presentations extracted one member).1, ?_⟩
    intro offers
    rw [← same] at offers
    obtain ⟨key, found⟩ := found_of_offers offers
    obtain ⟨presentations, presentation, extracted, member, _⟩ := extract_found walks found
    have sound := sound presentations extracted
    obtain ⟨reports, made⟩ := mapM_of_forall fun one member => (sound one member).1
    have pairs := mapM_ok made
    refine ⟨presentations, reports, extracted, ?_, ?_, ?_, fun one member => (sound one member).2⟩
    · unfold sourceReports
      rw [source]
      rw [page]
      dsimp only
      rw [based hosted, if_neg Bool.false_ne_true, extracted, ok_bind]
      exact made
    · intro none_
      rw [none_] at pairs
      cases pairs
      cases member
    · exact pairs.imp fun _ _ one => fromExtracted_fields one

/-- A source is reported without fail where, and only where, it is usable. -/
theorem unbroken_iff {sourceText pageText : Text} (pageTitle : Option String)
    (based : ∀ url, pages.crate.hostStr url ≠ none → pages.cannotBeABase url = false)
    (source : pages.crate.parse sourceText = some sourceUrl)
    (page : pages.crate.parse pageText = some pageUrl) :
    Unbroken pages sourceText pageText sourceUrl pageUrl pageTitle document ↔
      Usable pages pageUrl sourceUrl document :=
  ⟨usable_of_unbroken (pages.crate.reads_back page) (based pageUrl),
    unbroken_of_usable pageTitle source page (based pageUrl)⟩

end

/-! ## Two texts of a page -/

/-- URLs of one host, with a query. -/
def queryPages : PageUrls :=
  { Gundad.cdnPages with
    queryPairs := fun url => match splitOnce '?' url.serialization with
      | none => []
      | some (_, query) => (splitAll '&' query).map fun pair => (splitOnce '=' pair).getD (pair, [])
    pathSegments := fun url =>
      some (splitAll '/' ((url.serialization.takeWhile (· ≠ '?')).drop 20)) }

def showPage : Url := ⟨"https://cdn.example/show".toList⟩

def showWalk : Walk queryPages := ⟨.generic, showPage⟩

def filmUrl : ParsedUrl queryPages.crate := ⟨⟨"https://cdn.example/b.mp4".toList⟩, by decide⟩

def film : Json := .string filmUrl.1.serialization

/-- A range of another film, and the film. -/
def rangeAndFilm : Json := .array [.string "https://cdn.example/a.mp4?range=0-99".toList, film]

theorem film_unbroken : Unbroken queryPages showPage.serialization showPage.serialization showPage
    showPage none film := by
  apply (unbroken_iff none (fun _ _ => rfl) (by decide) (by decide)).mpr
  have quiet : (showWalk.traversed film).all (fun value => (showWalk.offerOf value).isNone) = true := by
    decide +kernel
  have texts : showWalk.offered (showWalk.traversed film) none = [bareVariant filmUrl] := by
    decide +kernel
  have none_ : ∀ value ∈ showWalk.traversed film, showWalk.offerOf value = none := by
    intro value member
    exact Option.isNone_iff_eq_none.mp (List.all_eq_true.mp quiet value member)
  unfold Usable
  rw [show Walk.of queryPages showPage showPage = some showWalk from rfl]
  refine ⟨?_, ?_⟩
  · intro _ before text after split _
    rw [texts] at split
    have member : text ∈ [bareVariant filmUrl] := by
      rw [split]
      exact List.mem_append_right _ List.mem_cons_self
    rw [List.mem_singleton.mp member]
    decide +kernel
  · intro key found
    cases key with
    | some key => exact absurd (Walk.offers_nil_iff.mpr none_ key) found
    | none =>
      unfold Walk.contentType
      rw [texts]
      rfl

/-- The film is lost with the range. -/
theorem film_lost_with_range :
    (sourceReports queryPages showPage.serialization showPage.serialization none rangeAndFilm).map
        List.length = .error .segmentStream ∧
      OffersMedia queryPages showWalk rangeAndFilm ∧
      ¬ Unbroken queryPages showPage.serialization showPage.serialization showPage showPage none
        rangeAndFilm := by
  have refused : (sourceReports queryPages showPage.serialization showPage.serialization none
      rangeAndFilm).map List.length = .error .segmentStream := by decide +kernel
  have found : bareVariant filmUrl ∈ showWalk.offered (showWalk.traversed rangeAndFilm) none := by
    decide +kernel
  obtain ⟨value, seen, spelled⟩ := mem_texts found
  have offers : OffersMedia queryPages showWalk rangeAndFilm := by
    refine ⟨value, seen, Or.inr ⟨bareVariant filmUrl, spelled, ?_⟩⟩
    exact ⟨by decide +kernel, by decide +kernel⟩
  refine ⟨refused, offers, ?_⟩
  intro unbroken
  obtain ⟨_, reports, _, reported, _⟩ := unbroken.reported offers
  rw [reported] at refused
  cases refused

end Gunda.Capture

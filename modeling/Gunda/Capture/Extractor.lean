import Gunda.Gundad.Pages
import Gunda.Lib.Gather

/-!
# Media in captured documents

`extract` of `gunda-capture/src/extractor.rs` and `source_reports` of `server.rs`. A
document is walked from a stack within limits; the objects on the way offer variants, which
are gathered by the key of their presentation.
-/
namespace Gunda.Capture

open Gunda.Lib Gunda.Lib.Text
open Gunda.Core (Url)
open Gunda.Http (isControl)
open Gunda.Gundad (UrlCrate ParsedUrl parseUrl PageUrls Report ExtractedPresentation rangeQuery
  afterLastDot essence utf8Size ofSite)

/-- Largest source value depth inspected by one extraction. -/
def MAX_DEPTH : Nat := 32

/-- Largest source value count inspected by one extraction. -/
def MAX_NODES : Nat := 200000

/-- Largest number of presentations returned by one source. -/
def MAX_PRESENTATIONS : Nat := 16

/-- Largest number of progressive variants retained for one presentation. -/
def MAX_VARIANTS : Nat := 24

/-- Largest media URL accepted from a source. -/
def MAX_URL_BYTES : Nat := 8 * 1024

/-- Largest title retained for one presentation. -/
def MAX_TITLE_CHARS : Nat := 200

/-! ## Documents -/

/-- `serde_json::Number`; a float is as it is printed. -/
inductive Number where
  | unsigned (value : UInt64)
  | negative (value : Nat)
  | float (printed : Text)
  deriving DecidableEq, Repr

def Number.text : Number → Text
  | .unsigned value => ofNat value.toNat
  | .negative value => '-' :: ofNat value
  | .float printed => printed

/-- `serde_json::Value`; the members of an object are in the order of its map. -/
inductive Json where
  | null
  | bool (value : Bool)
  | number (value : Number)
  | string (value : Text)
  | array (items : List Json)
  | object (members : List (Text × Json))

namespace Json

abbrev Members := List (Text × Json)

def Members.get (members : Members) (name : Text) : Option Json :=
  (members.find? (·.1 = name)).map (·.2)

def asStr : Json → Option Text
  | .string value => some value
  | _ => none

def asArray : Json → Option (List Json)
  | .array items => some items
  | _ => none

def asObject : Json → Option Members
  | .object members => some members
  | _ => none

def asU64 : Json → Option Nat
  | .number (.unsigned value) => some value.toNat
  | _ => none

/-- `scalar_string`. -/
def scalarString : Json → Option Text
  | .string value => some value
  | .number value => some value.text
  | _ => none

/-- The objects of an array in a member, if there is one. -/
def Members.objects (members : Members) (name : Text) : List Members :=
  (((members.get name).bind asArray).getD []).filterMap asObject

end Json

open Json (Members)

def stringField (members : Members) (names : List Text) : Option Text :=
  names.findSome? fun name => (members.get name).bind Json.asStr

def integerField (members : Members) (names : List Text) : Option Nat :=
  names.findSome? fun name => do
    let value ← members.get name
    value.asU64.or (value.asStr.bind parseU64)

def cleanTitle (title : Text) : Text :=
  trim ((title.filter fun c => !isControl c).take MAX_TITLE_CHARS)

/-- A title that says something. -/
def titleOf (value : Option Json) : Option Text :=
  ((value.bind Json.asStr).map cleanTitle).filter (· ≠ [])

/-! ## Variants -/

/-- One directly downloadable quality of a presentation. -/
structure MediaVariant (urls : UrlCrate) extends Gundad.MediaVariant urls where
  contentType : Option Text
  bitrate : Option Nat
  codecs : Option Text
  rank : Nat
  deriving DecidableEq

def mimeNames : List Text := ["mimeType".toList, "mime_type".toList, "content_type".toList]

/-- Without the quotes around it. -/
def trimQuotes (text : Text) : Text :=
  ((text.dropWhile fun c => c = '"' ∨ c = '\'').reverse.dropWhile fun c => c = '"' ∨ c = '\'').reverse

def codecsFromMime (contentType : Text) : Option Text :=
  (splitAtPattern "codecs=".toList contentType).map fun parts => trimQuotes parts.2

theorem parseU64_le {text : Text} {value : Nat} (h : parseU64 text = some value) :
    value ≤ Stream.maxU64 := by
  unfold parseU64 parseUnsigned at h
  have below := of_decide_eq_true (Option.filter_eq_some_iff.mp h).2
  exact Nat.le_of_lt_succ below

theorem integerField_le {members : Members} {names : List Text} :
    ∀ value ∈ integerField members names, value ≤ Stream.maxU64 := by
  intro value found
  obtain ⟨name, _, found⟩ := List.exists_of_findSome?_eq_some found
  obtain ⟨json, _, found⟩ := Option.bind_eq_some_iff.mp found
  rcases Option.or_eq_some_iff.mp found with number | ⟨_, text⟩
  · cases json with
    | number number_ =>
      cases number_ with
      | unsigned value =>
        cases number
        exact Nat.le_of_lt_succ value.toNat_lt
      | negative value => cases number
      | float printed => cases number
    | null => cases number
    | bool value => cases number
    | string value => cases number
    | array items => cases number
    | object members => cases number
  · obtain ⟨spelled, _, parsed⟩ := Option.bind_eq_some_iff.mp text
    exact parseU64_le parsed

section

variable (pages : PageUrls)

/-- The extension of the final path segment, as it is written. -/
def lastExtension (url : Url) : Option Text := do
  let segments ← pages.pathSegments url
  let segment ← segments.getLast?
  afterLastDot segment

def isFragment (url : Url) (contentType : Option Text) : Bool :=
  rangeQuery pages url ||
    contentType.any (fun contentType =>
      essence contentType ∈ ["video/mp2t".toList, "video/iso.segment".toList]) ||
    (lastExtension pages url).any fun extension =>
      eqIgnoreAsciiCase extension "ts".toList || eqIgnoreAsciiCase extension "m4s".toList

def mediaExtensions : List Text :=
  ["mp4", "m4v", "webm", "mkv", "mov", "flv", "avi", "wmv", "mpeg", "mpg", "3gp", "ogv", "m3u8",
    "mpd", "mp3", "m4a", "aac", "ogg", "oga", "opus", "flac", "wav"].map String.toList

def mediaPath (url : Url) : Bool :=
  (lastExtension pages url).any fun actual => mediaExtensions.any (eqIgnoreAsciiCase actual)

def isHttp (url : Url) : Bool :=
  pages.crate.scheme url = "http".toList || pages.crate.scheme url = "https".toList

/-- An accepted text of an HTTP URL. -/
def httpUrl (raw : Text) : Option (ParsedUrl pages.crate) :=
  if MAX_URL_BYTES < utf8Size raw then none
  else (parseUrl pages.crate raw).filter fun url => isHttp pages url.1

def mediaVariant (url : Option Json) (defaultContentType : Option Text) (metadata : Members) :
    Option (MediaVariant pages.crate) :=
  ((url.bind Json.asStr).bind (httpUrl pages)).bind fun url =>
  let contentType := (stringField metadata mimeNames).or defaultContentType
  if isFragment pages url.1 contentType then none
  else some
    { url := url
      width := (integerField metadata ["width".toList, "config_width".toList]).filter (· < 2 ^ 32)
      height :=
        (integerField metadata ["height".toList, "config_height".toList]).filter (· < 2 ^ 32)
      size := integerField metadata
        ["contentLength".toList, "filesize".toList, "filesize_approx".toList]
      named := stringField metadata ["quality_label".toList, "quality".toList]
      fits := integerField_le
      contentType := contentType
      bitrate := integerField metadata ["bitrate".toList, "bit_rate".toList, "bandwidth".toList]
      codecs := (stringField metadata ["codecs".toList]).or (contentType.bind codecsFromMime)
      rank := 0 }

def labeledVariant (url : Option Json) (contentType : Text) (metadata : Members) (label : Text)
    (rank : Nat) : Option (MediaVariant pages.crate) :=
  (mediaVariant pages url (some contentType) metadata).map fun variant =>
    { variant with named := some label, rank := rank }

/-- What a text alone says of media. -/
def bareVariant {urls : UrlCrate} (url : ParsedUrl urls) : MediaVariant urls where
  url := url
  width := none
  height := none
  size := none
  named := none
  fits := Gundad.MediaVariant.unsized
  contentType := none
  bitrate := none
  codecs := none
  rank := 0

def mediaUrlVariant (raw : Text) : Option (MediaVariant pages.crate) :=
  ((httpUrl pages raw).filter fun url => mediaPath pages url.1).map bareVariant

/-! ## Objects of a document -/

/-- What an object offers. -/
structure Offer (urls : UrlCrate) where
  variants : List (MediaVariant urls)
  manifest : Option (MediaVariant urls)
  title : Option Text

def mp4 : Text := "video/mp4".toList

def instagramTitle (object : Members) : Option Text :=
  let caption := object.get "caption".toList
  (titleOf (object.get "title".toList)).or <|
  (titleOf ((caption.filter fun caption => caption.asStr.isSome).or
    ((caption.bind Json.asObject).bind (Members.get · "text".toList)))).or <|
  (titleOf (do
    let caption ← (object.get "edge_media_to_caption".toList).bind Json.asObject
    let edges ← (caption.get "edges".toList).bind Json.asArray
    let edge ← edges.head?.bind Json.asObject
    let node ← (edge.get "node".toList).bind Json.asObject
    node.get "text".toList)).or <|
  (titleOf (((object.get "highlights_info".toList).bind Json.asObject).bind
    (Members.get · "title".toList))).or <|
  titleOf (object.get "song_name".toList)

def considerInstagram (object : Members) : Option (Offer pages.crate) :=
  let variants :=
    ((object.objects "video_versions".toList).filterMap fun version =>
      mediaVariant pages (version.get "url".toList) (some mp4) version) ++
    ((object.objects "video_resources".toList).filterMap fun resource =>
      mediaVariant pages (resource.get "src".toList) (some mp4) resource) ++
    (mediaVariant pages (object.get "video_url".toList) (some mp4) object).toList
  if variants = [] then none else some ⟨variants, none, instagramTitle object⟩

def facebookFields : List (Text × Text × Nat) :=
  [("browser_native_hd_url".toList, "HD".toList, 2),
    ("playable_url_quality_hd".toList, "HD".toList, 2),
    ("browser_native_sd_url".toList, "SD".toList, 1), ("playable_url".toList, "SD".toList, 1)]

def considerFacebook (object : Members) : Option (Offer pages.crate) :=
  let variants :=
    (facebookFields.filterMap fun field =>
      labeledVariant pages (object.get field.1) mp4 object field.2.1 field.2.2) ++
    (object.objects "progressive_urls".toList).filterMap fun item =>
      mediaVariant pages (item.get "url".toList) (some mp4) item
  if variants = [] then none else some ⟨variants, none, none⟩

def considerYoutube (object : Members) : Option (Offer pages.crate) :=
  ((object.get "streamingData".toList).bind Json.asObject).bind fun streaming =>
  let details := (object.get "videoDetails".toList).bind Json.asObject
  let manifest := mediaVariant pages (streaming.get "hlsManifestUrl".toList)
    (some "application/vnd.apple.mpegurl".toList) object
  let variants := ["formats".toList, "adaptiveFormats".toList].flatMap fun name =>
    (streaming.objects name).filterMap fun format =>
      mediaVariant pages (format.get "url".toList) none format
  if variants = [] ∧ manifest = none then none
  else some ⟨variants, manifest, titleOf (details.bind (Members.get · "title".toList))⟩

def urlNames : List Text :=
  ["video_url", "videoUrl", "playback_url", "playbackUrl", "playable_url", "playableUrl",
    "stream_url", "streamUrl", "manifest_url", "manifestUrl", "hlsManifestUrl", "dashManifestUrl",
    "contentUrl", "file", "src"].map String.toList

def listNames : List Text :=
  ["sources", "formats", "adaptiveFormats", "progressive", "progressive_urls", "video_versions",
    "videos", "versions"].map String.toList

/-- The `url` of an object that is said to be, or named as, media. -/
def genericUrl (object : Members) : Option (MediaVariant pages.crate) :=
  (object.get "url".toList).bind fun url =>
  let contentType := stringField object mimeNames
  let namedAsMedia := ((url.asStr.bind (parseUrl pages.crate)).any fun url => mediaPath pages url.1)
  if contentType.any (fun contentType =>
      "video/".toList.isPrefixOf contentType || "audio/".toList.isPrefixOf contentType) ||
      namedAsMedia then
    mediaVariant pages (some url) contentType object
  else none

def considerGeneric (object : Members) : Option (Offer pages.crate) :=
  let variants :=
    (urlNames.filterMap fun name => mediaVariant pages (object.get name) none object) ++
    (listNames.flatMap fun name => (object.objects name).filterMap fun item =>
      mediaVariant pages ((item.get "url".toList).or (item.get "src".toList)) none item) ++
    (genericUrl pages object).toList
  if variants = [] then none else some ⟨variants, none, none⟩

inductive Platform where
  | instagram | facebook | youTube | generic
  deriving DecidableEq, Repr

def Platform.of (pageUrl : Url) : Option Platform :=
  (pages.crate.hostStr pageUrl).map fun host =>
    let host := toAsciiLowercase host
    if ofSite "instagram.com".toList host then .instagram
    else if ofSite "facebook.com".toList host then .facebook
    else if ofSite "youtube.com".toList host ∨ host = "youtu.be".toList then .youTube
    else .generic

def consider (platform : Platform) (object : Members) : Option (Offer pages.crate) :=
  match platform with
  | .instagram => considerInstagram pages object
  | .facebook => considerFacebook pages object
  | .youTube => considerYoutube pages object
  | .generic => considerGeneric pages object

def keyNames : List Text :=
  ["pk", "video_id", "videoId", "media_id", "id", "shortcode", "code"].map String.toList

def presentationKey (object : Members) (sourceUrl : Url)
    (variants : List (MediaVariant pages.crate)) : Option Text :=
  (keyNames.findSome? fun name => ((object.get name).bind Json.scalarString).map fun value =>
    name ++ ':' :: value).or <|
  ((((object.get "videoDetails".toList).bind Json.asObject).bind fun details =>
    (details.get "videoId".toList).bind Json.scalarString).map ("videoId:".toList ++ ·)).or <|
  (variants.head?.map fun variant => variant.url.1.serialization).or (some sourceUrl.serialization)

end

/-! ## Gathering variants -/

def variantArea {urls : UrlCrate} (variant : MediaVariant urls) : Nat :=
  match variant.resolution with
  | some (width, height) => width * height
  | none => 0

/-- What variants are compared by before their URLs: a bitrate that is not known is below
any other. -/
def quality {urls : UrlCrate} (variant : MediaVariant urls) : Nat ×ₗ Nat ×ₗ Nat :=
  toLex (variantArea variant, toLex (variant.rank,
    match variant.bitrate with
    | some bitrate => bitrate + 1
    | none => 0))

/-- The order of the variants of a presentation. -/
def Precedes {urls : UrlCrate} (left right : MediaVariant urls) : Prop :=
  quality right < quality left ∨
    quality left = quality right ∧ left.url.1.serialization ≤ right.url.1.serialization

instance {urls : UrlCrate} (left right : MediaVariant urls) : Decidable (Precedes left right) :=
  inferInstanceAs (Decidable (_ ∨ _))

def enrich {urls : UrlCrate} (variant other : MediaVariant urls) : MediaVariant urls where
  url := variant.url
  contentType := other.contentType.or variant.contentType
  width := other.width.or variant.width
  height := other.height.or variant.height
  bitrate := other.bitrate.or variant.bitrate
  size := other.size.or variant.size
  fits := by
    intro bytes member
    rcases Option.or_eq_some_iff.mp member with own | ⟨_, own⟩
    · exact other.fits bytes own
    · exact variant.fits bytes own
  codecs := other.codecs.or variant.codecs
  named := other.named.or variant.named
  rank := max variant.rank other.rank

/-- Variants are told apart by their URLs. -/
def variantGathering (urls : UrlCrate) : Gathering (MediaVariant urls) (ParsedUrl urls) where
  capacity := MAX_VARIANTS
  key := fun variant => variant.url
  merge := enrich
  key_merge _ _ := rfl

structure PresentationBuilder (urls : UrlCrate) where
  variants : List (MediaVariant urls)
  manifest : Option (MediaVariant urls)
  title : Option Text

structure Presentation (urls : UrlCrate) where
  url : ParsedUrl urls
  contentType : Option Text
  title : Option Text
  variants : List (MediaVariant urls)

namespace PresentationBuilder

variable {urls : UrlCrate}

def empty : PresentationBuilder urls := ⟨[], none, none⟩

def addVariant (builder : PresentationBuilder urls) (variant : MediaVariant urls) :
    PresentationBuilder urls :=
  { builder with variants := (variantGathering urls).put builder.variants variant }

def add (builder : PresentationBuilder urls) (offer : Offer urls) : PresentationBuilder urls :=
  offer.variants.foldl addVariant
    { builder with
      title := builder.title.or offer.title
      manifest := builder.manifest.or offer.manifest }

def finish (builder : PresentationBuilder urls) : Option (Presentation urls) :=
  match builder.manifest with
  | some manifest => some ⟨manifest.url, manifest.contentType, builder.title, builder.variants⟩
  | none =>
      let variants := builder.variants.insertionSort Precedes
      variants.head?.map fun best => ⟨best.url, best.contentType, builder.title, variants⟩

end PresentationBuilder

/-! ## Walking a document -/

/-- The presentations found so far, as a map ordered by key, and the media texts. -/
structure Collector (urls : UrlCrate) where
  presentations : List (Text × PresentationBuilder urls)
  fallbackVariants : List (MediaVariant urls)

namespace Collector

variable {urls : UrlCrate}

def empty : Collector urls := ⟨[], []⟩

/-- The map with the entry of a key changed, or a new one made. -/
def entry (key : Text) (change : PresentationBuilder urls → PresentationBuilder urls)
    (presentations : List (Text × PresentationBuilder urls)) :
    List (Text × PresentationBuilder urls) :=
  if presentations.any (·.1 = key) then
    presentations.map fun one => if one.1 = key then (key, change one.2) else one
  else presentations.orderedInsert (fun a b => a.1 ≤ b.1) (key, change .empty)

def addFallback (collector : Collector urls) (variant : MediaVariant urls) : Collector urls :=
  if collector.fallbackVariants.length < MAX_VARIANTS ∧
      ¬ collector.fallbackVariants.any (·.url = variant.url) then
    { collector with fallbackVariants := collector.fallbackVariants ++ [variant] }
  else collector

/-- The order of the presentations. -/
def FirstOf (left right : Presentation urls) : Prop :=
  right.variants.length < left.variants.length ∨
    right.variants.length = left.variants.length ∧
      left.url.1.serialization ≤ right.url.1.serialization

instance (left right : Presentation urls) : Decidable (FirstOf left right) :=
  inferInstanceAs (Decidable (_ ∨ _))

def finishKeyed (collector : Collector urls) : Except Refusal (List (Presentation urls)) :=
  let presentations :=
    (collector.presentations.filterMap fun one => one.2.finish).insertionSort FirstOf
  if presentations = [] then .error .unsupportedMedia else .ok presentations

def finish (collector : Collector urls) : Except Refusal (List (Presentation urls)) :=
  if collector.presentations = [] ∧ collector.fallbackVariants ≠ [] then
    match (collector.fallbackVariants.foldl PresentationBuilder.addVariant .empty).finish with
    | some presentation => .ok [presentation]
    | none => collector.finishKeyed
  else collector.finishKeyed

end Collector

/-- How the walk looks at values: the platform of the page and the source. -/
structure Walk (pages : PageUrls) where
  platform : Platform
  sourceUrl : Url

namespace Walk

variable {pages : PageUrls} (walk : Walk pages)

def keyOf (object : Members) (offer : Offer pages.crate) : Text :=
  ((presentationKey pages object walk.sourceUrl offer.variants).or
    (offer.manifest.map fun manifest => manifest.url.1.serialization)).getD
      walk.sourceUrl.serialization

/-- The offer of a value, with the key of its presentation. -/
def offerOf : Json → Option (Text × Offer pages.crate)
  | .object object => (consider pages walk.platform object).map fun offer =>
      (walk.keyOf object offer, offer)
  | _ => none

def mediaText : Json → Option (MediaVariant pages.crate)
  | .string value => mediaUrlVariant pages value
  | _ => none

/-- What the loop does with a value. -/
def see (collector : Collector pages.crate) (value : Json) : Collector pages.crate :=
  match walk.offerOf value, mediaText value with
  | some (key, offer), _ => { collector with
      presentations := Collector.entry key (·.add offer) collector.presentations }
  | none, some variant => collector.addFallback variant
  | none, none => collector

/-- What the loop puts on the stack, the last one first. -/
def children (depth : Nat) : Json → List (Json × Nat)
  | .array items => if depth < MAX_DEPTH then (items.map fun item => (item, depth + 1)).reverse else []
  | .object members =>
      if depth < MAX_DEPTH then (members.map fun member => (member.2, depth + 1)).reverse else []
  | _ => []

/-- The loop, with the number of values that may still be looked at. -/
def visit : Nat → List (Json × Nat) → Collector pages.crate → Collector pages.crate
  | 0, _, collector => collector
  | _ + 1, [], collector => collector
  | left_ + 1, (value, depth) :: pending, collector =>
      if MAX_PRESENTATIONS ≤ collector.presentations.length ∨ MAX_DEPTH < depth then collector
      else visit left_ (children depth value ++ pending) (walk.see collector value)

end Walk

/-! ## Extracting -/

section

variable (pages : PageUrls)

def extract (pageUrl sourceUrl : Url) (document : Json) :
    Except Refusal (List (Presentation pages.crate)) :=
  if isHttp pages sourceUrl = false then .error .unsupportedUrl
  else match Platform.of pages pageUrl with
    | none => .error .unsupportedSource
    | some platform =>
        let walk : Walk pages := ⟨platform, sourceUrl⟩
        (walk.visit MAX_NODES [(document, 0)] .empty).finish

/-- What a report takes over. -/
def Presentation.toExtracted {urls : UrlCrate} (presentation : Presentation urls) :
    ExtractedPresentation urls where
  url := presentation.url
  contentType := presentation.contentType.map String.ofList
  title := presentation.title.map String.ofList
  variants := presentation.variants.map (·.toMediaVariant)

def sourceReports (sourceUrl pageUrl : Text) (pageTitle : Option String) (document : Json) :
    Except Refusal (List (Report pages.crate)) :=
  match pages.crate.parse sourceUrl with
  | none => .error .unsupportedUrl
  | some sourceUrl =>
      match pages.crate.parse pageUrl with
      | none => .error .unsupportedUrl
      | some pageUrl =>
          if pages.cannotBeABase pageUrl then .error .unsupportedUrl
          else do
            let presentations ← extract pages pageUrl sourceUrl document
            presentations.mapM fun presentation =>
              Report.fromExtracted pages presentation.toExtracted pageUrl pageTitle

end

end Gunda.Capture

import Gunda.Gundad.Catalogs
import Gunda.Http.Finalize
import Mathlib.Data.Char
import Mathlib.Data.List.Lex

/-!
# What a report is filed under

`gunda-capture/src/candidate.rs` validates and classifies a report, and `server.rs` finds
the candidate of a page. A report of a known URL changes what the candidate carries but
neither its kind nor its page, so both are those of the first report.
-/
namespace Gunda.Gundad

open Gunda.Lib Gunda.Lib.Text
open Gunda.Core (Url ResourceKind)
open Gunda.Capture (Refusal)
open Gunda.Http (isControl)

/-- `url::Url` as far as reports and pages are read. -/
structure PageUrls where
  crate : UrlCrate
  queryPairs : Url → List (Text × Text)
  pathSegments : Url → Option (List Text)
  portOrKnownDefault : Url → Option Nat
  cannotBeABase : Url → Bool

def maxTitleChars : Nat := 200

def maxContentTypeBytes : Nat := 128

def maxFilenameChars : Nat := 200

/-! ## Classification -/

inductive Classification where
  | downloadable (kind : ResourceKind)
  | segment
  deriving DecidableEq, Repr

/-- What follows the last dot. -/
def afterLastDot (text : Text) : Option Text :=
  (splitOnce '.' text.reverse).map fun parts => parts.1.reverse

def utf8Size (text : Text) : Nat := (text.map Char.utf8Size).sum

/-- Truncates a text to a byte budget, on a character boundary. -/
def truncate : Nat → Text → Text
  | _, [] => []
  | bytes, c :: rest =>
      if c.utf8Size ≤ bytes then c :: truncate (bytes - c.utf8Size) rest else []

section

variable (pages : PageUrls)

def rangeQuery (url : Url) : Bool :=
  (pages.queryPairs url).any fun pair =>
    toAsciiLowercase pair.1 ∈ ["bytestart".toList, "byteend".toList, "range".toList]

/-- The lowercase extension of a URL's final path segment. -/
def extension (url : Url) : Option Text := do
  let segments ← pages.pathSegments url
  let segment ← segments.getLast?
  let found ← afterLastDot segment
  let extension := toAsciiLowercase found
  if extension = [] ∨ utf8Size extension > 5 then none else some extension

def essence (contentType : Text) : Text :=
  toAsciiLowercase (trim (contentType.takeWhile (· ≠ ';')))

def classifyContentType (contentType : Text) : Option Classification :=
  let essence := essence contentType
  if essence ∈ ["application/vnd.apple.mpegurl".toList, "application/x-mpegurl".toList,
      "audio/mpegurl".toList, "audio/x-mpegurl".toList] then some (.downloadable .hls)
  else if essence = "application/dash+xml".toList then some (.downloadable .dash)
  else if essence = "video/mp2t".toList then some .segment
  else if "video/".toList.isPrefixOf essence ∨ "audio/".toList.isPrefixOf essence then
    some (.downloadable .file)
  else none

/-- Classifies a reported resource by its content type, then by its path. -/
def classify (url : Url) (contentType : Option Text) : Classification :=
  if rangeQuery pages url then .segment
  else match contentType.bind classifyContentType with
    | some classification => classification
    | none =>
        match extension pages url with
        | some found =>
            if found = "m3u8".toList then .downloadable .hls
            else if found = "mpd".toList then .downloadable .dash
            else if found = "ts".toList ∨ found = "m4s".toList then .segment
            else .downloadable .file
        | none => .downloadable .file

/-! ## Reports -/

/-- Drops control characters and bounds the length of a page title. -/
def cleanTitle (title : String) : Text :=
  trim ((title.toList.filter fun c => !isControl c).take maxTitleChars)

/-- Keeps only the final component of a suggested filename and bounds it. -/
def cleanFilename (filename : String) : Option String :=
  let last := (filename.toList.reverse.takeWhile fun c => c ≠ '/' ∧ c ≠ '\\').reverse
  let kept := trim ((last.filter fun c => !isControl c).take maxFilenameChars)
  if kept = [] then none else some (String.ofList kept)

def Report.new (url : Text) (contentType : Option String) (pageUrl : Text)
    (pageTitle : Option String) : Except Refusal (Report pages.crate) :=
  match parseUrl pages.crate url with
  | none => .error .unsupportedUrl
  | some url =>
      if pages.crate.scheme url.1 ≠ "http".toList ∧ pages.crate.scheme url.1 ≠ "https".toList then
        .error .unsupportedUrl
      else match pages.crate.parse pageUrl with
        | none => .error .unsupportedUrl
        | some pageUrl =>
            if pages.cannotBeABase pageUrl then .error .unsupportedUrl
            else
              let contentType := contentType.map fun value =>
                String.ofList (truncate maxContentTypeBytes value.toList)
              match classify pages url.1 (contentType.map String.toList) with
              | .segment => .error .segmentStream
              | .downloadable kind => .ok
                  { url := url
                    kind := kind
                    contentType := contentType
                    sizeBytes := none
                    pageUrl := pageUrl
                    pageTitle := ((pageTitle.map cleanTitle).filter (· ≠ [])).map String.ofList
                    filename := none
                    variants := [] }

def Report.withFilename {urls : UrlCrate} (report : Report urls) (filename : Option String) :
    Report urls :=
  { report with filename := filename.bind cleanFilename }

def Report.withSizeBytes {urls : UrlCrate} (report : Report urls) (sizeBytes : Option Nat) :
    Report urls :=
  { report with sizeBytes := sizeBytes.filter (0 < ·) }

/-- One presentation found in a captured page document. -/
structure ExtractedPresentation (urls : UrlCrate) where
  url : ParsedUrl urls
  contentType : Option String
  title : Option String
  variants : List (MediaVariant urls)

def Report.fromExtracted (presentation : ExtractedPresentation pages.crate) (pageUrl : Url)
    (pageTitle : Option String) : Except Refusal (Report pages.crate) :=
  (Report.new pages presentation.url.1.serialization presentation.contentType
    pageUrl.serialization (presentation.title.or pageTitle)).map fun report =>
    { report with
      variants := presentation.variants
      sizeBytes := (presentation.variants.filterMap (·.size)).max? }

/-- How a report comes about. -/
inductive Report.Built : Report pages.crate → Prop where
  | new {url contentType pageUrl pageTitle} {report : Report pages.crate}
      (built : Report.new pages url contentType pageUrl pageTitle = .ok report) : Built report
  | withFilename {report : Report pages.crate} (filename : Option String)
      (built : Built report) : Built (report.withFilename filename)
  | withSizeBytes {report : Report pages.crate} (sizeBytes : Option Nat)
      (built : Built report) : Built (report.withSizeBytes sizeBytes)
  | fromExtracted {presentation pageUrl pageTitle} {report : Report pages.crate}
      (built : Report.fromExtracted pages presentation pageUrl pageTitle = .ok report) :
      Built report

/-! ## Pages -/

/-- Query parameters that do not name another page. -/
def ignoredParameter (name : Text) : Bool :=
  let name := toAsciiLowercase name
  name ∈ ["t".toList, "si".toList, "feature".toList, "fbclid".toList, "gclid".toList,
      "igsh".toList, "igshid".toList, "rdid".toList] || "utm_".toList.isPrefixOf name

def ofSite (site host : Text) : Bool := host = site || ('.' :: site).isSuffixOf host

def pageQueryKey (url : Url) : Text :=
  let host := toAsciiLowercase ((pages.crate.hostStr url).getD [])
  let video := (((pages.queryPairs url).find? (·.1 = "v".toList)).map (·.2)).getD []
  if ofSite "youtube.com".toList host then video
  else if ofSite "instagram.com".toList host then []
  else if ofSite "facebook.com".toList host then video
  else
    let parts := ((pages.queryPairs url).filter fun pair => !ignoredParameter pair.1).map
      fun pair => pair.1 ++ '=' :: pair.2
    List.intercalate ['&'] (parts.insertionSort (· ≤ ·))

def samePage (left right : Url) : Bool :=
  pages.crate.scheme left = pages.crate.scheme right &&
    pages.crate.hostStr left = pages.crate.hostStr right &&
    pages.portOrKnownDefault left = pages.portOrKnownDefault right &&
    pages.crate.path left = pages.crate.path right &&
    pageQueryKey pages left = pageQueryKey pages right

def pageCandidateScore {urls : UrlCrate} (candidate : Candidate urls) : Nat ×ₗ Nat ×ₗ Nat :=
  let url := toAsciiLowercase candidate.url.1.serialization
  let variantList := if candidate.variants.length > 1 then 1 else 0
  let mediaRank :=
    if (splitAtPattern "hls_variant".toList url).isSome ∨
        (splitAtPattern "/master".toList url).isSome then 4
    else if candidate.kind = .hls ∨ candidate.kind = .dash then 3
    else 1
  toLex (variantList, toLex (mediaRank, candidate.id))

/-- A request that needs a candidate. -/
inductive PageRequest where
  | formats (pageUrl : Url)
  | download (pageUrl : Url) (captureId : Option CandidateId)

/-- The page a request is for, unless it names a capture. -/
def PageRequest.page : PageRequest → Option Url
  | .formats pageUrl => some pageUrl
  | .download pageUrl none => some pageUrl
  | .download _ (some _) => none

def findCandidate (catalog : Catalog pages.crate) : PageRequest → Option (Candidate pages.crate)
  | .download _ (some id) => catalog.get id
  | .formats pageUrl | .download pageUrl none =>
      maxByKey pageCandidateScore
        (catalog.candidates.filter fun candidate => samePage pages candidate.pageUrl pageUrl)

end

/-! ## Filing -/

section

variable {pages : PageUrls}

/-- What the listener does to the catalog. -/
inductive ReportOp (pages : PageUrls) where
  | record (report : { report : Report pages.crate // report.Built pages })
  | remove (id : CandidateId)
  | clear

/-- The catalog, and the URL and page of every report whose candidate it still keeps. -/
structure Filing (pages : PageUrls) where
  catalog : Catalog pages.crate
  live : List (ParsedUrl pages.crate × Url)

namespace Filing

def settle (catalog : Catalog pages.crate) (live : List (ParsedUrl pages.crate × Url)) :
    Filing pages :=
  ⟨catalog, live.filter fun entry => catalog.candidates.any (·.url = entry.1)⟩

def step (filing : Filing pages) : ReportOp pages → Filing pages
  | .record report =>
      settle (filing.catalog.record report.1).1 ((report.1.url, report.1.pageUrl) :: filing.live)
  | .remove id => settle (filing.catalog.remove id) filing.live
  | .clear => settle filing.catalog.clear filing.live

def run (capacity : Nat) (ops : List (ReportOp pages)) : Filing pages :=
  ops.foldl step ⟨Catalog.new pages.crate capacity, []⟩

/-- Each candidate is of the kind its URL and content type say, and the page of a live report
has a candidate. -/
structure Filed (filing : Filing pages) : Prop where
  kinds : ∀ candidate ∈ filing.catalog.candidates,
    classify pages candidate.url.1 (candidate.contentType.map String.toList) =
      .downloadable candidate.kind
  pages : ∀ entry ∈ filing.live, ∀ (request_ : PageRequest) (pageUrl : Url),
    request_.page = some pageUrl → samePage pages entry.2 pageUrl = true →
      ∃ candidate, findCandidate pages filing.catalog request_ = some candidate ∧
        samePage pages candidate.pageUrl pageUrl = true

/-- A report of a known URL says nothing else about its kind and its page. -/
def Agrees (filing : Filing pages) (report : Report pages.crate) : Prop :=
  ∀ existing ∈ filing.catalog.candidates, existing.url = report.url →
    (report.contentType = none ∨
      classify pages existing.url.1 (report.contentType.map String.toList) =
        .downloadable existing.kind) ∧
    samePage pages existing.pageUrl report.pageUrl = true

/-- What carries the result: a candidate of a live report's URL is of its page. -/
structure Held (filing : Filing pages) : Prop where
  kinds : ∀ candidate ∈ filing.catalog.candidates,
    classify pages candidate.url.1 (candidate.contentType.map String.toList) =
      .downloadable candidate.kind
  present : ∀ entry ∈ filing.live, ∃ candidate ∈ filing.catalog.candidates,
    candidate.url = entry.1
  paged : ∀ entry ∈ filing.live, ∀ candidate ∈ filing.catalog.candidates,
    candidate.url = entry.1 → samePage pages candidate.pageUrl entry.2 = true

end Filing

theorem samePage_iff {left right : Url} : samePage pages left right = true ↔
    pages.crate.scheme left = pages.crate.scheme right ∧
    pages.crate.hostStr left = pages.crate.hostStr right ∧
    pages.portOrKnownDefault left = pages.portOrKnownDefault right ∧
    pages.crate.path left = pages.crate.path right ∧
    pageQueryKey pages left = pageQueryKey pages right := by
  unfold samePage
  simp only [Bool.and_eq_true, decide_eq_true_eq, and_assoc]

theorem samePage_refl (url : Url) : samePage pages url url = true :=
  samePage_iff.mpr ⟨rfl, rfl, rfl, rfl, rfl⟩

theorem samePage_trans {a b c : Url} (ab : samePage pages a b = true)
    (bc : samePage pages b c = true) : samePage pages a c = true := by
  rw [samePage_iff] at ab bc ⊢
  obtain ⟨scheme, host, port, path, query⟩ := ab
  rw [scheme, host, port, path, query]
  exact bc

/-- A page with a candidate is found by every request for it. -/
theorem findCandidate_of_page {catalog : Catalog pages.crate} {request_ : PageRequest}
    {pageUrl : Url} (asked : request_.page = some pageUrl) {kept : Candidate pages.crate}
    (member : kept ∈ catalog.candidates) (same : samePage pages kept.pageUrl pageUrl = true) :
    ∃ candidate, findCandidate pages catalog request_ = some candidate ∧
      samePage pages candidate.pageUrl pageUrl = true := by
  have found : findCandidate pages catalog request_ = maxByKey pageCandidateScore
      (catalog.candidates.filter fun candidate => samePage pages candidate.pageUrl pageUrl) := by
    cases request_ with
    | formats other =>
      cases asked
      rfl
    | download other id =>
      cases id with
      | none =>
        cases asked
        rfl
      | some id => cases asked
  rw [found]
  cases best : maxByKey pageCandidateScore
      (catalog.candidates.filter fun candidate => samePage pages candidate.pageUrl pageUrl) with
  | none =>
    have empty := maxByKey_eq_none.mp best
    have inside : kept ∈ catalog.candidates.filter fun candidate =>
        samePage pages candidate.pageUrl pageUrl := List.mem_filter.mpr ⟨member, same⟩
    rw [empty] at inside
    cases inside
  | some candidate => exact ⟨candidate, rfl, (List.mem_filter.mp (maxByKey_mem best)).2⟩

variable {report : Report pages.crate}

theorem new_classified {url pageUrl : Text} {contentType pageTitle : Option String}
    (built : Report.new pages url contentType pageUrl pageTitle = .ok report) :
    classify pages report.url.1 (report.contentType.map String.toList) =
      .downloadable report.kind := by
  unfold Report.new at built
  split at built
  · cases built
  · split at built
    · cases built
    · split at built
      · cases built
      · split at built
        · cases built
        · dsimp only at built
          split at built
          · cases built
          · rename_i kind classified
            cases built
            exact classified

/-- A report is of the kind its URL and content type say. -/
theorem Report.Built.classified (built : report.Built pages) :
    classify pages report.url.1 (report.contentType.map String.toList) =
      .downloadable report.kind := by
  induction built with
  | new built => exact new_classified built
  | withFilename filename built ih => exact ih
  | withSizeBytes sizeBytes built ih => exact ih
  | fromExtracted built =>
    obtain ⟨plain, made, same⟩ := map_ok built
    have classified := new_classified made
    rw [← same]
    exact classified

/-- A report changes one candidate of its URL, or adds one. -/
theorem record_cases (catalog : Catalog pages.crate) (report : Report pages.crate) :
    (∃ before existing behind, catalog.candidates = before ++ existing :: behind ∧
      existing.url = report.url ∧
      (catalog.record report).1.candidates = before ++ existing.reported report :: behind) ∨
    ((∀ candidate ∈ catalog.candidates, candidate.url ≠ report.url) ∧
      (catalog.record report).1.candidates =
        (report.candidate catalog.nextId :: catalog.candidates).take catalog.capacity) := by
  unfold Catalog.record
  cases found : Catalog.updateFirst report catalog.candidates with
  | some result =>
    obtain ⟨before, existing, behind, split, url, _, after⟩ := updateFirst_some found
    exact Or.inl ⟨before, existing, behind, split, url, after⟩
  | none => exact Or.inr ⟨updateFirst_none found, rfl⟩

namespace Filing

variable {filing : Filing pages} {catalog : Catalog pages.crate}
  {live : List (ParsedUrl pages.crate × Url)}

theorem Held.filed (held : filing.Held) : filing.Filed where
  kinds := held.kinds
  pages entry member request_ pageUrl asked same := by
    obtain ⟨candidate, kept, url⟩ := held.present entry member
    have paged := held.paged entry member candidate kept url
    exact findCandidate_of_page asked kept (samePage_trans paged same)

/-- The reports of URLs that are gone are no longer live. -/
theorem held_settle
    (kinds : ∀ candidate ∈ catalog.candidates,
      classify pages candidate.url.1 (candidate.contentType.map String.toList) =
        .downloadable candidate.kind)
    (paged : ∀ entry ∈ live, ∀ candidate ∈ catalog.candidates, candidate.url = entry.1 →
      samePage pages candidate.pageUrl entry.2 = true) : (settle catalog live).Held where
  kinds := kinds
  present entry member := by
    have here := (List.mem_filter.mp member).2
    rw [List.any_eq_true] at here
    obtain ⟨candidate, kept, url⟩ := here
    exact ⟨candidate, kept, of_decide_eq_true url⟩
  paged entry member := paged entry (List.mem_filter.mp member).1

/-- Fewer candidates. -/
theorem Held.fewer (held : filing.Held)
    (sub : catalog.candidates ⊆ filing.catalog.candidates) :
    (settle catalog filing.live).Held := by
  apply held_settle
  · intro candidate member
    exact held.kinds candidate (sub member)
  · intro entry inside candidate member
    exact held.paged entry inside candidate (sub member)

/-- A report that agrees leaves the kind right and the page the same. -/
theorem Held.recorded (held : filing.Held) (built : report.Built pages)
    (agrees : filing.Agrees report) :
    (settle (filing.catalog.record report).1 ((report.url, report.pageUrl) :: filing.live)).Held := by
  rcases record_cases filing.catalog report with
    ⟨before, existing, behind, split, url, after⟩ | ⟨other, after⟩
  · have member : existing ∈ filing.catalog.candidates := by
      rw [split]
      exact List.mem_append_right _ List.mem_cons_self
    -- every candidate has the URL, the kind and the page of one that was there
    have older : ∀ candidate ∈ (filing.catalog.record report).1.candidates,
        candidate = existing.reported report ∨ candidate ∈ filing.catalog.candidates := by
      intro candidate inside
      rw [after] at inside
      rw [split]
      rcases List.mem_append.mp inside with early | late
      · exact Or.inr (List.mem_append_left _ early)
      · rcases List.mem_cons.mp late with same | behind_
        · exact Or.inl same
        · exact Or.inr (List.mem_append_right _ (List.mem_cons_of_mem _ behind_))
    apply held_settle
    · intro candidate inside
      rcases older candidate inside with same | old
      · rw [same]
        change classify pages existing.url.1
          ((report.contentType.or existing.contentType).map String.toList) =
            .downloadable existing.kind
        rcases (agrees existing member url).1 with untyped | typed
        · rw [untyped, Option.none_or]
          exact held.kinds existing member
        · cases told : report.contentType with
          | none => exact held.kinds existing member
          | some contentType =>
            rw [told] at typed
            exact typed
      · exact held.kinds candidate old
    · intro entry inside candidate kept same
      rcases List.mem_cons.mp inside with new | live
      · rw [new] at same ⊢
        rcases older candidate kept with reported | old
        · rw [reported]
          exact (agrees existing member url).2
        · exact (agrees candidate old same).2
      · rcases older candidate kept with reported | old
        · rw [reported] at same ⊢
          exact held.paged entry live existing member same
        · exact held.paged entry live candidate old same
  · have older : ∀ candidate ∈ (filing.catalog.record report).1.candidates,
        candidate = report.candidate filing.catalog.nextId ∨
          candidate ∈ filing.catalog.candidates := by
      intro candidate inside
      rw [after] at inside
      exact List.mem_cons.mp (List.mem_of_mem_take inside)
    apply held_settle
    · intro candidate inside
      rcases older candidate inside with same | old
      · rw [same]
        exact built.classified
      · exact held.kinds candidate old
    · intro entry inside candidate kept same
      rcases List.mem_cons.mp inside with new | live
      · rw [new] at same ⊢
        rcases older candidate kept with reported | old
        · rw [reported]
          exact samePage_refl _
        · exact absurd same (other candidate old)
      · rcases older candidate kept with reported | old
        · obtain ⟨first, present, url⟩ := held.present entry live
          rw [reported] at same
          exact absurd (url.trans same.symm) (other first present)
        · exact held.paged entry live candidate old same

theorem Held.step (held : filing.Held) {op : ReportOp pages}
    (agrees : ∀ report, op = .record report → filing.Agrees report.1) : (filing.step op).Held := by
  cases op with
  | record report => exact held.recorded report.2 (agrees report rfl)
  | remove id => exact held.fewer (List.filter_subset_self _)
  | clear => exact held.fewer (List.nil_subset _)

theorem held_start (capacity : Nat) :
    (⟨Catalog.new pages.crate capacity, []⟩ : Filing pages).Held where
  kinds _ member := nomatch member
  present _ member := nomatch member
  paged _ member := nomatch member

theorem held_foldl {ops : List (ReportOp pages)} (held : filing.Held)
    (agrees : ∀ before report after, ops = before ++ .record report :: after →
      (before.foldl Filing.step filing).Agrees report.1) : (ops.foldl Filing.step filing).Held := by
  induction ops generalizing filing with
  | nil => exact held
  | cons op ops ih =>
    have first : (filing.step op).Held := by
      apply held.step
      intro report same
      rw [same] at agrees
      exact agrees [] report ops rfl
    apply ih first
    intro before report after split
    have later := agrees (op :: before) report after (congrArg (op :: ·) split)
    exact later

end Filing

/-- Where no report of a known URL brings another kind or another page, every candidate is of
its kind, and the page of every report whose candidate is kept has a candidate. -/
theorem reports_filed {capacity : Nat} {ops : List (ReportOp pages)}
    (agrees : ∀ before report after, ops = before ++ .record report :: after →
      (Filing.run capacity before).Agrees report.1) : (Filing.run capacity ops).Filed :=
  (Filing.held_foldl (Filing.held_start capacity) agrees).filed

end

/-! ## One resource of two pages -/

/-- URLs of one host without a query. -/
def cdnPages : PageUrls where
  crate := cdnCrate
  queryPairs _ := []
  pathSegments url := some (splitAll '/' (url.serialization.drop 20))
  portOrKnownDefault _ := some 443
  cannotBeABase _ := false

def playUrl : ParsedUrl cdnCrate := ⟨⟨"https://cdn.example/play".toList⟩, by decide⟩

/-- A resource without an extension, as the browser first names it. -/
def predicted : Report cdnCrate where
  url := playUrl
  kind := .file
  contentType := none
  sizeBytes := none
  pageUrl := ⟨"https://cdn.example/a".toList⟩
  pageTitle := none
  filename := none
  variants := []

/-- The same resource with its type, from another page. -/
def requested : Report cdnCrate :=
  { predicted with
    kind := .hls
    contentType := some "application/vnd.apple.mpegurl"
    pageUrl := ⟨"https://cdn.example/b".toList⟩ }

theorem predicted_built : Report.Built cdnPages predicted :=
  @Report.Built.new cdnPages playUrl.1.serialization none predicted.pageUrl.serialization none _
    (by decide +kernel)

theorem requested_built : Report.Built cdnPages requested :=
  @Report.Built.new cdnPages playUrl.1.serialization requested.contentType
    requested.pageUrl.serialization none _ (by decide +kernel)

def firstPage : ReportOp cdnPages := .record ⟨predicted, predicted_built⟩

def firstPageTwice : List (ReportOp cdnPages) := [firstPage, firstPage]

def bothPages : List (ReportOp cdnPages) := [firstPage, .record ⟨requested, requested_built⟩]

theorem first_page_filed : (Filing.run 256 firstPageTwice).Filed := by
  apply reports_filed
  intro before report after split existing member url
  rcases before with _ | ⟨first, _ | ⟨second, rest⟩⟩
  · cases member
  · cases split
    have kept : ∀ candidate ∈ (Filing.run 256 [firstPage]).catalog.candidates,
        samePage cdnPages candidate.pageUrl predicted.pageUrl = true := by decide +kernel
    exact ⟨Or.inl rfl, kept existing member⟩
  · have lengths := congrArg List.length split
    simp [firstPageTwice] at lengths

/-- The playlist stays a file of the first page, and the second page has no candidate. -/
theorem second_page_not_filed :
    (Filing.run 256 bothPages).catalog.candidates.map
        (fun candidate => (candidate.kind, candidate.contentType)) =
      [(.file, some "application/vnd.apple.mpegurl")] ∧
    findCandidate cdnPages (Filing.run 256 bothPages).catalog (.formats requested.pageUrl) = none ∧
    ¬ (Filing.run 256 bothPages).Filed := by
  have missing : findCandidate cdnPages (Filing.run 256 bothPages).catalog
      (.formats requested.pageUrl) = none := by decide +kernel
  refine ⟨by decide +kernel, missing, fun filed => ?_⟩
  have live : (playUrl, requested.pageUrl) ∈ (Filing.run 256 bothPages).live := by
    have shape : (Filing.run 256 bothPages).live =
        [(playUrl, requested.pageUrl), (playUrl, predicted.pageUrl)] := by rfl
    rw [shape]
    exact List.mem_cons_self
  obtain ⟨candidate, found, _⟩ :=
    filed.pages _ live (.formats requested.pageUrl) requested.pageUrl rfl (samePage_refl _)
  rw [missing] at found
  cases found

end Gunda.Gundad

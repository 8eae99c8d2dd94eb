import Gunda.Gundad.Duplicates
import Gunda.Stream.Offers

/-!
# Choosing what was listed

A format or a track names what it described by position, by a selector or by a URL, and is
chosen later. What is then downloaded is what was described where the position still names
it, where the capture itself is the track, and where the engine of the capture fits.
-/
namespace Gunda.Gundad

open Gunda.Lib Gunda.Lib.Text
open Gunda.Core
open Gunda.Capture (MediaFormat Refusal)
open Gunda.Stream (PresentationTrack inspectHls inspectMpd)
open Gunda.Stream.Hls (MasterPlaylist MediaPlaylist)
open Gunda.Stream.Dash (Mpd)

variable {index : Nat} {engine : JobEngine} {answer : Option (DownloadId × OffsetDateTime)}
    {id : DownloadId} {directory : String}

/-- Joining URLs yields parsed ones. -/
structure UrlJoins (urls : UrlCrate) extends Stream.UrlLibrary where
  joined : ∀ {base url : Url} {text : Text}, join base text = some url →
    urls.parse url.serialization = some url

/-- A manifest the stream engine read, with numbers as wide as the source's. -/
inductive Manifest where
  | media (playlist : MediaPlaylist)
  | master (playlist : MasterPlaylist) (fits : playlist.Representable)
  | dash (mpd : Mpd)

section

variable {urls : UrlCrate} (library : UrlJoins urls) (decimals : Stream.Decimals)

/-- `StreamExecutor::inspect`, with the manifest found at the URL, where one was. -/
def inspect (base : Url) : Option Manifest → Option (List PresentationTrack)
  | none => none
  | some (.media playlist) =>
      some (inspectHls library.toUrlLibrary decimals base (.media playlist))
  | some (.master playlist _) =>
      some (inspectHls library.toUrlLibrary decimals base (.master playlist))
  | some (.dash mpd) => (inspectMpd library.toUrlLibrary base mpd decimals).toOption

/-- What an entry of a list described. -/
structure Entry where
  url : Url
  selection : Option ExecutionSelection
  engine : JobEngine
  deriving DecidableEq

def variantEntry (variant : MediaVariant urls) : Entry := ⟨variant.url.1, none, .http⟩

def trackEntry (track : PresentationTrack) : Entry := ⟨track.url, track.selection, .stream⟩

/-- What the formats listed for a capture describe, in order. -/
def formatEntries (candidate : Candidate urls) (inspected : Option (List PresentationTrack)) :
    List Entry :=
  if candidate.kind = .file ∧ candidate.variants ≠ [] then candidate.variants.map variantEntry
  else if candidate.kind = .hls ∨ candidate.kind = .dash then
    (inspected.getD []).map trackEntry
  else [⟨candidate.url.1, none, .http⟩]

/-- `inspect_capture`: the tracks the desktop is shown. -/
def inspectCapture (wording : Wording urls) (filename : PresentationTrack → Option String)
    (daemon : Daemon urls) (id : CandidateId) (manifest : Option Manifest) :
    Except String (List CaptureTrackView) := do
  let (candidate, _) ← daemon.captured id
  if candidate.variants ≠ [] then
    pure (candidate.variants.map (captureVariantView wording))
  else
    pure (((inspect library decimals candidate.url.1 manifest).getD []).map
      (captureTrackView wording filename))

def trackEntries (candidate : Candidate urls) (manifest : Option Manifest) : List Entry :=
  if candidate.variants ≠ [] then candidate.variants.map variantEntry
  else ((inspect library decimals candidate.url.1 manifest).getD []).map trackEntry

end

/-- One selector, or two HLS selectors that differ in the declared total only. -/
def SameTrack (chosen listed : Option ExecutionSelection) : Prop :=
  chosen = listed ∨ ∃ c ∈ chosen, ∃ l ∈ listed, ∃ track total,
    Stream.Selection.parseHls l = .ok track ∧
      Stream.Selection.parseHls c = .ok { track with declaredTotal := total }

variable {urls : UrlCrate}

/-- A download of what the entry described, by the engine that fits it. -/
def Downloads (daemon : Daemon urls) (id : DownloadId) (entry : Entry) : Prop :=
  ∃ job ∈ daemon.jobs, job.id = id ∧ job.request.url = entry.url ∧
    SameTrack job.request.selection entry.selection ∧ daemon.engineOf job = entry.engine

/-! ## Selectors with a size -/

theorem splitAll_selectionWithSize (text : Text) (size : Option Nat) :
    selectionWithSize text size = text ∨
      splitAll ':' (selectionWithSize text size) =
        splitAll ':' text ++ Stream.Selection.totalFields size := by
  unfold selectionWithSize
  split
  · cases size with
    | none => exact .inl rfl
    | some size => exact .inr (splitAll_snoc (Stream.Selection.colon_not_mem_ofNat size))
  · exact .inl rfl

/-! ## The tracks of an inspection -/

/-- The track stands at the manifest's own URL, and its selector takes a size. -/
structure Selected (base : Url) (track : PresentationTrack) (selection : ExecutionSelection) :
    Prop where
  url : track.url = base
  sized : ∀ (candidate : Candidate urls) {chosen : ExecutionSelection},
    chosen.value = selectionWithSize selection.value (declaredTrackSize candidate track) →
      SameTrack (some chosen) (some selection)

theorem declaredTrackSize_fits (candidate : Candidate urls) {track : PresentationTrack}
    (video : track.kind = .video) : ∀ n ∈ declaredTrackSize candidate track, n < 2 ^ 64 := by
  intro n declared
  unfold declaredTrackSize at declared
  simp only [video] at declared
  obtain ⟨bytes, _, total⟩ := Option.map_eq_some_iff.mp declared
  rw [← total]
  exact Nat.lt_of_le_of_lt (Nat.min_le_right _ _) (by decide)

section

variable {library : Stream.UrlLibrary} {decimals : Stream.Decimals} {base : Url}
  {track : PresentationTrack}

theorem describedVariant_selected {master : MasterPlaylist} {index : Nat}
    {variant : Stream.Hls.Variant} {audio : Option (Nat × Stream.Hls.Rendition)}
    (fits : master.Representable) (found : master.variants[index]? = some variant)
    (offered : audio ∈ Stream.offeredRenditions master variant)
    (built : Stream.describedVariant decimals base index variant audio = some track) :
    ∃ selection, track.selection = some selection ∧ @Selected urls base track selection := by
  obtain ⟨selection, selected, parsed⟩ := Stream.parseHls_describedTotal fits found offered built
  have atBase : track.url = base ∧ track.kind = .video := by
    unfold Stream.describedVariant at built
    obtain ⟨_, _, made⟩ := Option.bind_eq_some_iff.mp built
    cases made
    exact ⟨rfl, rfl⟩
  refine ⟨selection, selected, atBase.1, ?_⟩
  intro candidate chosen sized
  have sizeFits := declaredTrackSize_fits candidate atBase.2
  rcases splitAll_selectionWithSize selection.value (declaredTrackSize candidate track)
    with unsized | fields
  · left
    rw [unsized] at sized
    exact congrArg some (congrArg ExecutionSelection.mk sized)
  · right
    rw [← sized] at fields
    have unsized := parsed none selection (fun _ absent => by cases absent) (List.append_nil _).symm
    exact ⟨chosen, rfl, selection, rfl, _, declaredTrackSize candidate track, unsized,
      parsed _ chosen sizeFits fields⟩

/-- A selector of another format is chosen as it is. -/
theorem selected_of_dash {video audio : Option (Nat × Nat × Option Nat)}
    {selection : ExecutionSelection} (atBase : track.url = base)
    (written : Stream.Selection.dashSelection video audio = .ok selection) :
    @Selected urls base track selection := by
  refine ⟨atBase, ?_⟩
  intro candidate chosen sized
  have dash : "hls:".toList.isPrefixOf selection.value = false := by
    rw [Stream.Selection.newSelection_ok written]
    rfl
  left
  unfold selectionWithSize at sized
  rw [dash] at sized
  exact congrArg some (congrArg ExecutionSelection.mk sized)

theorem dashOffer_selected {mpd : Mpd} {period : Stream.Dash.Period} {choice : Stream.DashTracks}
    (offer : Stream.DashOffer library base mpd decimals period track choice) :
    ∃ selection, track.selection = some selection ∧ @Selected urls base track selection := by
  cases offer with
  | video selected stands built =>
    obtain ⟨selection, written, made⟩ := bind_ok built
    cases made
    exact ⟨selection, rfl, selected_of_dash rfl written⟩
  | audio selected stands built =>
    obtain ⟨selection, written, made⟩ := bind_ok built
    cases made
    exact ⟨selection, rfl, selected_of_dash rfl written⟩

end

variable {manifest : Option Manifest} {candidate listed : Candidate urls} {entry : Entry}
    {request : DownloadRequest urls} {wording : Wording urls} {daemon created : Daemon urls}
    {session : Session urls} {captureId : CandidateId} {chosen : Option CaptureTrackChoice}

variable {decimals : Stream.Decimals} {library : UrlJoins urls}

/-- A track has a selector that names it at the manifest's URL, or no selector. -/
theorem inspect_track {base : Url} {track : PresentationTrack}
    (parsed : urls.parse base.serialization = some base)
    (member : track ∈ (inspect library decimals base manifest).getD []) :
    urls.parse track.url.serialization = some track.url ∧
      ∀ selection ∈ track.selection, @Selected urls base track selection := by
  cases manifest with
  | none => cases member
  | some manifest =>
    cases manifest with
    | media playlist =>
      have only : track = Stream.describedPlaylist library.toUrlLibrary decimals base
          (.media playlist) := List.mem_singleton.mp member
      have plain : track.url = base ∧ track.selection = none := by
        rw [only]
        unfold Stream.describedPlaylist
        split <;> exact ⟨rfl, rfl⟩
      rw [plain.1, plain.2]
      exact ⟨parsed, fun selection absent => absurd absent (by simp)⟩
    | master playlist fits =>
      cases chosen : track.selection with
      | some selection =>
        obtain ⟨index, variant, audio, found, offered, built⟩ :=
          Stream.built_from member chosen
        obtain ⟨other, same, selected⟩ :=
          @describedVariant_selected urls _ _ _ _ _ _ _ fits found offered built
        rw [selected.url]
        refine ⟨parsed, ?_⟩
        intro given given'
        cases given'
        cases same.symm.trans chosen
        exact selected
      | none =>
        refine ⟨?_, fun selection absent => absurd absent (by simp)⟩
        rcases List.mem_append.mp ((List.mem_insertionSort _).mp member) with offered | rendition
        · obtain ⟨added, grown, sub⟩ :=
            Stream.describeVariants_sublist decimals base playlist playlist.variants.zipIdx []
          rw [grown, List.nil_append] at offered
          obtain ⟨indexed, placed, offered⟩ := List.mem_flatMap.mp (sub.subset offered)
          obtain ⟨audio, _, built⟩ := List.mem_filterMap.mp offered
          obtain ⟨selection, selected, _⟩ := Stream.describedVariant_eq_some built
          rw [selected] at chosen
          cases chosen
        · obtain ⟨other, _, built⟩ := List.mem_filterMap.mp rendition
          unfold Stream.describedRendition at built
          obtain ⟨_, _, built⟩ := Option.bind_eq_some_iff.mp built
          obtain ⟨_, _, built⟩ := Option.bind_eq_some_iff.mp built
          obtain ⟨url, joined, built⟩ := Option.bind_eq_some_iff.mp built
          cases built
          exact library.joined joined
    | dash mpd =>
      change track ∈ ((inspectMpd library.toUrlLibrary base mpd decimals).toOption).getD []
        at member
      cases inspected : inspectMpd library.toUrlLibrary base mpd decimals with
      | error e =>
        rw [inspected] at member
        cases member
      | ok tracks =>
        rw [inspected] at member
        obtain ⟨period, _, _, offers, _⟩ := Stream.inspectMpd_offers inspected
        obtain ⟨choice, offer⟩ := offers track member
        obtain ⟨selection, chosen, selected⟩ := @dashOffer_selected urls _ _ _ _ _ _ _ offer
        rw [selected.url, chosen]
        refine ⟨parsed, ?_⟩
        intro given same
        cases same
        exact selected

/-! ## What a format chooses -/

/-- The choice of the capture itself, where a filename is asked for. -/
def wholeChoice (candidate : Candidate urls) (filename : Option String) :
    Option CaptureTrackChoice :=
  filename.map fun filename => ⟨candidate.url.1.serialization, some filename, none⟩

theorem captureChoice_best (candidate : Candidate urls) (filename : Option String) :
    captureChoice candidate (some "best".toList) filename =
      .ok (wholeChoice candidate filename) := rfl

theorem captureChoice_track (candidate : Candidate urls) (index : Text) (filename : Option String) :
    captureChoice candidate (some ("track:".toList ++ index)) filename =
      .ok (wholeChoice candidate filename) := rfl

theorem captureChoice_selection (candidate : Candidate urls) (selection : Text)
    (filename : Option String) :
    captureChoice candidate (some ("selection:".toList ++ selection)) filename =
      .ok (some ⟨candidate.url.1.serialization, filename, some selection⟩) := rfl

variable {choice : Option CaptureTrackChoice}

theorem captureChoice_variant {filename : Option String}
    (h : captureChoice candidate (some ("variant:".toList ++ ofNat index)) filename = .ok choice) :
    ∃ variant, candidate.variants[index]? = some variant ∧
      choice = some ⟨variant.url.1.serialization, filename, none⟩ := by
  rw [captureChoice_indexed] at h
  cases parsed : parseU64 (ofNat index) with
  | none =>
    rw [parsed] at h
    cases h
  | some other =>
    rw [parsed] at h
    rw [parseUnsigned_ofNat_eq parsed] at h
    dsimp only at h
    cases found : candidate.variants[index]? with
    | none =>
      rw [found] at h
      cases h
    | some variant =>
      rw [found] at h
      cases h
      exact ⟨variant, rfl, rfl⟩

/-- The variant list still has the entry's URL at the entry's index, and an entry of the
manifest is at the URL of the capture. -/
def Stands (listed chosen : Candidate urls) (index : Nat) (entry : Entry) : Prop :=
  if listed.kind = .file ∧ listed.variants ≠ [] then
    ∃ variant, chosen.variants[index]? = some variant ∧ variant.url.1 = entry.url
  else entry.url = chosen.url.1

/-- What is downloaded for a choice, beside what the entry described. -/
structure Matches (listed : Candidate urls) (index : Nat) (entry : Entry)
    (request : DownloadRequest urls) (choice : Option CaptureTrackChoice) : Prop where
  url : request.selectedUrl choice = entry.url ↔ Stands listed request.candidate index entry
  selection : ∀ chosen : Option ExecutionSelection,
    chosen.map (·.value) = DownloadRequest.chosenSelection choice →
      SameTrack chosen entry.selection
  engine : ∀ engine, captureEngine request.candidate = .ok engine → engine = entry.engine

theorem selectedUrl_whole (request : DownloadRequest urls) (filename : Option String) :
    request.selectedUrl (wholeChoice request.candidate filename) = request.candidate.url.1 := by
  cases filename with
  | none => rfl
  | some filename =>
    simp [DownloadRequest.selectedUrl, wholeChoice, parseUrl_serialization]

theorem chosenSelection_whole (candidate : Candidate urls) (filename : Option String) :
    DownloadRequest.chosenSelection (wholeChoice candidate filename) = none := by
  cases filename <;> rfl

/-- A choice of the capture itself. -/
theorem Matches.whole {filename : Option String}
    (plain : ¬ (listed.kind = .file ∧ listed.variants ≠ [])) (unselected : entry.selection = none)
    (engine : ∀ engine, captureEngine request.candidate = .ok engine → engine = entry.engine) :
    Matches listed index entry request (wholeChoice request.candidate filename) where
  url := by
    rw [selectedUrl_whole, Stands, if_neg plain]
    exact eq_comm
  selection := by
    intro chosen same
    rw [chosenSelection_whole] at same
    rw [Option.map_eq_none_iff.mp same, unselected]
    exact .inl rfl
  engine := engine

theorem captureEngine_stream (stream : candidate.kind = .hls ∨ candidate.kind = .dash)
    (h : captureEngine candidate = .ok engine) : engine = .stream := by
  unfold captureEngine at h
  rcases stream with kind | kind
  all_goals
    rw [kind] at h
    simp only at h
    split at h
    · cases h
      rfl
    · cases h

theorem captureEngine_plain (plain : ¬ (candidate.kind = .hls ∨ candidate.kind = .dash))
    (h : captureEngine candidate = .ok engine) : engine = .http := by
  unfold captureEngine at h
  rcases not_or.mp plain with ⟨hls, dash⟩
  cases kind : candidate.kind
  case file =>
    rw [kind] at h
    cases h
    rfl
  case hls => exact absurd kind hls
  case dash => exact absurd kind dash
  case unknown =>
    rw [kind] at h
    cases h

theorem listedFormats_of_ok {directory : Option String}
    {inspected : Option (List PresentationTrack)} {response : FormatsResponse}
    (listing : formatsForCandidate wording directory listed inspected = .ok response) :
    listedFormats wording listed inspected = some response.formats := by
  unfold formatsForCandidate at listing
  split at listing
  · cases listing
  · cases listing
  · rename_i formats _ found
    cases listing
    exact found

/-- A format that was listed for a capture chooses what it described, where the entry
stands. -/
theorem listed_choice {directory : Option String} {response : FormatsResponse}
    (listing : formatsForCandidate wording directory listed
      (inspect library decimals listed.url.1 manifest) = .ok response) {format : MediaFormat}
    (shown : response.formats[index]? = some format)
    (described : (formatEntries listed (inspect library decimals listed.url.1 manifest))[index]? =
      some entry) (same : listed.SameAs request.candidate)
    (asked : request.format = some format.format)
    (chosen : captureChoice request.candidate request.format request.filename = .ok choice) :
    Matches listed index entry request choice := by
  have formats := listedFormats_of_ok listing
  rw [asked] at chosen
  unfold formatEntries at described
  unfold listedFormats at formats
  split at formats
  · rename_i direct
    rw [if_pos direct, List.getElem?_map] at described
    obtain ⟨variant, found, made⟩ := Option.map_eq_some_iff.mp described
    rw [← Option.some.inj formats, List.getElem?_map, List.getElem?_zipIdx, found] at shown
    cases shown
    obtain ⟨other, there, same'⟩ := captureChoice_variant (by simpa [variantFormat] using chosen)
    have named : request.selectedUrl choice = other.url.1 := by
      simp [same', DownloadRequest.selectedUrl, parseUrl_serialization]
    refine ⟨?_, ?_, ?_⟩
    · rw [named, Stands, if_pos direct]
      constructor
      · intro url
        exact ⟨other, there, url⟩
      · rintro ⟨another, found', url⟩
        cases there.symm.trans found'
        exact url
    · intro chosen' none
      rw [same'] at none
      rw [Option.map_eq_none_iff.mp none, ← made]
      exact .inl rfl
    · intro engine fits
      rw [← made]
      apply captureEngine_plain _ fits
      rw [← same.kind, direct.1]
      simp
  · rename_i direct
    rw [if_neg direct] at described
    split at formats
    · rename_i stream
      have engine : ∀ engine, captureEngine request.candidate = .ok engine → engine = .stream :=
        fun engine fits => captureEngine_stream (by rw [← same.kind]; exact stream) fits
      rw [if_pos stream, List.getElem?_map] at described
      obtain ⟨tracks, inspected, made⟩ := Option.map_eq_some_iff.mp formats
      rw [inspected, Option.getD_some] at described
      obtain ⟨track, found, made'⟩ := Option.map_eq_some_iff.mp described
      rw [← made, List.getElem?_map, List.getElem?_zipIdx, found] at shown
      cases shown
      have member : track ∈ (inspect library decimals listed.url.1 manifest).getD [] := by
        rw [inspected]
        exact List.mem_of_getElem? found
      obtain ⟨_, selected⟩ := inspect_track listed.url.2 member
      cases selector : track.selection with
      | none =>
        simp only [trackFormat, selector] at chosen
        rw [captureChoice_track] at chosen
        cases chosen
        apply Matches.whole direct
        · rw [← made']
          exact selector
        · intro engine' fits
          rw [← made']
          exact engine engine' fits
      | some selection =>
        have atBase := selected selection selector
        simp only [trackFormat, selector] at chosen
        rw [captureChoice_selection] at chosen
        cases chosen
        refine ⟨?_, ?_, ?_⟩
        · simp only [Stands, if_neg direct, DownloadRequest.selectedUrl, Option.bind_some,
            parseUrl_serialization, Option.getD_some]
          exact eq_comm
        · intro chosen' given
          obtain ⟨taken, present, value⟩ := Option.map_eq_some_iff.mp given
          rw [present, ← made', trackEntry, selector]
          exact atBase.sized listed value
        · intro engine' fits
          rw [← made']
          exact engine engine' fits
    · rename_i stream
      rw [if_neg stream] at described
      rw [← Option.some.inj formats] at shown
      cases index with
      | zero =>
        cases shown
        cases described
        simp only [bestFormat] at chosen
        rw [captureChoice_best] at chosen
        cases chosen
        apply Matches.whole direct rfl
        intro engine fits
        exact captureEngine_plain (by rw [← same.kind]; exact stream) fits
      | succ index => cases described

/-! ## Running workers -/

/-- Only workers of jobs the daemon knows are running. -/
def Daemon.Tracked (daemon : Daemon urls) : Prop :=
  ∀ id, daemon.activeJobs id ≠ none → ∃ job ∈ daemon.jobs, job.id = id

theorem Daemon.active_create {download : NewDownload}
    (h : daemon.create download answer = some (id, created)) :
    created.activeJobs = daemon.activeJobs := by
  obtain ⟨_, _, same⟩ := Daemon.create_eq_some h
  rw [same]

theorem Daemon.active_downloadCapture
    (h : daemon.downloadCapture wording captureId directory chosen answer = .ok (id, created)) :
    created.activeJobs = daemon.activeJobs := by
  obtain ⟨_, _, _, _, _, _, _, inserted, _, _, _, _, _, made, same⟩ := Daemon.downloadCapture_ok h
  rw [same]
  change inserted.activeJobs = _
  exact Daemon.active_create made

theorem Handled.active {after : Daemon urls} {reply : Except Refusal DownloadId}
    (handled : Handled wording daemon request answer reply after) :
    after.activeJobs = daemon.activeJobs := by
  cases handled with
  | refused message => rfl
  | existing choice job chosen found => rfl
  | created choice directory id created chosen absent made =>
    exact Daemon.active_downloadCapture made

/-- A step starts workers of known jobs only. -/
theorem Session.active_step {next : Session urls} {event : Event urls}
    (stepped : session.step wording event = some next) (active : next.daemon.activeJobs id ≠ none) :
    session.daemon.activeJobs id ≠ none ∨ ∃ job ∈ session.daemon.jobs, job.id = id := by
  cases event with
  | reported report | removed id | cleared =>
    obtain ⟨catalog, channel, same⟩ := Option.map_eq_some_iff.mp stepped
    rw [← same] at active
    exact .inl active
  | stopped =>
    cases stepped
    exact .inl active
  | requested request =>
    simp only [Session.step] at stepped
    split at stepped
    · cases stepped
      exact .inl active
    · cases stepped
  | handled answer =>
    simp only [Session.step] at stepped
    split at stepped
    · cases stepped
    · rename_i request requests waiting
      cases stepped
      rw [(handled_cases wording session.daemon request answer).active] at active
      exact .inl active
  | downloaded captureId directory track answer =>
    cases stepped
    simp only [Daemon.downloaded] at active
    split at active
    · rename_i made
      rw [Daemon.active_downloadCapture made] at active
      exact .inl active
    · exact .inl active
  | commanded download engine answer =>
    cases stepped
    simp only [Daemon.commanded] at active
    split at active
    · exact .inl active
    · rename_i made
      rw [Daemon.active_create made] at active
      exact .inl active
  | changed job =>
    cases stepped
    exact .inl active
  | scheduled job =>
    simp only [Session.step] at stepped
    split at stepped
    · rename_i waiting
      cases stepped
      by_cases same : id = job.id
      · exact .inr ⟨job, waiting.1, same.symm⟩
      · simp only [Daemon.scheduled, if_neg same] at active
        exact .inl active
    · cases stepped
  | finished other =>
    cases stepped
    by_cases same : id = other
    · simp [Daemon.finished, same] at active
    · simp only [Daemon.finished, if_neg same] at active
      exact .inl active

theorem Kept.mem {before after : List DownloadJob} (kept : Kept before after)
    (h : ∃ job ∈ before, job.id = id) : ∃ job ∈ after, job.id = id := by
  obtain ⟨job, member, same⟩ := h
  obtain ⟨other, inside, requests⟩ := List.mem_map.mp (kept (List.mem_map_of_mem member))
  exact ⟨other, inside, (congrArg Prod.fst requests).trans same⟩

theorem Session.tracked_run {final : Session urls} {events : List (Event urls)}
    (tracked : session.daemon.Tracked) (sound : session.Sound)
    (room : Machine.Meets (Session.step wording) Unsaturated session events)
    (ran : Machine.run (Session.step wording) session events = some final) :
    final.daemon.Tracked := by
  have both : final.daemon.Tracked ∧ final.Sound := by
    apply Machine.invariant_of_meets (I := fun state => state.daemon.Tracked ∧ state.Sound) _
      ⟨tracked, sound⟩ room ran
    intro state event next ⟨tracked, sound⟩ unsaturated stepped
    obtain ⟨kept, renewed⟩ := sound.step unsaturated stepped
    refine ⟨fun id active => ?_, kept⟩
    rcases Session.active_step stepped active with before | known
    · exact renewed.kept.mem (tracked id before)
    · exact renewed.kept.mem known
  exact both.1

/-! ## What is downloaded -/

theorem downloads_existing (distinct : (daemon.jobs.map (·.id)).Nodup) {job : DownloadJob}
    (member : job ∈ daemon.jobs) (entry : Entry) :
    Downloads daemon job.id entry ↔ job.request.url = entry.url ∧
      SameTrack job.request.selection entry.selection ∧ daemon.engineOf job = entry.engine := by
  constructor
  · rintro ⟨other, inside, same, described⟩
    rw [← same_job distinct inside member same]
    exact described
  · intro described
    exact ⟨job, member, rfl, described⟩

/-- A created download is of the URL and the selection it was created with, by the engine of
its capture. -/
theorem downloads_created (tracked : daemon.Tracked)
    (h : daemon.downloadCapture wording captureId directory chosen answer = .ok (id, created)) :
    ∃ catalog candidate engine url filename selection, daemon.capture = some catalog ∧
      catalog.get captureId = some candidate ∧ captureEngine candidate = .ok engine ∧
      Daemon.chosenTrack candidate chosen = .ok (url, filename, selection) ∧
      ∀ entry, Downloads created id entry ↔
        url = entry.url ∧ SameTrack selection entry.selection ∧ engine = entry.engine := by
  obtain ⟨catalog, candidate, engine, url, filename, selection, download, inserted, channel, got,
    fits, chosen, context, made, same⟩ := Daemon.downloadCapture_ok h
  obtain ⟨fresh, createdAt, inserted'⟩ := Daemon.create_eq_some made
  have others := Daemon.not_mem_of_job fresh
  have idle : daemon.activeJobs id = none := by
    by_contra active
    obtain ⟨job, member, same⟩ := tracked id active
    exact others job member same
  have jobs : created.jobs = daemon.jobs.orderedInsert (fun a b => a.id.value ≤ b.id.value)
      (.new id download createdAt) := by
    rw [same, inserted']
    rfl
  have engines : created.engineOf (.new id download createdAt) = engine := by
    have none_active : created.activeJobs id = none := by
      rw [same, inserted']
      exact idle
    have pending : created.pendingEngines id = some engine := by
      rw [same]
      exact if_pos rfl
    change ((created.activeJobs id).or (created.pendingEngines id)).getD _ = engine
    rw [none_active, pending]
    rfl
  refine ⟨catalog, candidate, engine, url, filename, selection, channel, got, fits, chosen, ?_⟩
  intro entry
  constructor
  · rintro ⟨job, member, sameId, sameUrl, sameTrack, sameEngine⟩
    rw [jobs] at member
    rcases mem_inserted.mp member with new | old
    · rw [new] at sameUrl sameTrack sameEngine
      rw [engines] at sameEngine
      simp only [DownloadJob.new, context] at sameUrl sameTrack
      exact ⟨sameUrl, sameTrack, sameEngine⟩
    · exact absurd sameId (others job old)
  · rintro ⟨sameUrl, sameTrack, sameEngine⟩
    refine ⟨DownloadJob.new id download createdAt, ?_, rfl, ?_, ?_, engines.trans sameEngine⟩
    · rw [jobs]
      exact mem_inserted.mpr (.inl rfl)
    · simpa only [DownloadJob.new, context] using sameUrl
    · simpa only [DownloadJob.new, context] using sameTrack

theorem url_of_downloads (h : Downloads daemon id entry) :
    entry.url ∈ daemon.jobs.map (·.request.url) := by
  obtain ⟨job, member, _, url, _⟩ := h
  rw [← url]
  exact List.mem_map_of_mem member

/-- The download a request would be answered with instead is of what the entry described. -/
def Unhindered (daemon : Daemon urls) (entry : Entry) : Prop :=
  ∀ job ∈ daemon.jobs.find? (alreadyActive entry.url),
    SameTrack job.request.selection entry.selection ∧ daemon.engineOf job = entry.engine

/-- A request whose choice matches an entry downloads it where the entry stands and no other
download of its URL answers the request. -/
theorem handled_downloads (sound : session.Sound) (tracked : session.daemon.Tracked)
    (waiting : request ∈ session.requests)
    (matching : ∀ choice, captureChoice request.candidate request.format request.filename =
      .ok choice → Matches listed index entry request choice)
    (replied : (handleDownloadRequested wording session.daemon request answer).1 = .ok id) :
    Downloads (handleDownloadRequested wording session.daemon request answer).2 id entry ↔
      Stands listed request.candidate index entry ∧ Unhindered session.daemon entry := by
  have handled := handled_cases wording session.daemon request answer
  generalize (handleDownloadRequested wording session.daemon request answer).1 = reply
    at handled replied
  generalize (handleDownloadRequested wording session.daemon request answer).2 = after at handled ⊢
  cases handled with
  | refused message => cases replied
  | existing choice job chosen found =>
    cases replied
    have matched := matching choice chosen
    have active := List.find?_some found
    simp only [alreadyActive, Bool.and_eq_true, decide_eq_true_eq] at active
    rw [downloads_existing sound.distinct (List.mem_of_find?_eq_some found), active.1,
      matched.url]
    constructor
    · rintro ⟨stands, described⟩
      refine ⟨stands, ?_⟩
      intro other first
      rw [← matched.url.mpr stands, found] at first
      cases first
      exact described
    · rintro ⟨stands, free⟩
      refine ⟨stands, free job ?_⟩
      rw [← matched.url.mpr stands]
      exact found
  | created choice directory id created chosen absent made =>
    cases replied
    have matched := matching choice chosen
    obtain ⟨catalog, candidate, engine, url, filename, selection, channel, got, fits, tracks,
      downloads⟩ := downloads_created tracked made
    obtain ⟨ids, inside⟩ := Catalog.get_eq_some got
    have alike := sound.same candidate
      (by rw [known_of_capture channel]; exact List.mem_append_left _ inside) request.candidate
      (List.mem_append_right _ (List.mem_map_of_mem waiting)) ids
    obtain ⟨forUrl, forSelection⟩ := chosenTrack_ok alike.url chosen tracks
    have sameEngine : engine = entry.engine := by
      apply matched.engine
      rw [← fits]
      unfold captureEngine
      rw [alike.kind, alike.url]
    rw [downloads, forUrl, matched.url]
    constructor
    · rintro ⟨stands, _⟩
      refine ⟨stands, ?_⟩
      intro other first
      rw [← matched.url.mpr stands, absent] at first
      cases first
    · rintro ⟨stands, _⟩
      exact ⟨stands, matched.selection selection forSelection, sameEngine⟩

theorem Daemon.captured_ok {id : CandidateId} (h : daemon.captured id = .ok (candidate, engine)) :
    ∃ catalog, daemon.capture = some catalog ∧ catalog.get id = some candidate ∧
      captureEngine candidate = .ok engine := by
  unfold Daemon.captured Daemon.captureHandle at h
  cases channel : daemon.capture with
  | none =>
    rw [channel] at h
    cases h
  | some catalog =>
    rw [channel, ok_bind] at h
    split at h
    · cases h
    · rename_i other got
      obtain ⟨engine', fits, h⟩ := bind_ok h
      cases h
      exact ⟨catalog, rfl, got, fits⟩

/-- What a track of the desktop's list is shown as. -/
structure Shown (candidate : Candidate urls) (view : CaptureTrackView) (entry : Entry) : Prop where
  url : view.url = entry.url.serialization
  parsed : urls.parse entry.url.serialization = some entry.url
  selection : view.selection = entry.selection.map (·.value)
  engine : entry.engine = .http ↔ candidate.variants ≠ []

theorem inspectCapture_shown {filename : PresentationTrack → Option String} {id : CandidateId}
    {views : List CaptureTrackView} (captured : daemon.captured id = .ok (candidate, engine))
    (h : inspectCapture library decimals wording filename daemon id manifest = .ok views)
    {view : CaptureTrackView} (shown : views[index]? = some view)
    (described : (trackEntries library decimals candidate manifest)[index]? = some entry) :
    Shown candidate view entry := by
  unfold inspectCapture at h
  rw [captured, ok_bind] at h
  simp only at h
  unfold trackEntries at described
  split at h
  · rename_i direct
    rw [if_pos direct, List.getElem?_map] at described
    cases h
    obtain ⟨variant, found, made⟩ := Option.map_eq_some_iff.mp described
    rw [List.getElem?_map, found] at shown
    cases shown
    rw [← made]
    exact ⟨rfl, variant.url.2, rfl, Iff.intro (fun _ => direct) (fun _ => rfl)⟩
  · rename_i direct
    rw [if_neg direct, List.getElem?_map] at described
    cases h
    obtain ⟨track, found, made⟩ := Option.map_eq_some_iff.mp described
    rw [List.getElem?_map, found] at shown
    cases shown
    rw [← made]
    refine ⟨rfl, (inspect_track candidate.url.2 (List.mem_of_getElem? found)).1, rfl, ?_⟩
    constructor
    · intro http
      cases http
    · intro variants
      exact absurd variants direct

theorem captureEngine_http (h : captureEngine candidate = .ok engine) :
    engine = .http ↔ candidate.kind = .file := by
  unfold captureEngine at h
  split at h
  · rename_i file
    cases h
    exact ⟨fun _ => file, fun _ => rfl⟩
  · rename_i stream
    split at h
    · cases h
      rw [stream]
      simp
    · cases h
  · rename_i stream
    split at h
    · cases h
      rw [stream]
      simp
    · cases h
  · cases h

/-- A track chosen from the desktop's list is downloaded by its own URL and selector; the
engine is that of the capture. -/
theorem shown_downloads (tracked : session.daemon.Tracked) {view : CaptureTrackView}
    (shown : Shown listed view entry)
    (same : ∀ c ∈ session.known, listed.id = c.id → listed.SameAs c) {name : Option String}
    {after : Daemon urls} (h : session.daemon.downloadCapture wording listed.id directory
      (some ⟨view.url, name, view.selection⟩) answer = .ok (id, after)) :
    Downloads after id entry ↔ (listed.variants ≠ [] ↔ listed.kind = .file) := by
  obtain ⟨catalog, candidate, engine, url, filename, selection, channel, got, fits, chosen,
    downloads⟩ := downloads_created tracked h
  obtain ⟨ids, inside⟩ := Catalog.get_eq_some got
  have alike := same candidate
    (by rw [known_of_capture channel]; exact List.mem_append_left _ inside) ids.symm
  have engines : engine = .http ↔ listed.kind = .file := by
    rw [alike.kind]
    exact captureEngine_http fits
  simp only [Daemon.chosenTrack] at chosen
  obtain ⟨valid, checked, chosen⟩ := bind_ok chosen
  obtain ⟨selected, parsed, chosen⟩ := bind_ok chosen
  cases chosen
  rw [shown.url] at checked
  have sameUrl := @validateUrl_serialization urls ⟨entry.url, shown.parsed⟩ valid checked
  have sameSelection : selection = entry.selection := by
    have texts := (validSelection_ok parsed).trans shown.selection
    exact Option.map_injective (fun a b value => congrArg ExecutionSelection.mk value) texts
  rw [downloads entry, sameUrl, sameSelection, ← shown.engine, ← engines]
  constructor
  · rintro ⟨_, _, fit⟩
    rw [fit]
  · intro fit
    refine ⟨rfl, Or.inl rfl, ?_⟩
    cases kind : engine <;> cases wanted : entry.engine <;> simp_all

/-- In every run, choosing a format that was listed for the extension downloads what it
described exactly where its entry stands and no other active download of its URL is
answered; choosing a track of the desktop's list exactly where the capture is a file
downloaded by its variants, or neither. -/
theorem chosen_format {wording : Wording urls} (library : UrlJoins urls)
    (decimals : Stream.Decimals) {jobs : List DownloadJob} (distinct : (jobs.map (·.id)).Nodup)
    (capacity : Nat) {before later : List (Event urls)} {listing final : Session urls}
    (ran : Machine.run (Session.step wording) (Session.start jobs capacity) before = some listing)
    (ranOn : Machine.run (Session.step wording) listing later = some final)
    (room : Machine.Meets (Session.step wording) Unsaturated (Session.start jobs capacity) before)
    (roomOn : Machine.Meets (Session.step wording) Unsaturated listing later)
    (manifest : Option Manifest) :
    (∀ listed ∈ listing.known, ∀ directory response,
      formatsForCandidate wording directory listed
        (inspect library decimals listed.url.1 manifest) = .ok response →
      ∀ index format entry, response.formats[index]? = some format →
        (formatEntries listed (inspect library decimals listed.url.1 manifest))[index]? =
          some entry →
      ∀ request ∈ final.requests.head?, request.candidate.id = response.captureId →
        request.format = some format.format →
      ∀ answer id, (handleDownloadRequested wording final.daemon request answer).1 = .ok id →
        (Downloads (handleDownloadRequested wording final.daemon request answer).2 id entry ↔
          Stands listed request.candidate index entry ∧ Unhindered final.daemon entry)) ∧
    (∀ filename id listed engine views, listing.daemon.captured id = .ok (listed, engine) →
      inspectCapture library decimals wording filename listing.daemon id manifest = .ok views →
      ∀ (index : Nat) view entry, views[index]? = some view →
        (trackEntries library decimals listed manifest)[index]? = some entry →
      ∀ directory name answer job after,
        final.daemon.downloadCapture wording id directory
          (some ⟨view.url, name, view.selection⟩) answer = .ok (job, after) →
        (Downloads after job entry ↔ (listed.variants ≠ [] ↔ listed.kind = .file))) := by
  have idle : (@Session.start urls jobs capacity).daemon.Tracked :=
    fun id active => absurd rfl active
  have first := @sound_start urls jobs distinct capacity
  obtain ⟨sound, _⟩ := first.run room ran
  obtain ⟨soundOn, renewed⟩ := sound.run roomOn ranOn
  have tracked := Session.tracked_run (Session.tracked_run idle first room ran) sound roomOn ranOn
  constructor
  · intro listed known directory response formats index format entry shown described request next
      ids asked answer id replied
    have waiting := List.mem_of_mem_head? next
    have sameId : listed.id = request.candidate.id := by
      rw [ids]
      unfold formatsForCandidate at formats
      split at formats
      · cases formats
      · cases formats
      · cases formats
        rfl
    have alike := renewed.same sound known
      (List.mem_append_right _ (List.mem_map_of_mem waiting)) sameId
    apply handled_downloads soundOn tracked waiting _ replied
    intro choice chosen
    exact listed_choice formats shown described alike asked chosen
  · intro filename id listed engine views captured views_ index view entry shown described
      directory name answer job after made
    obtain ⟨catalog, channel, got, _⟩ := Daemon.captured_ok captured
    obtain ⟨ids, inside⟩ := Catalog.get_eq_some got
    have known : listed ∈ listing.known := by
      rw [known_of_capture channel]
      exact List.mem_append_left _ inside
    rw [← ids] at made
    apply shown_downloads tracked (inspectCapture_shown captured views_ shown described) _ made
    intro candidate later ids'
    exact renewed.same sound known later ids'

/-! ## Two reports of a page -/

def cdnJoins : UrlJoins cdnCrate where
  join _ _ := none
  scheme := cdnCrate.scheme
  path := cdnCrate.path
  joined := by
    intro base url text joins
    cases joins

def pageUrl : ParsedUrl cdnCrate := ⟨⟨"https://cdn.example/watch".toList⟩, by decide⟩

def lowUrl : ParsedUrl cdnCrate := ⟨⟨"https://cdn.example/low.mp4".toList⟩, by decide⟩

def highUrl : ParsedUrl cdnCrate := ⟨⟨"https://cdn.example/high.mp4".toList⟩, by decide⟩

/-- The page with one quality it can be downloaded in. -/
def pageReport (url : ParsedUrl cdnCrate) : Report cdnCrate where
  url := pageUrl
  kind := .file
  contentType := none
  sizeBytes := none
  pageUrl := pageUrl.1
  pageTitle := none
  filename := none
  variants := [⟨url, none, none, none, none, MediaVariant.unsized⟩]

/-- The first format of the page is asked for, as the page was reported last. -/
def firstFormat (url : ParsedUrl cdnCrate) : DownloadRequest cdnCrate :=
  ⟨(pageReport url).candidate 0, some "variant:0".toList, none, none⟩

theorem other_variant_downloaded :
    ∃ listing final response,
      Machine.run (Session.step plainWording) (Session.start [] 256)
        [.reported (pageReport lowUrl)] = some listing ∧
      (pageReport lowUrl).candidate 0 ∈ listing.known ∧
      formatsForCandidate plainWording none ((pageReport lowUrl).candidate 0)
        (inspect cdnJoins Stream.sampleDecimals pageUrl.1 none) = .ok response ∧
      response.formats.map (·.format) = [ "variant:0".toList] ∧
      (formatEntries ((pageReport lowUrl).candidate 0)
        (inspect cdnJoins Stream.sampleDecimals pageUrl.1 none))[0]? =
          some ⟨lowUrl.1, none, .http⟩ ∧
      Machine.run (Session.step plainWording) listing
        [.reported (pageReport highUrl), .requested (firstFormat highUrl)] = some final ∧
      final.requests.head? = some (firstFormat highUrl) ∧
      (handleDownloadRequested plainWording final.daemon (firstFormat highUrl)
        (some firstJob)).1 = .ok firstJob.1 ∧
      ¬ Downloads (handleDownloadRequested plainWording final.daemon (firstFormat highUrl)
        (some firstJob)).2 firstJob.1 ⟨lowUrl.1, none, .http⟩ := by
  refine ⟨_, _, _, rfl, List.mem_cons_self, rfl, rfl, rfl, rfl, rfl, rfl, ?_⟩
  intro downloads
  exact absurd (url_of_downloads downloads) (by decide +kernel)

/-- The same page chosen before it is reported again. -/
theorem listed_variant_downloaded :
    ∃ final, Machine.run (Session.step plainWording) (Session.start [] 256)
        [.reported (pageReport lowUrl), .requested (firstFormat lowUrl)] = some final ∧
      Downloads (handleDownloadRequested plainWording final.daemon (firstFormat lowUrl)
        (some firstJob)).2 firstJob.1 ⟨lowUrl.1, none, .http⟩ := by
  have none_stored : (([] : List DownloadJob).map (·.id)).Nodup := List.nodup_nil
  refine ⟨_, rfl, ?_⟩
  have chosen := (@chosen_format cdnCrate plainWording cdnJoins Stream.sampleDecimals [] none_stored
    256 [.reported (pageReport lowUrl)] [.requested (firstFormat lowUrl)] _ _ rfl rfl
    (by decide +kernel) (by decide +kernel) none).1
  exact (chosen ((pageReport lowUrl).candidate 0) List.mem_cons_self none _ rfl 0 _ _ rfl rfl
    (firstFormat lowUrl) rfl rfl rfl (some firstJob) firstJob.1 rfl).mpr
    ⟨⟨_, rfl, rfl⟩, fun job none_ => by cases none_⟩

end Gunda.Gundad

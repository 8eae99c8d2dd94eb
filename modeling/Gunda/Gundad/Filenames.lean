import Gunda.Gundad.Duplicates
import Gunda.Http.Resumption
import Gunda.Stream.Outputs

/-!
# Names of captures

The names that `gundad/src/lib.rs` derives for a capture, and when they can be published.
-/
namespace Gunda.Gundad

open Gunda.Lib Gunda.Lib.Text
open Gunda.Core (Url)
open Gunda.Stream (Container pathExtension fileStem outputFilename byteLength_extended
  clean_extended_iff outputFilename_valid_iff)
open Gunda.Http (validateFilename validateFilename_ok_iff urlFilename titleFilename
  titleFilename_valid Suffix Clean)

/-! ## Extensions -/

def filenameExtension (filename : String) : Option Text := pathExtension filename.toList

def contentTypes : List (String × String) :=
  [("video/mp4", "mp4"), ("video/webm", "webm"), ("video/quicktime", "mov"),
    ("video/x-flv", "flv"), ("video/flv", "flv"), ("video/x-msvideo", "avi"),
    ("video/avi", "avi"), ("video/x-ms-wmv", "wmv"), ("video/wmv", "wmv"), ("video/mpeg", "mpg"),
    ("video/3gpp", "3gp"), ("video/ogg", "ogv"), ("audio/mp4", "m4a"), ("audio/x-m4a", "m4a"),
    ("audio/mpeg", "mp3"), ("audio/aac", "aac"), ("audio/ogg", "ogg"), ("audio/opus", "opus"),
    ("audio/flac", "flac"), ("audio/wav", "wav"), ("audio/x-wav", "wav"),
    ("application/pdf", "pdf"), ("application/zip", "zip"),
    ("application/x-zip-compressed", "zip"), ("application/x-7z-compressed", "7z"),
    ("application/x-rar-compressed", "rar"), ("application/vnd.rar", "rar"),
    ("application/gzip", "gz"), ("application/x-gzip", "gz"), ("application/x-tar", "tar"),
    ("application/msword", "doc"),
    ("application/vnd.openxmlformats-officedocument.wordprocessingml.document", "docx"),
    ("application/vnd.ms-excel", "xls"),
    ("application/vnd.openxmlformats-officedocument.spreadsheetml.sheet", "xlsx"),
    ("application/vnd.ms-powerpoint", "ppt"),
    ("application/vnd.openxmlformats-officedocument.presentationml.presentation", "pptx"),
    ("application/epub+zip", "epub"), ("application/vnd.android.package-archive", "apk"),
    ("application/x-iso9660-image", "iso"), ("text/plain", "txt"), ("text/csv", "csv"),
    ("application/json", "json"), ("application/xml", "xml"), ("text/xml", "xml"),
    ("image/jpeg", "jpg"), ("image/png", "png"), ("image/gif", "gif"), ("image/webp", "webp"),
    ("image/svg+xml", "svg")]

def contentTypeExtension (contentType : String) : Option Text :=
  let essence := toAsciiLowercase (trim ((splitAll ';' contentType.toList).headD []))
  (contentTypes.find? fun known => known.1.toList = essence).map fun known => known.2.toList

section

variable {crate : UrlCrate} (urls : Http.UrlLibrary)

def captureExtension (captured : Candidate crate) (trackFilename : Option String) :
    Option Text :=
  (trackFilename.bind filenameExtension).or <|
    (captured.filename.bind filenameExtension).or <|
      (captured.contentType.bind contentTypeExtension).or <|
        match captured.kind with
        | .hls | .dash => some "mp4".toList
        | .file | .unknown => (urlFilename urls captured.url.1).bind filenameExtension

def suggestedCaptureExtension (candidate : Candidate crate) : Text :=
  match candidate.kind with
  | .hls | .dash => "mp4".toList
  | .file | .unknown =>
      ((candidate.filename.bind filenameExtension).or <|
        (candidate.contentType.bind contentTypeExtension).or <|
          (urlFilename urls candidate.url.1).bind filenameExtension).getD "bin".toList

/-! ## Names -/

/-- There is no result where a slice panics. -/
def titled (title : Option String) (extension : Option Text) : Option (Option String) :=
  match title with
  | some title => titleFilename title.toList extension
  | none => some none

def completed (filename : String) (extension : Option Text) : String :=
  if (pathExtension filename.toList).isSome then filename
  else match extension with
    | some extension => String.ofList (filename.toList ++ '.' :: extension)
    | none => filename

def preferredCaptureFilename (filename pageTitle : Option String) (extension : Option Text) :
    Option (Option String) := do
  match ← titled filename none with
  | some filename => pure (some (completed filename extension))
  | none => match ← titled pageTitle extension with
      | some filename => pure (some filename)
      | none => pure (extension.map fun extension =>
          String.ofList ("download.".toList ++ extension))

/-- What `download_capture` names a capture. -/
def captureFilename (captured : Candidate crate) (trackFilename : Option String) :
    Option (Option String) :=
  preferredCaptureFilename captured.filename captured.pageTitle
    (captureExtension urls captured trackFilename)

/-- What `formats_for_candidate` suggests. -/
def suggestedFilename (candidate : Candidate crate) : Option (Option String) :=
  preferredCaptureFilename candidate.filename candidate.pageTitle
    (some (suggestedCaptureExtension urls candidate))

end

/-! ## Validity -/

/-- There is a result, and a name in it is valid. -/
def Publishable (result : Option (Option String)) : Prop :=
  ∃ name, result = some name ∧ ∀ filename ∈ name, validateFilename filename = .ok ()

/-- The stems that an extension is added to without another look at the name. -/
inductive Unchecked (filename pageTitle : Option String) (extension : Option Text) : Text → Prop
  | captured {name : String} (kept : titled filename none = some (some name))
      (bare : pathExtension name.toList = none) : Unchecked filename pageTitle extension name.toList
  | unnamed (nothing : titled filename none = some none)
      (untitled : titled pageTitle extension = some none) :
      Unchecked filename pageTitle extension "download".toList

/-- An extension can be added to a valid stem. -/
def Fits (stem extension : Text) : Prop :=
  Suffix extension ∧ byteLength stem + 1 + byteLength extension ≤ 200

theorem titled_valid (title : Option String) (extension : Option Text) :
    Publishable (titled title extension) := by
  cases title with
  | none => exact ⟨none, rfl, fun _ none => (nomatch none)⟩
  | some title => exact titleFilename_valid title.toList extension

theorem fits_iff {stem extension : Text} (clean : Clean stem) :
    validateFilename (String.ofList (stem ++ '.' :: extension)) = .ok () ↔ Fits stem extension := by
  rw [validateFilename_ok_iff, String.toList_ofList, clean_extended_iff clean, byteLength_extended]
  exact Iff.rfl

theorem completed_valid_iff {filename : String} (valid : validateFilename filename = .ok ())
    (extension : Option Text) : validateFilename (completed filename extension) = .ok () ↔
      (pathExtension filename.toList = none → ∀ added ∈ extension, Fits filename.toList added) := by
  unfold completed
  cases own : pathExtension filename.toList with
  | some _ => exact iff_of_true valid fun none => (nomatch none)
  | none =>
    cases extension with
    | none => exact iff_of_true valid fun _ _ none => (nomatch none)
    | some added =>
      have fits := @fits_iff _ added (validateFilename_ok_iff.mp valid).1
      simpa only [Option.isSome_none, Bool.false_eq_true, if_false, Option.mem_some_iff, forall_eq',
        forall_const] using fits

theorem publishable_some_iff {name : Option String} :
    Publishable (some name) ↔ ∀ filename ∈ name, validateFilename filename = .ok () := by
  constructor
  · intro h
    obtain ⟨other, same, valid⟩ := h
    cases same
    exact valid
  · exact fun valid => ⟨name, rfl, valid⟩

section

variable {filename pageTitle : Option String} {extension : Option Text}

theorem preferredCaptureFilename_kept {name : String}
    (kept : titled filename none = some (some name)) :
    preferredCaptureFilename filename pageTitle extension =
      some (some (completed name extension)) := by
  unfold preferredCaptureFilename
  rw [kept]
  rfl

theorem preferredCaptureFilename_titled {title : Option String}
    (nothing : titled filename none = some none) (shown : titled pageTitle extension = some title) :
    preferredCaptureFilename filename pageTitle extension =
      some (title.or (extension.map fun added => String.ofList ("download".toList ++ '.' :: added))) := by
  unfold preferredCaptureFilename
  rw [nothing]
  change (titled pageTitle extension).bind _ = _
  rw [shown]
  cases title <;> rfl

/-- A name is valid unless an extension is added that does not fit. -/
theorem preferredCaptureFilename_valid_iff :
    Publishable (preferredCaptureFilename filename pageTitle extension) ↔
      ∀ stem, Unchecked filename pageTitle extension stem →
        ∀ added ∈ extension, Fits stem added := by
  obtain ⟨kept, named, valid⟩ := titled_valid filename none
  cases kept with
  | some name =>
    have whole := completed_valid_iff (valid name rfl) extension
    rw [preferredCaptureFilename_kept named, publishable_some_iff]
    simp only [Option.mem_some_iff, forall_eq']
    rw [whole]
    constructor
    · intro fits stem unchecked
      cases unchecked with
      | captured kept bare =>
        rw [named] at kept
        cases kept
        exact fits bare
      | unnamed nothing =>
        rw [named] at nothing
        cases nothing
    · exact fun fits bare => fits _ (.captured named bare)
  | none =>
    obtain ⟨title, shown, valid⟩ := titled_valid pageTitle extension
    have only {stem : Text} (unchecked : Unchecked filename pageTitle extension stem) :
        title = none ∧ stem = "download".toList := by
      cases unchecked with
      | captured kept bare =>
        rw [named] at kept
        cases kept
      | unnamed nothing untitled =>
        rw [shown] at untitled
        exact ⟨Option.some.inj untitled, rfl⟩
    rw [preferredCaptureFilename_titled named shown, publishable_some_iff]
    cases title with
    | some name =>
      refine iff_of_true valid fun stem unchecked => ?_
      cases (only unchecked).1
    | none =>
      have clean : Clean "download".toList := (validateFilename_ok_iff.mp (by decide)).1
      constructor
      · intro valid stem unchecked added some_
        rw [(only unchecked).2, ← fits_iff clean]
        exact valid _ (Option.mem_map_of_mem _ some_)
      · intro fits other found
        obtain ⟨added, some_, same⟩ := Option.mem_map.mp found
        rw [← same, fits_iff clean]
        exact fits _ (.unnamed named shown) added some_

end

/-- A name that is derived for a stream is valid exactly if its stem leaves room for the
extension of the container, and one that is derived for a capture exactly if the extension fits
whatever stem it is added to unchecked. -/
theorem derived_names_valid_iff (urls : Http.UrlLibrary) :
    (∀ (manifestUrl : Url) (container : Option Container),
      (∀ name ∈ outputFilename urls manifestUrl container, validateFilename name = .ok ()) ↔
        ∀ name ∈ urlFilename urls manifestUrl, byteLength (fileStem name.toList) + 1 +
          byteLength (container.elim "bin".toList Container.extension) ≤ 200) ∧
    (∀ (crate : UrlCrate) (captured : Candidate crate) (trackFilename : Option String),
      Publishable (captureFilename urls captured trackFilename) ↔
        ∀ stem, Unchecked captured.filename captured.pageTitle
            (captureExtension urls captured trackFilename) stem →
          ∀ added ∈ captureExtension urls captured trackFilename, Fits stem added) ∧
    ∀ (crate : UrlCrate) (candidate : Candidate crate),
      Publishable (suggestedFilename urls candidate) ↔
        ∀ stem, Unchecked candidate.filename candidate.pageTitle
            (some (suggestedCaptureExtension urls candidate)) stem →
          Fits stem (suggestedCaptureExtension urls candidate) := by
  refine ⟨outputFilename_valid_iff urls,
    fun crate captured trackFilename => preferredCaptureFilename_valid_iff,
    fun crate candidate => ?_⟩
  rw [suggestedFilename, preferredCaptureFilename_valid_iff]
  simp only [Option.mem_some_iff, forall_eq']

/-! ## A name that is refused -/

def reportCapture : Candidate cdnCrate where
  id := 1
  url := masterUrl
  kind := .file
  contentType := none
  sizeBytes := none
  pageUrl := masterUrl.1
  pageTitle := none
  filename := some "report."
  variants := []

/-- The dot that the name lost is added again, with the empty extension behind it. -/
theorem derived_name_refused :
    captureFilename Http.plainUrls reportCapture none = some (some "report.") ∧
      suggestedFilename Http.plainUrls reportCapture = some (some "report.") ∧
      validateFilename "report." = .error .invalidFilename := by
  decide +kernel

end Gunda.Gundad

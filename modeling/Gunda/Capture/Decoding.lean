import Gunda.Capture.Connections
import Gunda.Capture.Extractor

/-!
# Messages as JSON

How `gunda-capture/src/protocol.rs` reads a message of the extension and writes one to it:
an object whose `kind` names the message, the fields by their names, unknown fields ignored.
The reader of the text itself is a parameter.
-/
namespace Gunda.Capture

open Gunda.Lib Gunda.Lib.Text
open Json (Members)

/-! ## Fields -/

/-- A field that has to be there. -/
def requiredField {α : Type} (read : Json → Option α) (members : Members) (name : String) :
    Option α :=
  (members.get name.toList).bind read

/-- `Option` with a default: a field that is missing or null is none. -/
def optionalField {α : Type} (read : Json → Option α) (members : Members) (name : String) :
    Option (Option α) :=
  match members.get name.toList with
  | none | some .null => some none
  | some value => (read value).map some

def asString (value : Json) : Option String := value.asStr.map String.ofList

def asU32 (value : Json) : Option Nat := value.asU64.filter (· < 2 ^ 32)

/-! ## Messages from the extension -/

namespace ClientMessage

def decodeHello (members : Members) : Option (ClientMessage Json) := do
  let version ← requiredField asU32 members "version"
  let token ← requiredField Json.asStr members "token"
  let agent ← requiredField Json.asStr members "agent"
  pure (.hello version token agent)

def decodeCandidate (members : Members) : Option (ClientMessage Json) := do
  let url ← requiredField Json.asStr members "url"
  let contentType ← optionalField asString members "content_type"
  let sizeBytes ← optionalField Json.asU64 members "size_bytes"
  let pageUrl ← requiredField Json.asStr members "page_url"
  let pageTitle ← optionalField asString members "page_title"
  let filename ← optionalField asString members "filename"
  pure (.candidate url contentType sizeBytes pageUrl pageTitle filename)

def decodeDownloadBrowser (members : Members) : Option (ClientMessage Json) := do
  let url ← requiredField Json.asStr members "url"
  let contentType ← optionalField asString members "content_type"
  let sizeBytes ← optionalField Json.asU64 members "size_bytes"
  let pageUrl ← requiredField Json.asStr members "page_url"
  let pageTitle ← optionalField asString members "page_title"
  let filename ← optionalField asString members "filename"
  let directory ← optionalField asString members "directory"
  pure (.downloadBrowser url contentType sizeBytes pageUrl pageTitle filename directory)

def decodeSource (members : Members) : Option (ClientMessage Json) := do
  let sourceUrl ← requiredField Json.asStr members "source_url"
  let pageUrl ← requiredField Json.asStr members "page_url"
  let pageTitle ← optionalField asString members "page_title"
  let document ← requiredField some members "document"
  pure (.source sourceUrl pageUrl pageTitle document)

def decodeDownloadPage (members : Members) : Option (ClientMessage Json) := do
  let pageUrl ← requiredField Json.asStr members "page_url"
  let captureId ← optionalField Json.asU64 members "capture_id"
  let format ← optionalField asString members "format"
  let directory ← optionalField asString members "directory"
  let filename ← optionalField asString members "filename"
  pure (.downloadPage pageUrl captureId format directory filename)

def decodeListFormats (members : Members) : Option (ClientMessage Json) := do
  let pageUrl ← requiredField Json.asStr members "page_url"
  pure (.listFormats pageUrl)

def decodeDownloadStatus (members : Members) : Option (ClientMessage Json) := do
  let id ← requiredField Json.asU64 members "id"
  pure (.downloadStatus id)

/-- The variants by their tags. -/
def variants : List (Text × (Members → Option (ClientMessage Json))) :=
  [("hello".toList, decodeHello), ("candidate".toList, decodeCandidate),
    ("download_browser".toList, decodeDownloadBrowser), ("source".toList, decodeSource),
    ("download_page".toList, decodeDownloadPage), ("list_formats".toList, decodeListFormats),
    ("download_status".toList, decodeDownloadStatus)]

/-- What `Deserialize` makes of an object whose members have different names. -/
def decode (value : Json) : Option (ClientMessage Json) := do
  let members ← value.asObject
  let kind ← requiredField Json.asStr members "kind"
  let variant ← (variants.find? (·.1 = kind)).map (·.2)
  variant members

/-- The fields of a message, with its kind. -/
def members : ClientMessage Json → Members
  | .hello version token agent =>
      [("kind".toList, .string "hello".toList), ("version".toList, natural version),
        ("token".toList, .string token), ("agent".toList, .string agent)]
  | .candidate url contentType sizeBytes pageUrl pageTitle filename =>
      [("kind".toList, .string "candidate".toList), ("url".toList, .string url),
        ("content_type".toList, text contentType), ("size_bytes".toList, count sizeBytes),
        ("page_url".toList, .string pageUrl), ("page_title".toList, text pageTitle),
        ("filename".toList, text filename)]
  | .downloadBrowser url contentType sizeBytes pageUrl pageTitle filename directory =>
      [("kind".toList, .string "download_browser".toList), ("url".toList, .string url),
        ("content_type".toList, text contentType), ("size_bytes".toList, count sizeBytes),
        ("page_url".toList, .string pageUrl), ("page_title".toList, text pageTitle),
        ("filename".toList, text filename), ("directory".toList, text directory)]
  | .source sourceUrl pageUrl pageTitle document =>
      [("kind".toList, .string "source".toList), ("source_url".toList, .string sourceUrl),
        ("page_url".toList, .string pageUrl), ("page_title".toList, text pageTitle),
        ("document".toList, document)]
  | .downloadPage pageUrl captureId format directory filename =>
      [("kind".toList, .string "download_page".toList), ("page_url".toList, .string pageUrl),
        ("capture_id".toList, count captureId), ("format".toList, text format),
        ("directory".toList, text directory), ("filename".toList, text filename)]
  | .listFormats pageUrl =>
      [("kind".toList, .string "list_formats".toList), ("page_url".toList, .string pageUrl)]
  | .downloadStatus id =>
      [("kind".toList, .string "download_status".toList), ("id".toList, natural id)]
where
  natural (value : Nat) : Json := .number (.unsigned (UInt64.ofNat value))
  count (value : Option Nat) : Json := (value.map natural).getD .null
  text (value : Option String) : Json := (value.map fun text => .string text.toList).getD .null

end ClientMessage

/-- What reads the text of a message; none where it is no JSON. -/
structure SerdeJson where
  fromStr : Text → Option Json

def SerdeJson.parseClientMessage (json : SerdeJson) (text : Text) :
    Except CaptureError (ClientMessage Json) :=
  if MAX_MESSAGE_BYTES < (toUtf8 text).length then .error (.protocol "the message was too large")
  else match (json.fromStr text).bind ClientMessage.decode with
    | some message => .ok message
    | none => .error (.protocol "the message was not valid protocol JSON")

/-! ## Messages to the extension -/

namespace ServerMessage

def id (value : Nat) : Json := .number (.unsigned (UInt64.ofNat value))

def optional (value : Option Text) : Json := (value.map .string).getD .null

def mediaFormat (format : MediaFormat) : Json :=
  .object (("label".toList, .string format.label) ::
    (format.group.map fun group => ("group".toList, Json.string group)).toList ++
    [("details".toList, .string format.details), ("format".toList, .string format.format)])

def status (status : CaptureDownloadStatus) : Json :=
  .object [("id".toList, id status.id), ("name".toList, .string status.name),
    ("state".toList, .string status.state), ("written".toList, id status.written),
    ("total".toList, (status.total.map id).getD .null),
    ("failure".toList, optional status.failure)]

/-- The tag of a message and its fields. -/
def fields : ServerMessage → Text × Members
  | .ready version features =>
      ("ready".toList, ("version".toList, id version) ::
        if features = [] then [] else [("features".toList, .array (features.map .string))])
  | .accepted value => ("accepted".toList, [("id".toList, id value)])
  | .duplicate value => ("duplicate".toList, [("id".toList, id value)])
  | .recorded new known =>
      ("recorded".toList, [("accepted".toList, .array (new.map id)),
        ("duplicates".toList, .array (known.map id))])
  | .downloadQueued value => ("download_queued".toList, [("id".toList, id value)])
  | .pageFormats captureId formats directory filename =>
      ("page_formats".toList, [("capture_id".toList, id captureId),
        ("formats".toList, .array (formats.map mediaFormat)),
        ("directory".toList, optional directory), ("filename".toList, optional filename)])
  | .formatsUnavailable reason =>
      ("formats_unavailable".toList, [("reason".toList, .string reason.text)])
  | .downloadUnavailable reason =>
      ("download_unavailable".toList, [("reason".toList, .string reason.text)])
  | .downloadStatus value => ("download_status".toList, [("status".toList, status value)])
  | .downloadStatusUnavailable reason =>
      ("download_status_unavailable".toList, [("reason".toList, .string reason.text)])
  | .refused reason => ("refused".toList, [("reason".toList, .string reason.text)])
  | .malformed reason => ("malformed".toList, [("reason".toList, .string reason)])

end ServerMessage

/-- `encode_server_message`, before it is written as text. -/
def encodeServerMessage (message : ServerMessage) : Json :=
  .object (("kind".toList, .string message.fields.1) :: message.fields.2)

end Gunda.Capture

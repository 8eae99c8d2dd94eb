import Gunda.Capture.Decoding
import Gunda.Extension.Values

/-!
# What the extension says

`apps/extension/src/background.ts`: the messages that a message of the extension's own parts
makes the background worker send on the capture channel, and what it takes from a message of
the daemon. What the browser, the connection and the clock answer is a parameter.
-/
namespace Gunda.Extension

open Gunda.Lib Gunda.Lib.Text
open Gunda.Capture (Json Number)
open Gunda.Capture.Json (Members)

def AGENT : Text := "gunda-capture/0.1.0".toList

def MAX_SOURCE_MESSAGE_BYTES : Nat := 1792 * 1024

/-! ## Messages of the extension's parts -/

/-- What `runtimeMessage` accepts; a field it does not check may be any value or missing. -/
inductive RuntimeMessage where
  | candidate (url : JsString) (contentType sizeBytes : Option JsValue)
  | source (sourceUrl : JsString) (document : JsValue)
  | reconnect
  | forget
  | listFormats
  | downloadStatus (id : Option JsValue)
  | openDownload
  | chooseFolder
  | startDownload (pageUrl captureId format directory filename : Option JsValue)
  | startBrowserDownload (downloadId : Option JsValue) (url : JsString)
      (contentType sizeBytes : Option JsValue) (pageUrl : JsString) (pageTitle : Option JsValue)
      (directory filename : JsString)
  | cancelBrowserDownload

/-- `typeof` says string. -/
def stringOf : Option JsValue → Option JsString
  | some (.string value) => some value
  | _ => none

/-- `typeof` says object, and the value is not null. -/
def objectOf : Option JsValue → Option JsValue
  | some (.array items) => some (.array items)
  | some (.object members) => some (.object members)
  | _ => none

def runtimeCandidate (value : JsValue) : Option RuntimeMessage := do
  let url ← stringOf (value.member "url")
  pure (.candidate url (value.member "content_type") (value.member "size_bytes"))

def runtimeSource (value : JsValue) : Option RuntimeMessage := do
  let sourceUrl ← stringOf (value.member "source_url")
  let document ← objectOf (value.member "document")
  pure (.source sourceUrl document)

/-- The strings that a message about a browser download has to have. -/
def browserStrings (value : JsValue) : Option (JsString × JsString × JsString × JsString) := do
  let url ← stringOf (value.member "url")
  let pageUrl ← stringOf (value.member "page_url")
  let filename ← stringOf (value.member "filename")
  let directory ← stringOf (value.member "directory")
  pure (url, pageUrl, filename, directory)

def runtimeStart (value : JsValue) : Option RuntimeMessage := do
  let (url, pageUrl, filename, directory) ← browserStrings value
  pure (.startBrowserDownload (value.member "download_id") url (value.member "content_type")
    (value.member "size_bytes") pageUrl (value.member "page_title") directory filename)

/-- The kinds a message of the extension's parts may name. -/
def runtimeKinds (value : JsValue) : List (String × Option RuntimeMessage) :=
  [("candidate", runtimeCandidate value), ("source", runtimeSource value),
    ("start-browser-download", runtimeStart value),
    ("cancel-browser-download", (browserStrings value).map fun _ => .cancelBrowserDownload),
    ("reconnect", some .reconnect), ("forget", some .forget), ("list-formats", some .listFormats),
    ("download-status", some (.downloadStatus (value.member "id"))),
    ("open-download", some .openDownload), ("choose-folder", some .chooseFolder),
    ("start-download", some (.startDownload (value.member "page_url") (value.member "capture_id")
      (value.member "format") (value.member "directory") (value.member "filename")))]

def runtimeMessage (value : JsValue) : Option RuntimeMessage := do
  let kind ← stringOf (value.member "kind")
  let found ← (runtimeKinds value).find? fun known => JsString.ofText known.1.toList = kind
  found.2

/-! ## Messages on the channel -/

/-- What a message is made of. -/
inductive Said where
  | hello (token : JsString)
  | candidate (url : JsString) (contentType sizeBytes : JsValue) (pageUrl : JsString)
      (pageTitle : JsValue)
  | source (sourceUrl : JsString) (document : JsValue)
  | listFormats (pageUrl : JsString)
  | downloadPage (pageUrl captureId format directory filename : Option JsValue)
  | downloadBrowser (url : JsString) (contentType sizeBytes : Option JsValue) (pageUrl : JsString)
      (pageTitle : Option JsValue) (filename directory : JsString)
  | downloadStatus (id : Option JsValue)

namespace Said

/-- A member per field; `JSON.stringify` leaves out what is undefined. -/
def fields : Said → List (String × Option JsValue)
  | .hello token =>
      [("kind", some (text "hello")), ("version", some (.number (.unsigned 3))),
        ("token", some (.string token)), ("agent", some (.string (JsString.ofText AGENT)))]
  | .candidate url contentType sizeBytes pageUrl pageTitle =>
      [("kind", some (text "candidate")), ("url", some (.string url)),
        ("content_type", some contentType), ("size_bytes", some sizeBytes),
        ("page_url", some (.string pageUrl)), ("page_title", some pageTitle)]
  | .source sourceUrl document =>
      [("kind", some (text "source")), ("source_url", some (.string sourceUrl)),
        ("document", some document)]
  | .listFormats pageUrl =>
      [("kind", some (text "list_formats")), ("page_url", some (.string pageUrl))]
  | .downloadPage pageUrl captureId format directory filename =>
      [("kind", some (text "download_page")), ("page_url", pageUrl), ("capture_id", captureId),
        ("format", format), ("directory", directory), ("filename", filename)]
  | .downloadBrowser url contentType sizeBytes pageUrl pageTitle filename directory =>
      [("kind", some (text "download_browser")), ("url", some (.string url)),
        ("content_type", contentType), ("size_bytes", sizeBytes),
        ("page_url", some (.string pageUrl)), ("page_title", pageTitle),
        ("filename", some (.string filename)), ("directory", some (.string directory))]
  | .downloadStatus id => [("kind", some (text "download_status")), ("id", id)]
where
  text (name : String) : JsValue := .string (JsString.ofText name.toList)

def value (said : Said) : JsValue :=
  .object (said.fields.filterMap fun field =>
    field.2.map fun value => (JsString.ofText field.1.toList, value))

def message (said : Said) : Text := said.value.stringify

end Said

structure Tab where
  url : Option JsString
  title : Option JsString

/-- What the connection, the queue and the record of reports answer to one message. -/
structure Line where
  /-- Greeted, on an open connection. -/
  live : Bool
  /-- The token that a connection opened for this message presents. -/
  opened : Option JsString
  /-- The connection was greeted before the wait for it ended. -/
  connected : Bool
  /-- A queued message has its turn. -/
  flushed : Bool
  /-- The same candidate was reported not long ago. -/
  seen : Bool

namespace Line

def connect (line : Line) : List Said := (line.opened.map .hello).toList

/-- Sent at once, or queued. -/
def report (line : Line) (said : Said) : List Said :=
  if line.live then [said] else line.connect ++ if line.flushed then [said] else []

/-- Sent once the connection is greeted. -/
def ask (line : Line) (said : Said) : List Said :=
  line.connect ++ if line.connected then [said] else []

def reportCandidate (line : Line) (url : JsString) (contentType sizeBytes : JsValue)
    (pageUrl : JsString) (pageTitle : JsValue) : List Said :=
  if url = [] || line.seen then []
  else line.report (.candidate url contentType sizeBytes pageUrl pageTitle)

def reportSource (line : Line) (sourceUrl : JsString) (document : JsValue) : List Said :=
  let said := Said.source sourceUrl document
  if MAX_SOURCE_MESSAGE_BYTES < (toUtf8 said.message).length then [] else line.report said

/-- `Number.isSafeInteger`, of a number that is not negative. -/
def safeId : Option JsValue → Bool
  | some (.number (.unsigned value)) => value.toNat < 2 ^ 53
  | _ => false

/-- `startBrowserDownload`, up to the reply. -/
def startBrowserDownload (line : Line) (downloadId : Option JsValue) (url : JsString)
    (contentType sizeBytes : Option JsValue) (pageUrl : JsString) (pageTitle : Option JsValue)
    (directory filename : JsString) : List Said :=
  let directory := JsString.trim directory
  let filename := JsString.trim filename
  if directory = [] || filename = [] then []
  else if !safeId downloadId then []
  else line.ask
    (.downloadBrowser url contentType sizeBytes pageUrl pageTitle filename directory)

/-- The page a message comes from, if it is a web page. -/
def page (tab : Option Tab) : Option (JsString × Option JsString) := do
  let tab ← tab
  let url ← tab.url.filter JsString.namesHttp
  pure (url, tab.title)

/-- The listener of `chrome.runtime.onMessage`. -/
def onMessage (line : Line) (tab : Option Tab) : RuntimeMessage → List Said
  | .reconnect | .forget => line.connect
  | .listFormats => match page tab with
      | none => []
      | some (url, _) => line.ask (.listFormats url)
  | .downloadStatus id => line.ask (.downloadStatus id)
  | .startBrowserDownload downloadId url contentType sizeBytes pageUrl pageTitle directory
      filename =>
      line.startBrowserDownload downloadId url contentType sizeBytes pageUrl pageTitle directory
        filename
  | .cancelBrowserDownload | .openDownload | .chooseFolder => []
  | .startDownload pageUrl captureId format directory filename =>
      line.ask (.downloadPage pageUrl captureId format directory filename)
  | .source sourceUrl document => match page tab with
      | none => []
      | some _ => line.reportSource sourceUrl document
  | .candidate url contentType sizeBytes => match page tab with
      | none => []
      | some (pageUrl, title) =>
          line.reportCandidate url (contentType.getD .null) (sizeBytes.getD .null) pageUrl
            ((title.map .string).getD .null)

/-- What a value sent to the background worker makes it say. -/
def speaks (line : Line) (tab : Option Tab) (value : JsValue) : List Said :=
  ((runtimeMessage value).map (line.onMessage tab)).getD []

end Line

/-! ## Messages of the daemon -/

inductive Received where
  | ready (version : Option Json) (features : List Json)
  | counted (kind : Text) (amount : Nat)
  | recorded (accepted duplicates : Nat)
  | queued (id : Option Json)
  | downloadUnavailable (reason : Option Json)
  | formats (captureId formats directory filename : Option Json)
  | formatsUnavailable (reason : Option Json)
  | status (status : Option Json)
  | statusUnavailable (reason : Option Json)
  | refused (reason : Option Json)
  | malformed (reason : Option Json)

/-- `server.features ?? []` as a set; none where it cannot be iterated. -/
def featuresOf : Option Json → Option (List Json)
  | none | some .null => some []
  | some (.array items) => some items
  | _ => none

def lengthOf (value : Option Json) : Option Nat := (value.bind Json.asArray).map List.length

/-- The cases of `handle`. -/
def cases (server : Members) : List (String × Option Received) :=
  [("ready", (featuresOf (server.get "features".toList)).map
      (.ready (server.get "version".toList))),
    ("accepted", some (.counted "accepted".toList 1)),
    ("duplicate", some (.counted "duplicate".toList 1)),
    ("recorded", do
      let accepted ← lengthOf (server.get "accepted".toList)
      let duplicates ← lengthOf (server.get "duplicates".toList)
      pure (.recorded accepted duplicates)),
    ("download_queued", some (.queued (server.get "id".toList))),
    ("download_unavailable", some (.downloadUnavailable (server.get "reason".toList))),
    ("page_formats", some (.formats (server.get "capture_id".toList)
      (server.get "formats".toList) (server.get "directory".toList)
      (server.get "filename".toList))),
    ("formats_unavailable", some (.formatsUnavailable (server.get "reason".toList))),
    ("download_status", some (.status (server.get "status".toList))),
    ("download_status_unavailable", some (.statusUnavailable (server.get "reason".toList))),
    ("refused", some (.refused (server.get "reason".toList))),
    ("malformed", some (.malformed (server.get "reason".toList)))]

/-- What `handle` does with a message; none where it does nothing or throws. -/
def handleMessage (message : Json) : Option Received := do
  let server ← message.asObject
  let kind ← (server.get "kind".toList).bind Json.asStr
  let found ← (cases server).find? (·.1.toList = kind)
  found.2

end Gunda.Extension

import Gunda.Lib.Text

/-!
# The capture protocol

The messages of `gunda-capture/src/protocol.rs` and what they carry.
-/
namespace Gunda.Capture

open Gunda.Lib

/-- One downloadable format shown by the browser player control. -/
structure MediaFormat where
  label : Text
  group : Option Text
  details : Text
  format : Text
  deriving DecidableEq, Repr

/-- Live state of a browser-created download. -/
structure CaptureDownloadStatus where
  id : Nat
  name : Text
  state : Text
  written : Nat
  total : Option Nat
  failure : Option Text
  deriving DecidableEq, Repr

/-- Why a report was not turned into a candidate. -/
inductive Refusal where
  | unsupportedUrl | unsupportedMedia | segmentStream | unsupportedSource | noCapture
  | noDownload | captureUnavailable | unsupportedVersion
  deriving DecidableEq, Repr

/-- The stable string of a reason. -/
def Refusal.text : Refusal → Text
  | .unsupportedUrl => "unsupported_url".toList
  | .unsupportedMedia => "unsupported_media".toList
  | .segmentStream => "segment_stream".toList
  | .unsupportedSource => "unsupported_source".toList
  | .noCapture => "no_capture".toList
  | .noDownload => "no_download".toList
  | .captureUnavailable => "capture_unavailable".toList
  | .unsupportedVersion => "unsupported_version".toList

/-- A message to the extension. -/
inductive ServerMessage where
  | ready (version : Nat) (features : List Text)
  | accepted (id : Nat)
  | duplicate (id : Nat)
  | recorded (accepted duplicates : List Nat)
  | downloadQueued (id : Nat)
  | pageFormats (captureId : Nat) (formats : List MediaFormat) (directory filename : Option Text)
  | formatsUnavailable (reason : Refusal)
  | downloadUnavailable (reason : Refusal)
  | downloadStatus (status : CaptureDownloadStatus)
  | downloadStatusUnavailable (reason : Refusal)
  | refused (reason : Refusal)
  | malformed (reason : Text)
  deriving DecidableEq, Repr

/-- The protocol version this build speaks. -/
def PROTOCOL_VERSION : Nat := 3

def FEATURE_BROWSER_DOWNLOAD : Text := "browser_download".toList

/-- A message from the extension; a document is a JSON value. -/
inductive ClientMessage (J : Type) where
  | hello (version : Nat) (token agent : Text)
  | candidate (url : Text) (contentType : Option String) (sizeBytes : Option Nat) (pageUrl : Text)
      (pageTitle filename : Option String)
  | downloadBrowser (url : Text) (contentType : Option String) (sizeBytes : Option Nat)
      (pageUrl : Text) (pageTitle filename directory : Option String)
  | source (sourceUrl pageUrl : Text) (pageTitle : Option String) (document : J)
  | downloadPage (pageUrl : Text) (captureId : Option Nat) (format directory filename : Option String)
  | listFormats (pageUrl : Text)
  | downloadStatus (id : Nat)

end Gunda.Capture

import Gunda.Core.Download
import Gunda.Lib.Text

/-!
# Engines and URLs

`gundad/src/lib.rs`: which engine a job is given to, and the URLs a client may name.
The `url` crate is a parameter: what it parsed reads back from its own serialization,
which neither begins nor ends with white space.
-/
namespace Gunda.Gundad

open Gunda.Lib Gunda.Lib.Text
open Gunda.Core (Url ResourceKind)

/-- `url::Url` as far as the daemon uses it. -/
structure UrlCrate where
  parse : Text → Option Url
  scheme : Url → Text
  hostStr : Url → Option Text
  username : Url → Text
  password : Url → Option Text
  path : Url → Text
  reads_back : ∀ {text : Text} {url : Url}, parse text = some url →
    parse url.serialization = some url
  trimmed : ∀ {text : Text} {url : Url}, parse text = some url →
    trim url.serialization = url.serialization

/-- A URL the crate parsed. -/
abbrev ParsedUrl (urls : UrlCrate) : Type :=
  { url : Url // urls.parse url.serialization = some url }

inductive JobEngine where
  | http | stream
  deriving DecidableEq, Repr

section

variable (urls : UrlCrate)

def pathNamesStream (url : Url) : Bool :=
  let path := toAsciiLowercase (urls.path url)
  ".m3u8".toList.isSuffixOf path || ".mpd".toList.isSuffixOf path

def engineFor (url : Url) : Option ResourceKind → JobEngine
  | some .hls | some .dash => .stream
  | some _ => .http
  | none => if pathNamesStream urls url then .stream else .http

def parseUrl (text : Text) : Option (ParsedUrl urls) :=
  match found : urls.parse text with
  | some url => some ⟨url, urls.reads_back found⟩
  | none => none

def validateUrl (value : Text) : Except String (ParsedUrl urls) :=
  match parseUrl urls (trim value) with
  | none => .error "Enter a valid URL."
  | some url =>
      if (urls.scheme url.1 ≠ "http".toList ∧ urls.scheme url.1 ≠ "https".toList) ∨
          (urls.hostStr url.1).isNone then
        .error "Use an HTTP or HTTPS URL."
      else if urls.username url.1 ≠ [] ∨ (urls.password url.1).isSome then
        .error "URLs containing a username or password are not supported."
      else .ok url

end

variable {urls : UrlCrate}

theorem parseUrl_serialization (url : ParsedUrl urls) :
    parseUrl urls url.1.serialization = some url := by
  unfold parseUrl
  split
  · rename_i other found
    have same := Option.some.inj (found.symm.trans url.2)
    congr
  · rename_i missing
    rw [url.2] at missing
    cases missing

/-- A URL that is valid is taken as it is. -/
theorem validateUrl_serialization {url other : ParsedUrl urls}
    (h : validateUrl urls url.1.serialization = .ok other) : other = url := by
  unfold validateUrl at h
  rw [urls.trimmed url.2, parseUrl_serialization] at h
  simp only at h
  split at h
  · cases h
  · split at h
    · cases h
    · cases h
      rfl

end Gunda.Gundad

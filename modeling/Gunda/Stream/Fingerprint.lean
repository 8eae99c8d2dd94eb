import Gunda.Lib.Bytes
import Gunda.Stream.Plan
import Gunda.Stream.Resume
import Mathlib.Data.Char
import Mathlib.Data.List.Lex
import Mathlib.Data.List.Sort

/-!
# Plan fingerprints

`PlanFingerprint::of` of `gunda-stream/src/resume.rs`: a digest of the planned
resources in order, blind to signing parameters and to the order of a query.
-/
namespace Gunda.Stream

open Gunda.Lib
open Gunda.Core (Url)

/-- `url::Url` as far as a fingerprint reads it. -/
structure UrlIdentity where
  scheme : Url → Text
  hostStr : Url → Option Text
  port : Url → Option Nat
  path : Url → Text
  queryPairs : Url → List (Text × Text)

def utf8 (text : Text) : Bytes := (String.ofList text).toUTF8.toList

/-- The last bytes of a number, the least significant first. -/
def le : Nat → Nat → Bytes
  | 0, _ => []
  | width + 1, n => UInt8.ofNat n :: le width (n / 256)

/-! ## The digest -/

structure Fnv128 where
  first : UInt64
  second : UInt64
  deriving DecidableEq

namespace Fnv128

def new : Fnv128 := ⟨0xcbf29ce484222325, 0x9ce484222325cbf2⟩

def rotateLeft23 (word : UInt64) : UInt64 := (word <<< 23) ||| (word >>> 41)

def writeByte (hash : Fnv128) (byte : UInt8) : Fnv128 where
  first := (hash.first ^^^ byte.toUInt64) * 0x100000001b3
  second := rotateLeft23 ((hash.second ^^^ byte.toUInt64) * 0x100000001b3)

def write (hash : Fnv128) (bytes : Bytes) : Fnv128 := bytes.foldl writeByte hash

/-- The two words the sixteen bytes are written from. -/
def finish (hash : Fnv128) : PlanFingerprint := ⟨hash.first, hash.second⟩

end Fnv128

/-! ## URLs -/

def signingParameters : List Text :=
  ["token", "sig", "signature", "expires", "expiry", "auth", "authorization", "hdnts", "policy",
    "jwt", "key-pair-id", "x-amz-signature", "x-amz-credential", "x-amz-date", "x-amz-expires",
    "x-amz-security-token", "x-goog-signature", "x-goog-credential", "x-goog-date",
    "x-goog-expires"].map String.toList

def isSigningParameter (name : Text) : Bool := signingParameters.contains (Text.toAsciiLowercase name)

/-- The pairs of a query that name the resource. -/
def namingPairs (identity : UrlIdentity) (url : Url) : List (Text × Text) :=
  (identity.queryPairs url).filter fun pair => !isSigningParameter pair.1

def sortedPairs (pairs : List (Text × Text)) : List (Text × Text) :=
  pairs.insertionSort fun a b => toLex a ≤ toLex b

def hashPair (hash : Fnv128) (pair : Text × Text) : Fnv128 :=
  (((hash.write (utf8 "?".toList)).write (utf8 pair.1)).write (utf8 "=".toList)).write (utf8 pair.2)

def hashPort (hash : Fnv128) : Option Nat → Fnv128
  | some port => (hash.write (utf8 ":".toList)).write (utf8 (Text.ofNat port))
  | none => hash

def hashUrl (identity : UrlIdentity) (hash : Fnv128) (url : Url) : Fnv128 :=
  let hash := (hash.write (utf8 (identity.scheme url))).write (utf8 "://".toList)
  let hash := hash.write (utf8 ((identity.hostStr url).getD []))
  let hash := (hashPort hash (identity.port url)).write (utf8 (identity.path url))
  (sortedPairs (namingPairs identity url)).foldl hashPair hash

/-! ## Plans -/

def hashRange (hash : Fnv128) : Option Hls.ByteRange → Fnv128
  | some range => ((hash.write [1]).write (le 8 range.length)).write (le 8 (range.offset.getD 0))
  | none => hash.write [0]

def hashResource (identity : UrlIdentity) (hash : Fnv128) (resource : StreamResource) : Fnv128 :=
  let hash := (hash.write [0]).write [UInt8.ofNat resource.track]
  hashRange (hashUrl identity hash resource.url) resource.byteRange

def StreamKind.tag : StreamKind → Text
  | .hls => "hls".toList
  | .dash => "dash".toList

def PlanFingerprint.of (identity : UrlIdentity) (plan : TrackPlan) (manifest : Url) :
    PlanFingerprint :=
  let hash := (Fnv128.new.write (utf8 plan.kind.tag)).write [0]
  let hash := ((hashUrl identity hash manifest).write [0]).write (le 8 plan.resources.length)
  (plan.resources.foldl (hashResource identity) hash).finish

/-! ## What a fingerprint does not see -/

/-- The URLs differ in signing parameters and the order of their queries at most. -/
structure SameResource (identity : UrlIdentity) (a b : Url) : Prop where
  scheme : identity.scheme a = identity.scheme b
  host : identity.hostStr a = identity.hostStr b
  port : identity.port a = identity.port b
  path : identity.path a = identity.path b
  query : (namingPairs identity a).Perm (namingPairs identity b)

theorem SameResource.refl (identity : UrlIdentity) (url : Url) : SameResource identity url url :=
  ⟨rfl, rfl, rfl, rfl, List.Perm.refl _⟩

theorem sortedPairs_eq_of_perm {a b : List (Text × Text)} (same : a.Perm b) :
    sortedPairs a = sortedPairs b := by
  have order : ∀ pairs : List (Text × Text),
      (sortedPairs pairs).Pairwise fun a b => toLex a ≤ toLex b := by
    intro pairs
    exact List.pairwise_insertionSort (fun a b : Text × Text => toLex a ≤ toLex b) pairs
  have mixed : (sortedPairs a).Perm (sortedPairs b) :=
    (List.perm_insertionSort _ a).trans (same.trans (List.perm_insertionSort _ b).symm)
  refine List.Perm.eq_of_pairwise (fun c d _ _ before after => ?_) (order a) (order b) mixed
  exact toLex.injective (le_antisymm before after)

variable {identity : UrlIdentity}

theorem hashUrl_eq_of_same {a b : Url} (same : SameResource identity a b) (hash : Fnv128) :
    hashUrl identity hash a = hashUrl identity hash b := by
  unfold hashUrl
  rw [same.scheme, same.host, same.port, same.path, sortedPairs_eq_of_perm same.query]

/-- The same resource of a presentation planned twice. -/
structure SameSegment (identity : UrlIdentity) (a b : StreamResource) : Prop where
  url : SameResource identity a.url b.url
  byteRange : a.byteRange = b.byteRange
  track : a.track = b.track

/-- A presentation planned twice from manifests that differ in what a fingerprint does not see. -/
structure SamePresentation (identity : UrlIdentity) (a b : TrackPlan) : Prop where
  kind : a.kind = b.kind
  resources : List.Forall₂ (SameSegment identity) a.resources b.resources

theorem hashResource_eq_of_same {a b : StreamResource} (same : SameSegment identity a b)
    (hash : Fnv128) :
    hashResource identity hash a = hashResource identity hash b := by
  unfold hashResource
  dsimp only
  rw [same.track, same.byteRange, hashUrl_eq_of_same same.url]

theorem hashResources_eq_of_same {a b : List StreamResource}
    (same : List.Forall₂ (SameSegment identity) a b) (hash : Fnv128) :
    a.foldl (hashResource identity) hash = b.foldl (hashResource identity) hash := by
  induction same generalizing hash with
  | nil => rfl
  | cons first rest ih =>
    rw [List.foldl_cons, List.foldl_cons, hashResource_eq_of_same first, ih]

theorem PlanFingerprint.of_eq_of_same {a b : TrackPlan} (same : SamePresentation identity a b)
    (manifest : Url) :
    PlanFingerprint.of identity a manifest = PlanFingerprint.of identity b manifest := by
  unfold PlanFingerprint.of
  dsimp only
  rw [same.kind, same.resources.length_eq, hashResources_eq_of_same same.resources]

end Gunda.Stream

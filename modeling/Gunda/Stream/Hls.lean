import Gunda.Stream.Manifest

/-!
# HLS playlists

`gunda-stream/src/hls.rs`: attribute lists, and the line reader with its pending
tags and its current key and map.
-/
namespace Gunda.Stream.Hls

open Gunda.Lib Gunda.Lib.Text

structure ByteRange where
  length : Nat
  offset : Option Nat
  deriving DecidableEq, Repr

def ByteRange.parse (value : Text) : Except ManifestError ByteRange := do
  let (length, offset) := match splitOnce '@' value with
    | some (length, offset) => (length, some offset)
    | none => (value, none)
  let length ← required .invalidByteRange (parseU64 (trim length))
  if length = 0 then
    throw .invalidByteRange
  let offset ← (offset.map trim).mapM fun offset => required .invalidByteRange (parseU64 offset)
  pure ⟨length, offset⟩

structure ResourceRef where
  uri : Text
  byteRange : Option ByteRange
  deriving DecidableEq, Repr

structure KeyRef where
  method : Text
  uri : Option Text
  iv : Option Text
  deriving DecidableEq, Repr

def KeyRef.isEncrypted (key : KeyRef) : Bool := !eqIgnoreAsciiCase key.method "NONE".toList

structure Segment where
  resource : ResourceRef
  durationMillis : Option Nat
  mediaSequence : Nat
  init : Option ResourceRef
  key : Option KeyRef
  discontinuity : Bool
  deriving DecidableEq, Repr

structure MediaPlaylist where
  segments : List Segment
  targetDurationSecs : Option Nat
  ended : Bool
  deriving DecidableEq, Repr

def MediaPlaylist.isEncrypted (playlist : MediaPlaylist) : Bool :=
  playlist.segments.any fun segment => segment.key.any (·.isEncrypted)

def MediaPlaylist.totalDurationMillis (playlist : MediaPlaylist) : Option Nat :=
  (playlist.segments.map (·.durationMillis)).foldlM
    (fun total duration => duration.map (saturatingAdd total)) 0

structure Variant where
  uri : Text
  bandwidth : Option Nat
  width : Option Nat
  height : Option Nat
  codecs : Option Text
  audioGroup : Option Text
  deriving DecidableEq, Repr

def Variant.resolution (variant : Variant) : Option (Nat × Nat) :=
  match variant.width, variant.height with
  | some width, some height => some (width, height)
  | _, _ => none

structure Rendition where
  kind : Text
  groupId : Option Text
  name : Option Text
  language : Option Text
  uri : Option Text
  default : Bool
  deriving DecidableEq, Repr

structure MasterPlaylist where
  variants : List Variant
  renditions : List Rendition
  iframeVariants : List Variant
  deriving DecidableEq, Repr

inductive Playlist where
  | master (playlist : MasterPlaylist)
  | media (playlist : MediaPlaylist)
  deriving DecidableEq, Repr

/-! ## Attribute lists -/

abbrev Attributes := List (Text × Text)

def Attributes.get (attributes : Attributes) (name : Text) : Option Text :=
  (attributes.find? fun pair => eqIgnoreAsciiCase pair.1 name).map (·.2)

def Attributes.getU64 (attributes : Attributes) (name : Text) :
    Except ManifestError (Option Nat) :=
  (attributes.get name).mapM fun value => required .invalidNumber (parseU64 (trim value))

def Attributes.isYes (attributes : Attributes) (name : Text) : Bool :=
  (attributes.get name).any (eqIgnoreAsciiCase · "YES".toList)

/-- The value at the start of an attribute's tail, and what follows it. -/
def attributeValue (tail : Text) : Except ManifestError (Text × Text) :=
  match tail with
  | '"' :: quoted =>
      match splitOnce '"' quoted with
      | none => .error .malformed
      | some (value, tail) =>
          match trimStart tail with
          | ',' :: next => .ok (value, next)
          | [] => .ok (value, [])
          | _ => .error .malformed
  | _ =>
      match splitOnce ',' tail with
      | some (value, next) => .ok (value, next)
      | none => .ok (tail, [])

/-- The source's loop; every round takes an attribute off the rest, so as many
rounds as characters are enough. -/
def attributePairs : Nat → Text → Except ManifestError Attributes
  | _, [] => .ok []
  | 0, _ => .error .malformed
  | rounds + 1, rest => do
      let (name, tail) ← required .malformed (splitOnce '=' rest)
      let name := trim name
      if name = [] ∨ name.any isWhitespace then
        throw .malformed
      let (value, next) ← attributeValue tail
      let pairs ← attributePairs rounds (trimStart next)
      pure ((name, value) :: pairs)

def parseAttributes (input : Text) : Except ManifestError Attributes :=
  attributePairs input.length input

def parseResolution (value : Text) : Except ManifestError (Nat × Nat) := do
  let (width, height) ← required .malformed (splitOnce 'x' value)
  let width ← required .invalidNumber (parseU32 (trim width))
  let height ← required .invalidNumber (parseU32 (trim height))
  pure (width, height)

def attributesToVariant (attributes : Attributes) (uri : Text) : Except ManifestError Variant := do
  let resolution ← (attributes.get "RESOLUTION".toList).mapM parseResolution
  let bandwidth ← attributes.getU64 "BANDWIDTH".toList
  pure
    { uri := uri
      bandwidth := bandwidth
      width := resolution.map (·.1)
      height := resolution.map (·.2)
      codecs := attributes.get "CODECS".toList
      audioGroup := attributes.get "AUDIO".toList }

/-! ## The line reader -/

structure ParseState where
  master : MasterPlaylist
  media : MediaPlaylist
  pendingStreamInf : Option Attributes
  pendingDuration : Option Nat
  pendingRange : Option ByteRange
  discontinuity : Bool
  currentKey : Option KeyRef
  currentMap : Option ResourceRef
  mediaSequence : Nat
  lastRangeEnd : Option (Text × Nat)
  sawMasterTag : Bool
  sawMediaTag : Bool
  deriving DecidableEq, Repr

def ParseState.start : ParseState where
  master := ⟨[], [], []⟩
  media := ⟨[], none, false⟩
  pendingStreamInf := none
  pendingDuration := none
  pendingRange := none
  discontinuity := false
  currentKey := none
  currentMap := none
  mediaSequence := 0
  lastRangeEnd := none
  sawMasterTag := false
  sawMediaTag := false

/-- The offset of a pending range: its own, or the end of the previous range of
the same resource. -/
def pendingOffset (state : ParseState) (line : Text) : Option Nat :=
  match state.pendingRange with
  | some range =>
      match range.offset with
      | some offset => some offset
      | none => (state.lastRangeEnd.filter fun last => last.1 = line).map (·.2)
  | none => none

/-- A media segment line. -/
def segmentLine (state : ParseState) (line : Text) : Except ManifestError ParseState :=
  let offset := pendingOffset state line
  let byteRange := state.pendingRange.map fun range => (⟨range.length, offset⟩ : ByteRange)
  if maxSegments ≤ state.media.segments.length then .error .tooManySegments
  else
    let segment : Segment :=
      { resource := ⟨line, byteRange⟩
        durationMillis := state.pendingDuration
        mediaSequence := state.mediaSequence
        init := state.currentMap
        key := state.currentKey
        discontinuity := state.discontinuity }
    .ok { state with
      media := { state.media with segments := state.media.segments ++ [segment] }
      pendingRange := none
      pendingDuration := none
      lastRangeEnd := byteRange.map fun range =>
        (line, (offset.getD 0 + range.length) % 2 ^ 64)
      mediaSequence := saturatingAdd state.mediaSequence 1
      discontinuity := false
      sawMediaTag := true }

/-- The URI line of a variant. -/
def variantLine (state : ParseState) (attributes : Attributes) (line : Text) :
    Except ManifestError ParseState := do
  if state.pendingRange.isSome then
    throw .malformed
  let variant ← attributesToVariant attributes line
  pure { state with
    master := { state.master with variants := state.master.variants ++ [variant] }
    pendingStreamInf := none
    sawMasterTag := true }

def uriLine (state : ParseState) (line : Text) : Except ManifestError ParseState :=
  if (stripPrefix "data:".toList line).isSome then .error (.unsupported .dataUriSegments)
  else match state.pendingStreamInf with
    | none => segmentLine state line
    | some attributes => variantLine state attributes line

def streamInfTag (state : ParseState) (value : Option Text) : Except ManifestError ParseState := do
  let attributes ← parseAttributes (value.getD [])
  pure { state with pendingStreamInf := some attributes, sawMasterTag := true }

def iframeStreamInfTag (state : ParseState) (value : Option Text) :
    Except ManifestError ParseState := do
  let attributes ← parseAttributes (value.getD [])
  let uri ← required .malformed (attributes.get "URI".toList)
  let variant ← attributesToVariant attributes uri
  pure { state with
    master := { state.master with iframeVariants := state.master.iframeVariants ++ [variant] }
    sawMasterTag := true }

def mediaTag (state : ParseState) (value : Option Text) : Except ManifestError ParseState := do
  let attributes ← parseAttributes (value.getD [])
  let kind ← required .malformed (attributes.get "TYPE".toList)
  let rendition : Rendition :=
    { kind := kind
      groupId := attributes.get "GROUP-ID".toList
      name := attributes.get "NAME".toList
      language := attributes.get "LANGUAGE".toList
      uri := attributes.get "URI".toList
      default := attributes.isYes "DEFAULT".toList }
  pure { state with
    master := { state.master with renditions := state.master.renditions ++ [rendition] }
    sawMasterTag := true }

def extInfTag (decimals : Decimals) (state : ParseState) (value : Option Text) :
    Except ManifestError ParseState := do
  let value ← required .malformed value
  let duration ← decimals.durationMillis ((splitAll ',' value).headD [])
  pure { state with pendingDuration := some duration, sawMediaTag := true }

def byteRangeTag (state : ParseState) (value : Option Text) : Except ManifestError ParseState := do
  let range ← ByteRange.parse (← required .malformed value)
  pure { state with pendingRange := some range, sawMediaTag := true }

def targetDurationTag (state : ParseState) (value : Option Text) :
    Except ManifestError ParseState := do
  let value ← required .malformed value
  let seconds ← required .invalidNumber (parseU64 (trim value))
  pure { state with
    media := { state.media with targetDurationSecs := some seconds }
    sawMediaTag := true }

def mediaSequenceTag (state : ParseState) (value : Option Text) :
    Except ManifestError ParseState := do
  let value ← required .malformed value
  let sequence ← required .invalidNumber (parseU64 (trim value))
  pure { state with mediaSequence := sequence, sawMediaTag := true }

/-- The key an `EXT-X-KEY` tag declares; `METHOD=NONE` declares none. -/
def declaredKey (value : Option Text) : Except ManifestError (Option KeyRef) := do
  let attributes ← parseAttributes (← required .malformed value)
  let method ← required .malformed (attributes.get "METHOD".toList)
  pure (if eqIgnoreAsciiCase method "NONE".toList then none
    else some ⟨method, attributes.get "URI".toList, attributes.get "IV".toList⟩)

def keyTag (state : ParseState) (value : Option Text) : Except ManifestError ParseState := do
  let key ← declaredKey value
  pure { state with currentKey := key, sawMediaTag := true }

/-- The initialization segment an `EXT-X-MAP` tag declares. -/
def declaredMap (value : Option Text) : Except ManifestError ResourceRef := do
  let attributes ← parseAttributes (← required .malformed value)
  let uri ← required .malformed (attributes.get "URI".toList)
  let byteRange ← (attributes.get "BYTERANGE".toList).mapM ByteRange.parse
  pure ⟨uri, byteRange⟩

def mapTag (state : ParseState) (value : Option Text) : Except ManifestError ParseState := do
  let map ← declaredMap value
  pure { state with currentMap := some map, sawMediaTag := true }

/-- A tag line without its `#`, split at its first colon. -/
def tagParts (tag : Text) : Text × Option Text :=
  match splitOnce ':' tag with
  | some (name, value) => (name, some value)
  | none => (tag, none)

def tagLine (decimals : Decimals) (state : ParseState) (tag : Text) :
    Except ManifestError ParseState :=
  let (name, value) := tagParts tag
  if name = "EXT-X-STREAM-INF".toList then streamInfTag state value
  else if name = "EXT-X-I-FRAME-STREAM-INF".toList then iframeStreamInfTag state value
  else if name = "EXT-X-MEDIA".toList then mediaTag state value
  else if name = "EXTINF".toList then extInfTag decimals state value
  else if name = "EXT-X-BYTERANGE".toList then byteRangeTag state value
  else if name = "EXT-X-TARGETDURATION".toList then targetDurationTag state value
  else if name = "EXT-X-MEDIA-SEQUENCE".toList then mediaSequenceTag state value
  else if name = "EXT-X-ENDLIST".toList then
    .ok { state with media := { state.media with ended := true }, sawMediaTag := true }
  else if name = "EXT-X-DISCONTINUITY".toList then
    .ok { state with discontinuity := true, sawMediaTag := true }
  else if name = "EXT-X-KEY".toList then keyTag state value
  else if name = "EXT-X-MAP".toList then mapTag state value
  else .ok state

/-- One trimmed line of a playlist. -/
def readLine (decimals : Decimals) (state : ParseState) (line : Text) :
    Except ManifestError ParseState :=
  match line with
  | [] => .ok state
  | '#' :: tag => tagLine decimals state tag
  | _ => uriLine state line

def finishPlaylist (state : ParseState) : Except ManifestError Playlist :=
  if state.pendingStreamInf.isSome then .error .malformed
  else match state.sawMasterTag, state.sawMediaTag with
    | true, true => .error .ambiguousPlaylist
    | true, false => .ok (.master state.master)
    | false, true => .ok (.media state.media)
    | false, false => .error .notAManifest

/-- The trimmed lines of a playlist, without a byte order mark. -/
def playlistLines (text : Text) : List Text :=
  (lines ((stripPrefix [Char.ofNat 0xFEFF] text).getD text)).map trim

def parse (decimals : Decimals) (text : Text) : Except ManifestError Playlist := do
  if (playlistLines text).find? (· ≠ []) ≠ some "#EXTM3U".toList then
    throw .notAManifest
  let state ← (playlistLines text).foldlM (readLine decimals) ParseState.start
  finishPlaylist state

end Gunda.Stream.Hls

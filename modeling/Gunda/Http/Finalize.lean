import Gunda.Http.Transfer

/-!
# Naming and publishing a download

`gunda-http/src/finalize.rs` and `destination.rs`: the name a download is published
under, and the steps that put its partial file there. The partial file is always
staged in the directory it is published in.
-/
namespace Gunda.Http

open Gunda.Lib Gunda.Lib.Text
open Gunda.Core (Url DownloadId DownloadDestination ResolvedDestination FileConflictPolicy)

inductive FinalizeError where
  | invalidFilename | differentDirectory | invalidPartial | nameAttemptsExhausted
  | file (kind : IoErrorKind)
  deriving DecidableEq, Repr

/-! ## Names -/

def isForbidden (c : Char) : Bool := "<>:\"/\\|?*~".toList.contains c

def isControl (c : Char) : Bool := c.toNat < 0x20 || (0x7F ≤ c.toNat && c.toNat ≤ 0x9F)

def toAsciiUppercase (text : Text) : Text := text.map Char.toUpper

def deviceNames : List Text := ["CON", "PRN", "AUX", "NUL", "CONIN$", "CONOUT$"].map String.toList

def portNumbers : List Text := ["1", "2", "3", "4", "5", "6", "7", "8", "9", "¹", "²", "³"].map
  String.toList

def isPort (base : Text) : Bool :=
  ["COM".toList, "LPT".toList].any fun port => (stripPrefix port base).any portNumbers.contains

/-- A name is a single path component once it has no separator. -/
def validateFilename (filename : String) : Except FinalizeError Unit :=
  let name := filename.toList
  let uppercase := toAsciiUppercase name
  let base := (((splitAll '.' uppercase).headD []).reverse.dropWhile (· = ' ')).reverse
  if name = [] ∨ 200 < filename.utf8ByteSize ∨ filename = "." ∨ filename = ".." ∨
      name.getLast? = some ' ' ∨ name.getLast? = some '.' ∨
      name.any (fun c => isControl c || isForbidden c) then .error .invalidFilename
  else if ".GUNDA-".toList.isPrefixOf uppercase then .error .invalidFilename
  else if base ∈ deviceNames ∨ isPort base then .error .invalidFilename
  else .ok ()

/-- The parts before and after the last occurrence of a character. -/
def rsplitOnce (separator : Char) (text : Text) : Option (Text × Text) :=
  (splitOnce separator text.reverse).map fun parts => (parts.2.reverse, parts.1.reverse)

def numbered (attempt : Nat) : Text := " (".toList ++ ofNat attempt ++ ")".toList

/-- The name tried after `attempt` others were taken. -/
def candidateName (filename : String) (attempt : Nat) : String :=
  if attempt = 0 then filename
  else match rsplitOnce '.' filename.toList with
    | some (stem, extension) =>
        if stem = [] then String.ofList (filename.toList ++ numbered attempt)
        else String.ofList (stem ++ numbered attempt ++ ".".toList ++ extension)
    | none => String.ofList (filename.toList ++ numbered attempt)

def defaultFilename (id : DownloadId) : String :=
  String.ofList ("download-".toList ++ ofNat id.value.toNat ++ ".bin".toList)

def percentDecode : Text → Bytes
  | [] => []
  | '%' :: high :: low :: rest =>
      match hexDigitValue high, hexDigitValue low with
      | some h, some l => UInt8.ofNat (h * 16 + l) :: percentDecode rest
      | _, _ => UInt8.ofNat '%'.toNat :: percentDecode (high :: low :: rest)
  | c :: rest => UInt8.ofNat c.toNat :: percentDecode rest

def joinPath (directory filename : String) : String :=
  if directory = "" ∨ directory.toList.getLast? = some '/' then directory ++ filename
  else directory ++ "/" ++ filename

section

variable (urls : UrlLibrary)

/-- The name in the last segment of a URL's path, where it has one. -/
def urlFilename (url : Url) : Option String := do
  let path ← stripPrefix ['/'] (urls.path url)
  let segment ← (splitAll '/' path).getLast?
  let filename ← fromUtf8 (percentDecode segment)
  if (validateFilename (String.ofList filename)).isOk then some (String.ofList filename) else none

def planFilename (id : DownloadId) (url : Url) (destination : DownloadDestination) :
    Except FinalizeError String := do
  match destination.preferredFilename with
  | some filename => do
      validateFilename filename
      pure filename
  | none => pure ((urlFilename urls url).getD (defaultFilename id))

def planDestination (id : DownloadId) (url : Url) (destination : DownloadDestination) :
    Except FinalizeError (DownloadDestination × ResolvedDestination) := do
  let filename ← planFilename urls id url destination
  pure (⟨destination.directory, some filename, destination.conflictPolicy⟩,
    ⟨joinPath destination.directory filename⟩)

end

/-! ## Publication -/

inductive PublishOp where
  /-- The kind and length of the partial file's name. -/
  | metadata
  | matchesPath
  | rename (finalPath : String)
  | hardLink (finalPath : String)
  | removePartial
  deriving DecidableEq

abbrev PublishOp.Answer : PublishOp → Type
  | .metadata => Except IoErrorKind FileMetadata
  | .matchesPath => Except IoErrorKind Bool
  | .rename _ | .hardLink _ | .removePartial => Except IoErrorKind Unit

abbrev Publishing (α : Type) : Type := Fallible PublishOp PublishOp.Answer FinalizeError α

namespace PublishOp

def perform (op : PublishOp) : Publishing op.Answer := Fallible.perform op

/-- An operation whose error ends the publication. -/
def attempt {α : Type} : Except IoErrorKind α → Publishing α
  | .ok value => pure value
  | .error kind => throw (.file kind)

end PublishOp

structure FinalizedDownload where
  destination : ResolvedDestination
  writtenBytes : Nat
  partialCleanupError : Option IoErrorKind
  deriving DecidableEq, Repr

/-- The partial file is linked under the first name that is free; what becomes of its
own name afterwards does not undo that. -/
def linkCandidates (directory filename : String) (policy : FileConflictPolicy)
    (writtenBytes : Nat) : List Nat → Publishing FinalizedDownload
  | [] => throw .nameAttemptsExhausted
  | attempt :: later => do
      let finalPath := joinPath directory (candidateName filename attempt)
      match ← PublishOp.perform (.hardLink finalPath) with
      | .ok () => do
          let removed ← PublishOp.perform .removePartial
          pure ⟨⟨finalPath⟩, writtenBytes, match removed with
            | .ok () => none
            | .error kind => some kind⟩
      | .error kind =>
          if kind = .alreadyExists ∧ policy = .rename then
            linkCandidates directory filename policy writtenBytes later
          else throw (.file kind)

def attempts : FileConflictPolicy → Nat
  | .rename => 1000
  | .fail | .overwrite => 1

def publish (id : DownloadId) (destination : DownloadDestination) (writtenBytes : Nat) :
    Publishing FinalizedDownload := do
  let filename := destination.preferredFilename.getD (defaultFilename id)
  ExceptT.mk (pure (validateFilename filename))
  let metadata ← PublishOp.attempt (← PublishOp.perform .metadata)
  let matched ← PublishOp.attempt (← PublishOp.perform .matchesPath)
  if !metadata.isFile ∨ metadata.len ≠ writtenBytes ∨ !matched then
    throw .invalidPartial
  if destination.conflictPolicy = .overwrite then
    let finalPath := joinPath destination.directory filename
    PublishOp.attempt (← PublishOp.perform (.rename finalPath))
    pure ⟨⟨finalPath⟩, writtenBytes, none⟩
  else
    linkCandidates destination.directory filename destination.conflictPolicy writtenBytes
      (List.range (attempts destination.conflictPolicy))

end Gunda.Http

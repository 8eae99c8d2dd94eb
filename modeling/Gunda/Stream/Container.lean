import Gunda.Stream.Ts.Demux

/-!
# Recognising a container

`gunda-stream/src/container.rs`: the container that leading bytes show.
-/
namespace Gunda.Stream

open Gunda.Lib
open Gunda.Stream.Ts (id3v2Length)

/-- How many leading bytes are looked at. -/
def sniffBytes : Nat := 2048

namespace Container

def extension : Container → Text
  | .mp4 => "mp4".toList
  | .m4a => "m4a".toList
  | .ts => "ts".toList
  | .matroska => "mkv".toList
  | .webm => "webm".toList
  | .aac => "aac".toList
  | .mp3 => "mp3".toList

end Container

/-- The bytes of an ASCII text. -/
def ascii (text : String) : Bytes := text.toList.map fun c => UInt8.ofNat c.toNat

def isAudioBrand (brand : Bytes) : Bool := ["M4A ", "M4B ", "M4P ", "F4A "].any (ascii · = brand)

/-- What the handler box at an index says, if there is one. -/
def handlerAt (head : Bytes) (index : Nat) : Option Bytes :=
  let size := Bytes.readBe (Bytes.slice head (index - 4) 4)
  if Bytes.slice head index 4 ≠ ascii "hdlr" ∨ ¬ (8 ≤ size ∧ size ≤ 4096) ∨
      head.length < index + 16 then none
  else some (Bytes.slice head (index + 12) 4)

def scanHandlers (head : Bytes) (audio : Bool) : List Nat → Option Bool
  | [] => if audio then some true else none
  | index :: later => match handlerAt head index with
      | none => scanHandlers head audio later
      | some handler =>
          if handler = ascii "vide" then some false
          else scanHandlers head (audio || handler = ascii "soun") later

def tracksAreAudioOnly (head : Bytes) : Option Bool :=
  scanHandlers head false (List.range' 4 (head.length - 4 - 4))

def isoBaseMedia (head : Bytes) (audioOnly : Bool) : Option Container :=
  if Bytes.slice head 4 4 ≠ ascii "ftyp" then none
  else match tracksAreAudioOnly head with
    | some true => some .m4a
    | some false => some .mp4
    | none => if isAudioBrand (Bytes.slice head 8 4) || audioOnly then some .m4a else some .mp4

def ebmlMagic : Bytes := [0x1A, 0x45, 0xDF, 0xA3]

/-- The document type is looked for at sixteen offsets. -/
def matroska (head : Bytes) : Option Container :=
  if ¬ ebmlMagic.isPrefixOf head then none
  else if (List.range 16).any fun offset => Bytes.slice head offset 4 = ascii "webm" then some .webm
  else some .matroska

def syncAt (head : Bytes) : List Nat → Option Container
  | [] => some .ts
  | offset :: later => match head[offset]? with
      | none => some .ts
      | some byte => if byte ≠ 0x47 then none else syncAt head later

def transportStream (head : Bytes) : Option Container :=
  if head.head? ≠ some 0x47 then none else syncAt head [188, 376, 564]

def audioFrame : Bytes → Option Container
  | first :: second :: _ =>
      if first ≠ 0xFF then none
      else if second &&& 0xF6 = 0xF0 then some .aac
      else if second &&& 0xE0 = 0xE0 ∧ second &&& 0x06 ≠ 0 then some .mp3
      else none
  | _ => none

def mpegAudio (head : Bytes) : Option Container :=
  match id3v2Length head with
  | some length => if head.length < length then none else audioFrame (head.drop length)
  | none => audioFrame head

def sniff (head : Bytes) (audioOnly : Bool) : Option Container :=
  (isoBaseMedia head audioOnly).or ((matroska head).or ((transportStream head).or (mpegAudio head)))

/-- The bytes win where they can be recognised. -/
def detect (head : Bytes) (hint : Option Container) : Option Container :=
  (sniff head (hint = some .m4a)).or hint

end Gunda.Stream

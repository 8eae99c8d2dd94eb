import Gunda.Core.Manager
import Gunda.Lib.Bytes
import Gunda.Lib.Utf8

/-!
# Paths in columns

`gunda-storage/src/path_codec.rs`: native paths as bytes, on each kind of platform.
-/
namespace Gunda.Storage

open Gunda.Lib
open Gunda.Core (RepositoryError)

/-- How a platform writes its paths, and that it reads back what it writes. -/
structure PathCodec (Path : Type) where
  encode : Path → Except RepositoryError Bytes
  decode : Bytes → Except RepositoryError Path
  reads : ∀ path, ∃ bytes, encode path = .ok bytes ∧ decode bytes = .ok path

def invalidPath (message : String) : RepositoryError := ⟨.invalidData, message⟩

namespace PathCodec

/-- On Unix a path is any bytes. -/
def unix : PathCodec Bytes where
  encode path := .ok path
  decode bytes := .ok bytes
  reads path := ⟨path, rfl, rfl⟩

/-- The low byte of a unit stands first. -/
def leBytes (unit : UInt16) : Bytes :=
  [UInt8.ofNat (unit.toNat % 256), UInt8.ofNat (unit.toNat / 256)]

/-- The units of the bytes, if no byte is left over. -/
def wide : Bytes → Option (List UInt16)
  | [] => some []
  | low :: high :: rest => (wide rest).map (UInt16.ofNat (low.toNat + 256 * high.toNat) :: ·)
  | [_] => none

theorem wide_flatMap (path : List UInt16) : wide (path.flatMap leBytes) = some path := by
  induction path with
  | nil => rfl
  | cons unit rest ih =>
    have bound : unit.toNat < 65536 := unit.toNat_lt
    have low : (UInt8.ofNat (unit.toNat % 256)).toNat = unit.toNat % 256 :=
      Text.toNat_ofNat_of_lt (by omega)
    have high : (UInt8.ofNat (unit.toNat / 256)).toNat = unit.toNat / 256 :=
      Text.toNat_ofNat_of_lt (by omega)
    have whole : unit.toNat % 256 + 256 * (unit.toNat / 256) = unit.toNat := by omega
    rw [List.flatMap_cons]
    change (wide (rest.flatMap leBytes)).map _ = _
    rw [ih, low, high, whole, UInt16.ofNat_toNat]
    rfl

/-- On Windows a path is any sixteen-bit units. -/
def windows : PathCodec (List UInt16) where
  encode path := .ok (path.flatMap leBytes)
  decode bytes := match wide bytes with
    | none => .error (invalidPath "stored Windows path has an invalid byte length")
    | some path => .ok path
  reads path := ⟨_, rfl, by rw [wide_flatMap]⟩

/-- Elsewhere a path is a text. -/
def other : PathCodec String where
  encode path := .ok (Text.toUtf8 path.toList)
  decode bytes := match Text.fromUtf8 bytes with
    | none => .error (invalidPath "stored path is not valid UTF-8")
    | some text => .ok (String.ofList text)
  reads path := ⟨_, rfl, by
    rw [Text.fromUtf8_toUtf8]
    exact congrArg Except.ok String.ofList_toList⟩

end PathCodec

end Gunda.Storage

import Gunda.Lib.IsoMedia
import Gunda.Stream.Ts.Elementary

/-!
# Boxes

`gunda-stream/src/mux.rs`: the boxes a track file is made of, and the cursor that reads
the fields of one.
-/
namespace Gunda.Stream.Mux

open Gunda.Lib Gunda.Lib.Bytes
open Gunda.Lib.IsoMedia (kind)

variable {α β : Type} {bytes rest : Bytes}

abbrev Kind := Bytes

def maxMetadataBox : Nat := 16 * 1024 * 1024

/-- What has to be there, or else an error. -/
def required {α : Type} (error : MuxError) : Option α → Except MuxError α
  | some value => .ok value
  | none => .error error

variable {value : α}

theorem required_ok {error : MuxError} {found : Option α} (h : required error found = .ok value) :
    found = some value := by
  cases found with
  | none => cases h
  | some there =>
    cases h
    rfl

/-! ## Fields -/

/-- A cursor over the payload of a box: what is still to be read. -/
abbrev Reader := StateT Bytes (Except MuxError)

def Reader.of {α : Type} (reader : Reader α) (bytes : Bytes) : Except MuxError α :=
  (reader bytes).map Prod.fst

def Reader.lift {α : Type} (result : Except MuxError α) : Reader α :=
  fun bytes => result.map (·, bytes)

def take (count : Nat) : Reader Bytes := fun bytes =>
  if bytes.length < count then .error (.malformed "a box is shorter than it claims")
  else .ok (bytes.take count, bytes.drop count)

def skip (count : Nat) : Reader Unit := do
  let _ ← take count

def u8 : Reader Nat := readBe <$> take 1

def u32 : Reader Nat := readBe <$> take 4

def u64 : Reader Nat := readBe <$> take 8

/-- The signed number with the same 32 bits. -/
def asI32 (n : Int) : Int := if n < 2 ^ 31 then n else n - 2 ^ 32

def i32 : Reader Int := (fun n : Nat => asI32 n) <$> u32

/-- The version and the flags every complete box begins with. -/
def full : Reader (Nat × Nat) := do
  let version ← u8
  let flags ← readBe <$> take 3
  return (version, flags)

/-- Whether a flag is set. -/
def has (flags mask : Nat) : Bool := flags &&& mask ≠ 0

/-- A field that is there when its flag is set. -/
def field {α : Type} (flags mask : Nat) (read : Reader α) : Reader (Option α) :=
  if has flags mask then some <$> read else pure none

variable {first : Reader α}

theorem Reader.bind_ok {next : α → Reader β} {result : β × Bytes}
    (h : (first >>= next) bytes = .ok result) :
    ∃ value rest, first bytes = .ok (value, rest) ∧ next value rest = .ok result := by
  obtain ⟨⟨value, rest⟩, read, more⟩ := Lib.bind_ok h
  exact ⟨value, rest, read, more⟩

theorem Reader.ok_bind {next : α → Reader β} (h : first bytes = .ok (value, rest)) :
    (first >>= next) bytes = next value rest := by
  change (first bytes).bind (fun read => next read.1 read.2) = _
  rw [h]
  rfl

theorem Reader.map_ok {f : α → β} {result : β × Bytes} (h : (f <$> first) bytes = .ok result) :
    ∃ value, first bytes = .ok (value, result.2) ∧ f value = result.1 := by
  change (first >>= fun value => pure (f value)) bytes = .ok result at h
  obtain ⟨value, rest, read, same⟩ := Reader.bind_ok h
  cases same
  exact ⟨value, read, rfl⟩

theorem Reader.ok_map (f : α → β) (h : first bytes = .ok (value, rest)) :
    (f <$> first) bytes = .ok (f value, rest) := by
  change (first >>= fun value => pure (f value)) bytes = _
  rw [Reader.ok_bind h]
  rfl

theorem Reader.lift_ok {result : Except MuxError α} {value : α × Bytes}
    (h : Reader.lift result bytes = .ok value) : result = .ok value.1 ∧ value.2 = bytes := by
  obtain ⟨found, ok, same⟩ := Lib.map_ok h
  rw [← same]
  exact ⟨ok, rfl⟩

theorem Reader.of_ok {reader : Reader α} (h : reader.of bytes = .ok value) :
    ∃ rest, reader bytes = .ok (value, rest) := by
  obtain ⟨⟨found, rest⟩, ok, same⟩ := Lib.map_ok h
  cases same
  exact ⟨rest, ok⟩

theorem field_ok {flags mask : Nat} {read : Reader α} {found : Option α}
    (h : field flags mask read bytes = .ok (found, rest)) :
    (has flags mask = true ∧ ∃ value, read bytes = .ok (value, rest) ∧ found = some value) ∨
      (has flags mask = false ∧ found = none ∧ rest = bytes) := by
  unfold field at h
  cases there : has flags mask with
  | true =>
    rw [there, if_pos rfl] at h
    obtain ⟨value, read, same⟩ := Reader.map_ok h
    exact .inl ⟨rfl, value, read, same.symm⟩
  | false =>
    rw [there, if_neg Bool.false_ne_true] at h
    cases h
    exact .inr ⟨rfl, rfl, rfl⟩

theorem field_there {flags mask : Nat} {read : Reader α} (there : has flags mask = true)
    (h : read bytes = .ok (value, rest)) :
    field flags mask read bytes = .ok (some value, rest) := by
  unfold field
  rw [if_pos there, Reader.ok_map some h]

/-- A number takes no more than the bytes it is read from. -/
theorem take_lt {reader : Reader Nat} {width : Nat} (h : reader = readBe <$> take width)
    {value : Nat} (read : reader bytes = .ok (value, rest)) :
    value < 256 ^ width := by
  rw [h] at read
  obtain ⟨taken, took, same⟩ := Reader.map_ok read
  obtain ⟨long, took⟩ := throw_unless_ok took
  cases took
  dsimp only at same
  rw [← same]
  have bound := readBe_lt (bytes.take width)
  rwa [List.length_take_of_le (Nat.le_of_not_lt long)] at bound

theorem asI32_lt {n : Nat} (fits : n < 2 ^ 32) : asI32 n < 2 ^ 31 := by
  unfold asI32
  split
  · assumption
  · omega

/-! ## The boxes of a file -/

/-- One box of a track file: where it starts, where its payload does, and how long that is. -/
structure Header where
  kind : Kind
  start : Nat
  body : Nat
  length : Nat

def Header.stop (header : Header) : Nat := header.body + header.length

def readHeader (file : Bytes) (position : Nat) : Except MuxError Header :=
  let size := readBe (slice file position 4)
  let kind := slice file (position + 4) 4
  if size = 0 then .ok ⟨kind, position, position + 8, file.length - (position + 8)⟩
  else if size = 1 then .error (.malformed "a box states its size in 64 bits")
  else if size < 8 then .error (.malformed "a box states an impossible size")
  else .ok ⟨kind, position, position + 8, size - 8⟩

def readBody (file : Bytes) (header : Header) : Except MuxError Bytes :=
  if maxMetadataBox < header.length then
    .error (.malformed "a metadata box is implausibly large")
  else if file.length < header.stop then .error (.io .other)
  else .ok (slice file header.body header.length)

/-- One box: its size, its type and its body. -/
def boxed (name : Kind) (body : Bytes) : Bytes :=
  be 4 (min (body.length % 2 ^ 32 + 8) (2 ^ 32 - 1)) ++ name ++ body

/-! ## The boxes of a box -/

/-- The first box of a payload, and what follows it. -/
def nextBox (rest : Bytes) : Option ((Kind × Bytes) × Bytes) :=
  if rest.length < 8 then none
  else
    let stated := readBe (rest.take 4)
    let size := if stated = 0 then rest.length else stated
    if size < 8 ∨ rest.length < size then none
    else some ((slice rest 4 4, slice rest 8 (size - 8)), rest.drop size)

/-- The boxes directly inside one box. -/
def boxes (bytes : Bytes) : List (Kind × Bytes) := repeatedly nextBox bytes

/-- The first box that a path of box types leads to. -/
def findBox : List Kind → Bytes → Option Bytes
  | [], _ => none
  | first :: path, bytes => (boxes bytes).findSome? fun inner =>
      if inner.1 ≠ first then none
      else if path = [] then some inner.2
      else findBox path inner.2

/-! ## Headers of a track -/

def readTimescale (body : Bytes) : Option Nat :=
  let read : Reader Nat := do
    let (version, _) ← full
    skip (if version = 1 then 16 else 8)
    u32
  (read.of body).toOption

def readDecodeTime (body : Bytes) : Option Nat :=
  let read : Reader Nat := do
    let (version, _) ← full
    if version = 1 then u64 else u32
  (read.of body).toOption

end Gunda.Stream.Mux

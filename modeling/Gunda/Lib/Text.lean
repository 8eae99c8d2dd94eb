import Mathlib.Algebra.Ring.Nat
import Mathlib.Data.List.Basic

/-!
# Text as lists of characters

The operations of a string type whose slices are whole characters: trimming,
splitting at a character or a pattern, lines, and decimal integers. Splitting
functions return the parts without the separator.
-/
namespace Gunda.Lib

abbrev Text := List Char

instance : LawfulBEq Text := inferInstance

namespace Text

/-- Unicode `White_Space`. -/
def isWhitespace (c : Char) : Bool :=
  (9 ≤ c.toNat && c.toNat ≤ 13) || c.toNat = 0x20 || c.toNat = 0x85 || c.toNat = 0xA0 ||
  c.toNat = 0x1680 || (0x2000 ≤ c.toNat && c.toNat ≤ 0x200A) || c.toNat = 0x2028 ||
  c.toNat = 0x2029 || c.toNat = 0x202F || c.toNat = 0x205F || c.toNat = 0x3000

def trimStart (text : Text) : Text := text.dropWhile isWhitespace

def trimEnd (text : Text) : Text := (text.reverse.dropWhile isWhitespace).reverse

def trim (text : Text) : Text := trimEnd (trimStart text)

def toAsciiLowercase (text : Text) : Text := text.map Char.toLower

def eqIgnoreAsciiCase (a b : Text) : Bool := toAsciiLowercase a = toAsciiLowercase b

def stripPrefix (head text : Text) : Option Text :=
  if head.isPrefixOf text then some (text.drop head.length) else none

def stripSuffix (tail text : Text) : Option Text :=
  if tail.isSuffixOf text then some (text.take (text.length - tail.length)) else none

/-- The parts before and after the first occurrence of a character. -/
def splitOnce (separator : Char) : Text → Option (Text × Text)
  | [] => none
  | c :: rest =>
      if c = separator then some ([], rest)
      else (splitOnce separator rest).map fun parts => (c :: parts.1, parts.2)

/-- The parts before and after the first occurrence of a pattern. -/
def splitAtPattern (pattern : Text) : Text → Option (Text × Text)
  | [] => if pattern = [] then some ([], []) else none
  | c :: rest =>
      match stripPrefix pattern (c :: rest) with
      | some tail => some ([], tail)
      | none => (splitAtPattern pattern rest).map fun parts => (c :: parts.1, parts.2)

/-- Every part between occurrences of a character, empty parts included. -/
def splitAll (separator : Char) : Text → List Text
  | [] => [[]]
  | c :: rest =>
      if c = separator then [] :: splitAll separator rest
      else match splitAll separator rest with
        | part :: parts => (c :: part) :: parts
        | [] => [[c]]

/-- A line without the carriage return that may end it. -/
def withoutCarriageReturn (line : Text) : Text := (stripSuffix ['\r'] line).getD line

/-- Lines end with a newline or a carriage return and newline; what follows the
last newline is a line when it is not empty. -/
def lines (text : Text) : List Text :=
  match (splitAll '\n' text).reverse with
  | [] :: ended => (ended.map withoutCarriageReturn).reverse
  | last :: ended => (last :: ended.map withoutCarriageReturn).reverse
  | [] => []

def digitsValue (digits : Text) : Option Nat :=
  if digits = [] ∨ ¬ digits.all Char.isDigit then none
  else some (digits.foldl (fun value digit => value * 10 + (digit.toNat - '0'.toNat)) 0)

/-- An unsigned decimal integer below the bound, with an optional plus sign. -/
def parseUnsigned (bound : Nat) (text : Text) : Option Nat :=
  (digitsValue ((stripPrefix ['+'] text).getD text)).filter (· < bound)

def parseU64 : Text → Option Nat := parseUnsigned (2 ^ 64)

def parseU32 : Text → Option Nat := parseUnsigned (2 ^ 32)

/-- A signed 64-bit decimal integer with an optional sign. -/
def parseI64 (text : Text) : Option Int :=
  match stripPrefix ['-'] text with
  | some digits => ((digitsValue digits).filter (· ≤ 2 ^ 63)).map fun value => -(value : Int)
  | none => (parseUnsigned (2 ^ 63) text).map fun value => (value : Int)

def hexDigitValue (c : Char) : Option Nat :=
  if c.isDigit then some (c.toNat - '0'.toNat)
  else if 'a' ≤ c ∧ c ≤ 'f' then some (c.toNat - 'a'.toNat + 10)
  else if 'A' ≤ c ∧ c ≤ 'F' then some (c.toNat - 'A'.toNat + 10)
  else none

/-- A 32-bit hexadecimal integer with an optional plus sign. -/
def parseHexU32 (text : Text) : Option Nat :=
  let digits := (stripPrefix ['+'] text).getD text
  if digits = [] then none
  else ((digits.mapM hexDigitValue).map fun values =>
    values.foldl (fun value digit => value * 16 + digit) 0).filter (· < 2 ^ 32)

def ofNat (value : Nat) : Text := Nat.toDigits 10 value

/-- The payload of a UTF-8 continuation byte. -/
def continuation (byte : UInt8) : Option Nat :=
  if 0x80 ≤ byte.toNat ∧ byte.toNat ≤ 0xBF then some (byte.toNat - 0x80) else none

/-- The character of a multi-byte sequence: overlong forms and surrogates are refused. -/
def scalar (least value : Nat) : Option Char :=
  if least ≤ value ∧ value.isValidChar then some (Char.ofNat value) else none

def fromUtf8 : List UInt8 → Option Text
  | [] => some []
  | a :: rest =>
      if a.toNat < 0x80 then (fromUtf8 rest).map (Char.ofNat a.toNat :: ·)
      else if a.toNat < 0xC0 then none
      else match rest with
      | [] => none
      | b :: rest => do
          let second ← continuation b
          if a.toNat < 0xE0 then
            let c ← scalar 0x80 ((a.toNat - 0xC0) * 64 + second)
            (fromUtf8 rest).map (c :: ·)
          else match rest with
          | [] => none
          | c :: rest => do
              let third ← continuation c
              if a.toNat < 0xF0 then
                let c ← scalar 0x800 (((a.toNat - 0xE0) * 64 + second) * 64 + third)
                (fromUtf8 rest).map (c :: ·)
              else match rest with
              | [] => none
              | d :: rest => do
                  let fourth ← continuation d
                  if a.toNat < 0xF8 then
                    let c ← scalar 0x10000
                      ((((a.toNat - 0xF0) * 64 + second) * 64 + third) * 64 + fourth)
                    (fromUtf8 rest).map (c :: ·)
                  else none

section

variable {separator : Char} {text head tail : Text}
  (h : splitOnce separator text = some (head, tail))
include h

theorem splitOnce_eq_some :
    text = head ++ separator :: tail ∧ separator ∉ head := by
  induction text generalizing head with
  | nil => cases h
  | cons c rest ih =>
    unfold splitOnce at h
    split at h
    · rename_i same
      cases h
      exact ⟨by rw [same]; rfl, List.not_mem_nil⟩
    · rename_i other
      obtain ⟨parts, found, same⟩ := Option.map_eq_some_iff.mp h
      cases same
      obtain ⟨split, absent⟩ := ih found
      refine ⟨by rw [split]; rfl, ?_⟩
      rw [List.mem_cons, not_or]
      exact ⟨fun equal => other equal.symm, absent⟩

theorem splitOnce_length : tail.length < text.length := by
  rw [(splitOnce_eq_some h).1, List.length_append, List.length_cons]
  omega

end

end Text

end Gunda.Lib

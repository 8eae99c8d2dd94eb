import Gunda.Capture.Extractor
import Gunda.Lib.Utf8

/-!
# JavaScript values

What the messages of the extension are made of, the text that `JSON.stringify` writes for
it and the value a reader of that text gets. A string is a sequence of UTF-16 code units,
and some of them may be halves of a pair that is not there.
-/
namespace Gunda.Extension

open Gunda.Lib Gunda.Lib.Text
open Gunda.Capture (Json Number)

abbrev JsString : Type := List UInt16

namespace JsString

def isHigh (unit : UInt16) : Bool := 0xd800 ≤ unit && unit ≤ 0xdbff

def isLow (unit : UInt16) : Bool := 0xdc00 ≤ unit && unit ≤ 0xdfff

/-- The character of a surrogate pair. -/
def paired (high low : UInt16) : Char :=
  Char.ofNat (0x10000 + (high.toNat - 0xd800) * 0x400 + (low.toNat - 0xdc00))

/-- The text of the code units, if every surrogate is paired. -/
def text : JsString → Option Text
  | [] => some []
  | [unit] => if isHigh unit || isLow unit then none else some [Char.ofNat unit.toNat]
  | unit :: next :: rest =>
      if isHigh unit then
        if isLow next then (text rest).map (paired unit next :: ·) else none
      else if isLow unit then none
      else (text (next :: rest)).map (Char.ofNat unit.toNat :: ·)

/-- The code units of a text in which every character has one. -/
def ofText (text : Text) : JsString := text.map fun c => UInt16.ofNat c.toNat

def hexDigit (n : Nat) : Char := Char.ofNat (if n < 10 then 0x30 + n else 0x57 + n)

/-- `UnicodeEscape`. -/
def escape (unit : UInt16) : Text :=
  ['\\', 'u', hexDigit (unit.toNat / 0x1000), hexDigit (unit.toNat / 0x100 % 0x10),
    hexDigit (unit.toNat / 0x10 % 0x10), hexDigit (unit.toNat % 0x10)]

/-- A code unit that is no half of a pair. -/
def quoteUnit (unit : UInt16) : Text :=
  if unit = 0x22 then ['\\', '"']
  else if unit = 0x5c then ['\\', '\\']
  else if unit = 0x08 then ['\\', 'b']
  else if unit = 0x09 then ['\\', 't']
  else if unit = 0x0a then ['\\', 'n']
  else if unit = 0x0c then ['\\', 'f']
  else if unit = 0x0d then ['\\', 'r']
  else if unit < 0x20 || isHigh unit || isLow unit then escape unit
  else [Char.ofNat unit.toNat]

/-- `QuoteJSONString` between its quotes. -/
def quoteUnits : JsString → Text
  | [] => []
  | [unit] => quoteUnit unit
  | unit :: next :: rest =>
      if isHigh unit && isLow next then paired unit next :: quoteUnits rest
      else quoteUnit unit ++ quoteUnits (next :: rest)

def quote (string : JsString) : Text := '"' :: quoteUnits string ++ ['"']

/-- `WhiteSpace` and `LineTerminator`. -/
def isSpace (unit : UInt16) : Bool :=
  [0x09, 0x0a, 0x0b, 0x0c, 0x0d, 0x20, 0xa0, 0x1680, 0x2028, 0x2029, 0x202f, 0x205f, 0x3000,
    0xfeff].contains unit || (0x2000 ≤ unit && unit ≤ 0x200a)

/-- `String.prototype.trim`. -/
def trim (string : JsString) : JsString :=
  ((string.dropWhile isSpace).reverse.dropWhile isSpace).reverse

def lowercase (unit : UInt16) : UInt16 := if 0x41 ≤ unit && unit ≤ 0x5a then unit + 0x20 else unit

/-- `/^https?:/i`. -/
def namesHttp (url : JsString) : Bool :=
  (ofText "http:".toList).isPrefixOf (url.map lowercase) ||
    (ofText "https:".toList).isPrefixOf (url.map lowercase)

theorem ascii_unit {c : Char} (ascii : c.toNat < 0x80) :
    isHigh (UInt16.ofNat c.toNat) = false ∧ isLow (UInt16.ofNat c.toNat) = false ∧
      Char.ofNat (UInt16.ofNat c.toNat).toNat = c := by
  have same : (UInt16.ofNat c.toNat).toNat = c.toNat := by
    rw [UInt16.toNat_ofNat', Nat.mod_eq_of_lt (by omega)]
  have below : ¬ 0xd800 ≤ UInt16.ofNat c.toNat ∧ ¬ 0xdc00 ≤ UInt16.ofNat c.toNat := by
    simp only [UInt16.le_iff_toNat_le, same]
    constructor
    · change ¬ 0xd800 ≤ c.toNat
      omega
    · change ¬ 0xdc00 ≤ c.toNat
      omega
  unfold isHigh isLow
  rw [decide_eq_false below.1, decide_eq_false below.2, same, Char.ofNat_toNat]
  exact ⟨rfl, rfl, rfl⟩

theorem text_ofText {name : Text} (ascii : ∀ c ∈ name, c.toNat < 0x80) :
    text (ofText name) = some name := by
  induction name with
  | nil => rfl
  | cons c rest ih =>
    obtain ⟨high, low, same⟩ := ascii_unit (ascii c List.mem_cons_self)
    have later := ih fun other member => ascii other (List.mem_cons_of_mem _ member)
    cases rest with
    | nil =>
      unfold ofText
      rw [List.map_cons, List.map_nil, text, high, low, same]
      rfl
    | cons next rest =>
      unfold ofText at later ⊢
      rw [List.map_cons] at later
      rw [List.map_cons, List.map_cons, text, high, low, later, same]
      rfl

end JsString

/-- A value that JSON can write; a number is as its digits are read. -/
inductive JsValue where
  | null
  | bool (value : Bool)
  | number (value : Number)
  | string (value : JsString)
  | array (items : List JsValue)
  | object (members : List (JsString × JsValue))

namespace JsValue

mutual

/-- `JSON.stringify`. -/
def stringify : JsValue → Text
  | .null => "null".toList
  | .bool true => "true".toList
  | .bool false => "false".toList
  | .number value => value.text
  | .string value => value.quote
  | .array items => '[' :: joinWith ',' (stringifyItems items) ++ [']']
  | .object members => '\x7b' :: joinWith ',' (stringifyMembers members) ++ ['\x7d']

def stringifyItems : List JsValue → List Text
  | [] => []
  | item :: rest => stringify item :: stringifyItems rest

def stringifyMembers : List (JsString × JsValue) → List Text
  | [] => []
  | (name, value) :: rest => (JsString.quote name ++ ':' :: stringify value) :: stringifyMembers rest

end

mutual

/-- The value that the text denotes; none where a surrogate in it is not paired. -/
def read : JsValue → Option Json
  | .null => some .null
  | .bool value => some (.bool value)
  | .number value => some (.number value)
  | .string value => (JsString.text value).map .string
  | .array items => (readItems items).map .array
  | .object members => (readMembers members).map .object

def readItems : List JsValue → Option (List Json)
  | [] => some []
  | item :: rest => do
      let item ← read item
      let rest ← readItems rest
      pure (item :: rest)

def readMembers : List (JsString × JsValue) → Option (List (Text × Json))
  | [] => some []
  | (name, value) :: rest => do
      let name ← JsString.text name
      let value ← read value
      let rest ← readMembers rest
      pure ((name, value) :: rest)

end

/-- A value that has no others in it. -/
def Scalar : JsValue → Prop
  | .array _ | .object _ => False
  | _ => True

/-- `JSON.parse` of a member, where the value is an object. -/
def member (value : JsValue) (name : String) : Option JsValue :=
  match value with
  | .object members =>
      (members.find? (·.1 = JsString.ofText name.toList)).map (·.2)
  | _ => none

end JsValue

end Gunda.Extension

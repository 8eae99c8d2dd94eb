import Gunda.Lib.Scan

/-!
# Slices by byte offset

Texts addressed by the offsets of their UTF-8 bytes: a slice is there only where both of its
ends are boundaries between characters, and a search returns the offset it found.
-/
namespace Gunda.Lib.Text

def byteLength (text : Text) : Nat := (text.map Char.utf8Size).sum

/-- The text from an offset on. -/
def sliceFrom : Text → Nat → Option Text
  | text, 0 => some text
  | [], _ + 1 => none
  | c :: rest, start + 1 =>
      if c.utf8Size ≤ start + 1 then sliceFrom rest (start + 1 - c.utf8Size) else none

/-- The text before an offset. -/
def sliceTo : Text → Nat → Option Text
  | _, 0 => some []
  | [], _ + 1 => none
  | c :: rest, stop + 1 =>
      if c.utf8Size ≤ stop + 1 then (sliceTo rest (stop + 1 - c.utf8Size)).map (c :: ·) else none

def sliceBetween (text : Text) (start stop : Nat) : Option Text :=
  if start ≤ stop then (sliceTo text stop).bind fun before => sliceFrom before start else none

/-- The offset of the first character that is looked for. -/
def findWhere (looked : Char → Bool) : Text → Option Nat
  | [] => none
  | c :: rest => if looked c then some 0 else (findWhere looked rest).map (· + c.utf8Size)

/-- The offset of the first occurrence of a pattern. -/
def findPattern (pattern : Text) : Text → Option Nat
  | [] => if pattern = [] then some 0 else none
  | c :: rest =>
      if pattern.isPrefixOf (c :: rest) then some 0
      else (findPattern pattern rest).map (· + c.utf8Size)

/-- The offset of the last occurrence of a character. -/
def findLast (separator : Char) : Text → Option Nat
  | [] => none
  | c :: rest => match findLast separator rest with
      | some index => some (index + c.utf8Size)
      | none => if c = separator then some 0 else none

section

variable {separator c : Char} {text head tail rest : Text} {index : Nat}

@[simp] theorem byteLength_nil : byteLength [] = 0 := rfl

@[simp] theorem byteLength_cons : byteLength (c :: text) = c.utf8Size + byteLength text := rfl

@[simp] theorem byteLength_append : byteLength (head ++ tail) = byteLength head + byteLength tail := by
  unfold byteLength
  rw [List.map_append, List.sum_append]

theorem sliceFrom_cons (fits : c.utf8Size ≤ index) :
    sliceFrom (c :: rest) index = sliceFrom rest (index - c.utf8Size) := by
  cases index with
  | zero => exact absurd (Char.utf8Size_pos c) (Nat.not_lt_of_le fits)
  | succ index => exact if_pos fits

theorem sliceTo_cons (fits : c.utf8Size ≤ index) :
    sliceTo (c :: rest) index = (sliceTo rest (index - c.utf8Size)).map (c :: ·) := by
  cases index with
  | zero => exact absurd (Char.utf8Size_pos c) (Nat.not_lt_of_le fits)
  | succ index => exact if_pos fits

theorem sliceFrom_append (head tail : Text) :
    sliceFrom (head ++ tail) (byteLength head) = some tail := by
  induction head with
  | nil => cases tail <;> rfl
  | cons c head ih =>
    rw [List.cons_append, byteLength_cons, sliceFrom_cons (Nat.le_add_right _ _),
      Nat.add_sub_cancel_left, ih]

theorem sliceTo_append (head tail : Text) :
    sliceTo (head ++ tail) (byteLength head) = some head := by
  induction head with
  | nil => cases tail <;> rfl
  | cons c head ih =>
    rw [List.cons_append, byteLength_cons, sliceTo_cons (Nat.le_add_right _ _),
      Nat.add_sub_cancel_left, ih]
    rfl

/-- One ASCII character further. -/
theorem sliceFrom_behind (head tail : Text) (one : c.utf8Size = 1) :
    sliceFrom (head ++ c :: tail) (byteLength head + 1) = some tail := by
  have same := sliceFrom_append (head ++ [c]) tail
  rw [byteLength_append, byteLength_cons, one, byteLength_nil, List.append_assoc] at same
  exact same

theorem findWhere_splitOnce : findWhere (· = separator) text =
    (splitOnce separator text).map fun parts => byteLength parts.1 := by
  induction text with
  | nil => rfl
  | cons c text ih =>
    rw [findWhere, splitOnce]
    by_cases same : c = separator
    · rw [if_pos same, if_pos (decide_eq_true same)]
      rfl
    · rw [if_neg same, if_neg (by simpa using same), ih, Option.map_map, Option.map_map]
      exact congrArg (Option.map · _) (funext fun parts => Nat.add_comm _ _)

theorem findPattern_split {pattern : Text} : findPattern pattern text =
    (splitAtPattern pattern text).map fun parts => byteLength parts.1 := by
  induction text with
  | nil =>
    unfold findPattern splitAtPattern
    split <;> rfl
  | cons c text ih =>
    rw [findPattern, splitAtPattern]
    unfold stripPrefix
    split
    · rfl
    · rw [ih, Option.map_map, Option.map_map]
      exact congrArg (Option.map · _) (funext fun parts => Nat.add_comm _ _)

/-- A search for the first character of a kind finds the end of those that are not. -/
theorem findWhere_length (looked : Char → Bool) (text : Text) :
    (findWhere looked text).getD (byteLength text) = byteLength (text.takeWhile (!looked ·)) := by
  induction text with
  | nil => rfl
  | cons c text ih =>
    rw [findWhere]
    cases found : looked c with
    | true =>
      rw [if_pos rfl, List.takeWhile_cons_of_neg (by rw [found]; exact Bool.false_ne_true)]
      rfl
    | false =>
      rw [if_neg Bool.false_ne_true, List.takeWhile_cons_of_pos (by rw [found]; rfl),
        byteLength_cons, byteLength_cons, ← ih]
      cases findWhere looked text with
      | none => rfl
      | some index => exact Nat.add_comm _ _

theorem findLast_absent (absent : separator ∉ text) : findLast separator text = none := by
  induction text with
  | nil => rfl
  | cons c text ih =>
    rw [List.mem_cons, not_or] at absent
    rw [findLast, ih absent.2]
    exact if_neg (Ne.symm absent.1)

theorem findLast_append (absent : separator ∉ tail) (head : Text) :
    findLast separator (head ++ separator :: tail) = some (byteLength head) := by
  induction head with
  | nil =>
    rw [List.nil_append, findLast, findLast_absent absent]
    exact if_pos rfl
  | cons c head ih =>
    rw [List.cons_append, findLast, ih, byteLength_cons, Nat.add_comm]

end

end Gunda.Lib.Text

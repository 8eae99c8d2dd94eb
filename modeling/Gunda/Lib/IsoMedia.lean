import Gunda.Lib.Bytes
import Mathlib.Data.List.Forall2

/-!
# Base media boxes

The base media file format as a reader sees it: numbers, and boxes that state their sizes.
-/
namespace Gunda.Lib

open Bytes

/-! ## Reading to the end -/

/-- Reads one item after another, as long as there is one; as many rounds as bytes are
enough. -/
def repeatRounds {α : Type} (next : Bytes → Option (α × Bytes)) : Nat → Bytes → List α
  | 0, _ => []
  | rounds + 1, bytes => match next bytes with
    | some (first, rest) => first :: repeatRounds next rounds rest
    | none => []

def repeatedly {α : Type} (next : Bytes → Option (α × Bytes)) (bytes : Bytes) : List α :=
  repeatRounds next bytes.length bytes

section

variable {α : Type} {next : Bytes → Option (α × Bytes)}

section

variable (shorter : ∀ {bytes first rest}, next bytes = some (first, rest) → rest.length < bytes.length)
include shorter

theorem repeatRounds_enough :
    ∀ {rounds : Nat} {bytes : Bytes}, bytes.length ≤ rounds →
      repeatRounds next rounds bytes = repeatedly next bytes := by
  have none : ∀ {bytes : Bytes} (rounds : Nat), bytes.length ≤ 0 →
      repeatRounds next rounds bytes = [] := by
    intro bytes rounds empty
    cases rounds with
    | zero => rfl
    | succ rounds =>
      unfold repeatRounds
      cases found : next bytes with
      | none => rfl
      | some item =>
        have less := shorter found
        omega
  have any : ∀ (a b : Nat) (bytes : Bytes), bytes.length ≤ a → bytes.length ≤ b →
      repeatRounds next a bytes = repeatRounds next b bytes := by
    intro a
    induction a with
    | zero =>
      intro b bytes empty _
      rw [none b empty]
      rfl
    | succ a ih =>
      intro b bytes first second
      cases b with
      | zero => exact none (a + 1) second
      | succ b =>
        unfold repeatRounds
        cases found : next bytes with
        | none => rfl
        | some item =>
          have less := shorter found
          exact congrArg (item.1 :: ·) (ih b item.2 (by omega) (by omega))
  intro rounds bytes enough
  exact any rounds bytes.length bytes enough (Nat.le_refl _)

theorem repeatedly_of_next {bytes rest : Bytes} {first : α} (h : next bytes = some (first, rest)) :
    repeatedly next bytes = first :: repeatedly next rest := by
  have less := shorter h
  obtain ⟨length, count⟩ : ∃ length, bytes.length = length + 1 := ⟨bytes.length - 1, by omega⟩
  unfold repeatedly
  rw [count, repeatRounds, h]
  exact congrArg (first :: ·) (repeatRounds_enough shorter (by omega))

end

theorem repeatedly_of_none {bytes : Bytes} (h : next bytes = none) : repeatedly next bytes = [] := by
  unfold repeatedly
  cases bytes.length with
  | zero => rfl
  | succ length => rw [repeatRounds, h]

end

namespace IsoMedia

variable {bytes name : Bytes} {width : Nat}

/-! ## Fields -/

abbrev Get := StateT Bytes Option

def number (width : Nat) : Get Nat := fun bytes =>
  if bytes.length < width then none else some (readBe (bytes.take width), bytes.drop width)

def many {α : Type} (get : Get α) : Nat → Get (List α)
  | 0 => return []
  | count + 1 => do
      let first ← get
      let rest ← many get count
      return first :: rest

/-- The version that a full box begins with; its flags follow. -/
def version : Get Nat := do
  let version ← number 1
  let _ ← number 3
  return version

def signed (n : Nat) : Int := if n < 2 ^ 31 then n else (n : Int) - 2 ^ 32

def Get.of {α : Type} (get : Get α) (bytes : Bytes) : Option α := (get bytes).map Prod.fst

theorem Get.bind {α β : Type} {first : Get α} {next : α → Get β} {rest : Bytes} {value : α}
    (h : first bytes = some (value, rest)) : (first >>= next) bytes = next value rest := by
  change (first bytes).bind (fun read => next read.1 read.2) = _
  rw [h]
  rfl

theorem number_of_le (enough : width ≤ bytes.length) :
    number width bytes = some (readBe (bytes.take width), bytes.drop width) :=
  if_neg (Nat.not_lt.mpr enough)

theorem number_append (length : bytes.length = width) (rest : Bytes) :
    number width (bytes ++ rest) = some (readBe bytes, rest) := by
  have enough : ¬ (bytes ++ rest).length < width := by
    rw [List.length_append]
    omega
  unfold number
  rw [if_neg enough, List.take_left' length, List.drop_left' length]

theorem number_be {n : Nat} (fits : n < 256 ^ width) (rest : Bytes) :
    number width (be width n ++ rest) = some (n, rest) := by
  rw [number_append (be_length width n), readBe_be fits]

/-- Items that are read back one by one are read back as a list. -/
theorem many_flatMap {α β : Type} {get : Get β} {write : α → Bytes} {value : α → β} {items : List α}
    (each : ∀ item ∈ items, ∀ rest, get (write item ++ rest) = some (value item, rest))
    (rest : Bytes) :
    many get items.length (items.flatMap write ++ rest) = some (items.map value, rest) := by
  induction items with
  | nil => rfl
  | cons item items ih =>
    have others := ih fun other member => each other (List.mem_cons_of_mem _ member)
    rw [List.flatMap_cons, List.append_assoc, List.length_cons, many,
      Get.bind (each item List.mem_cons_self _), Get.bind others]
    rfl

theorem signed_mod {n : Int} (low : -2 ^ 31 ≤ n) (high : n < 2 ^ 31) :
    signed (n % 2 ^ 32).toNat = n := by
  unfold signed
  split <;> omega

/-! ## Boxes -/

/-- The four bytes of a box type. -/
def kind (name : String) : Bytes := name.toList.map fun c => UInt8.ofNat c.toNat

/-- The first box, and what follows it. -/
def nextBox (bytes : Bytes) : Option ((Bytes × Bytes) × Bytes) :=
  if bytes.length < 8 then none
  else
    let stated := readBe (bytes.take 4)
    let header := if stated = 1 then 16 else 8
    let size := if stated = 0 then bytes.length
      else if stated = 1 then readBe (slice bytes 8 8) else stated
    if size < header ∨ bytes.length < size then none
    else some ((slice bytes 4 4, slice bytes header (size - header)), bytes.drop size)

def boxes (bytes : Bytes) : List (Bytes × Bytes) := repeatedly nextBox bytes

def find (name : Bytes) (bytes : Bytes) : Option Bytes :=
  ((boxes bytes).find? (·.1 = name)).map Prod.snd

def findPath : List Bytes → Bytes → Option Bytes
  | [], bytes => some bytes
  | name :: path, bytes => (find name bytes).bind (findPath path)

theorem findPath_of_find {path : List Bytes} {inner : Bytes} (h : find name bytes = some inner) :
    findPath (name :: path) bytes = findPath path inner := by
  rw [findPath, h, Option.bind_some]

theorem nextBox_shorter {rest : Bytes} {first : Bytes × Bytes}
    (h : nextBox bytes = some (first, rest)) : rest.length < bytes.length := by
  unfold nextBox at h
  by_cases short : bytes.length < 8
  · rw [if_pos short] at h
    cases h
  · rw [if_neg short] at h
    dsimp only at h
    have some_ : 8 ≤ if readBe (bytes.take 4) = 1 then 16 else 8 := by
      split <;> omega
    generalize (if readBe (bytes.take 4) = 1 then 16 else 8) = header at h some_
    generalize (if readBe (bytes.take 4) = 0 then bytes.length
      else if readBe (bytes.take 4) = 1 then readBe (slice bytes 8 8)
      else readBe (bytes.take 4)) = size at h
    by_cases outside : size < header ∨ bytes.length < size
    · rw [if_pos outside] at h
      cases h
    · rw [if_neg outside] at h
      cases h
      rw [List.length_drop]
      omega

/-- A box, where 32 bits hold its size. -/
def box (name body : Bytes) : Bytes := be 4 (body.length + 8) ++ (name ++ body)

/-- What a reader sees of a box: its stated size, its type, what follows and how long it is. -/
theorem header_read {stated : Nat} (four : name.length = 4) (fits : stated < 2 ^ 32) (rest : Bytes) :
    readBe ((be 4 stated ++ (name ++ rest)).take 4) = stated ∧
      slice (be 4 stated ++ (name ++ rest)) 4 4 = name ∧
      (∀ length, slice (be 4 stated ++ (name ++ rest)) 8 length = rest.take length) ∧
      (be 4 stated ++ (name ++ rest)).length = rest.length + 8 := by
  have front : (be 4 stated ++ name).length = 8 := by
    rw [List.length_append, be_length, four]
  refine ⟨?_, ?_, ?_, ?_⟩
  · rw [List.take_left' (be_length 4 _)]
    exact readBe_be fits
  · unfold slice
    rw [List.drop_left' (be_length 4 _), List.take_left' four]
  · intro length
    unfold slice
    rw [← List.append_assoc, List.drop_left' front]
  · rw [← List.append_assoc, List.length_append, front, Nat.add_comm]

theorem nextBox_box {body : Bytes} (four : name.length = 4) (fits : body.length + 8 < 2 ^ 32)
    (rest : Bytes) : nextBox (box name body ++ rest) = some ((name, body), rest) := by
  have after : (box name body ++ rest).drop (body.length + 8) = rest := by
    refine List.drop_left' ?_
    simp only [box, List.length_append, be_length, four]
    omega
  have small : ¬ body.length + 8 = 1 := by omega
  have some_ : ¬ body.length + 8 = 0 := by omega
  have split : box name body ++ rest = be 4 (body.length + 8) ++ (name ++ (body ++ rest)) := by
    simp only [box, List.append_assoc]
  obtain ⟨stated, kind, content, long⟩ := header_read four fits (body ++ rest)
  rw [← split] at stated kind content long
  have sum : (body ++ rest).length = body.length + rest.length := List.length_append
  unfold nextBox
  rw [if_neg (by omega)]
  dsimp only
  rw [stated, if_neg small, if_neg some_, if_neg small, if_neg (by omega), kind, content, after,
    Nat.add_sub_cancel, List.take_left' rfl]

theorem boxes_box {body : Bytes} (four : name.length = 4) (fits : body.length + 8 < 2 ^ 32)
    (rest : Bytes) : boxes (box name body ++ rest) = (name, body) :: boxes rest :=
  repeatedly_of_next nextBox_shorter (nextBox_box four fits rest)

theorem boxes_nil : boxes [] = [] := rfl

/-- Boxes one after another are read back. -/
theorem boxes_flatMap {list : List (Bytes × Bytes)}
    (each : ∀ item ∈ list, item.1.length = 4 ∧ item.2.length + 8 < 2 ^ 32) (rest : Bytes) :
    boxes (list.flatMap (fun item => box item.1 item.2) ++ rest) = list ++ boxes rest := by
  induction list with
  | nil => rfl
  | cons item list ih =>
    obtain ⟨four, fits⟩ := each item List.mem_cons_self
    rw [List.flatMap_cons, List.append_assoc, boxes_box four fits,
      ih fun other member => each other (List.mem_cons_of_mem _ member)]
    rfl

end IsoMedia

end Gunda.Lib

import Gunda.Stream.Hls
import Gunda.Lib.Rounds
import Gunda.Lib.Scan

/-!
# Attribute lists

What an attribute list is read as when it was written with quoted and unquoted values, and
the source's loop without a bound on its rounds.
-/
namespace Gunda.Stream.Hls

open Gunda.Lib Gunda.Lib.Text

/-! ## The loop -/

/-- One round of the loop: an attribute, and what is left to read. -/
def attributeRound (rest : Text) : Except ManifestError ((Text × Text) × Text) := do
  let (name, tail) ← required .malformed (splitOnce '=' rest)
  let name := trim name
  if name = [] ∨ name.any isWhitespace then
    throw .malformed
  let (value, next) ← attributeValue tail
  pure ((name, value), trimStart next)

/-- The loop of `parse_attributes`: what is left to read, and the pairs so far. -/
def attributeStep (state : Text × Attributes) :
    Except ManifestError (Attributes ⊕ (Text × Attributes)) :=
  if state.1 = [] then .ok (.inl state.2)
  else (attributeRound state.1).map fun read => .inr (read.2, state.2 ++ [read.1])

section Loop

variable {rest next : Text} {pair : Text × Text}

theorem attributePairs_succ (rounds : Nat) (more : rest ≠ []) :
    attributePairs (rounds + 1) rest = match attributeRound rest with
      | .error error => .error error
      | .ok (pair, next) => (attributePairs rounds next).map (pair :: ·) := by
  obtain ⟨c, tail, same⟩ := List.exists_cons_of_ne_nil more
  rw [same, attributePairs, attributeRound]
  · cases required ManifestError.malformed (splitOnce '=' (c :: tail)) with
    | error error => rfl
    | ok parts =>
      rw [ok_bind, ok_bind]
      dsimp only
      split
      · rfl
      · cases attributeValue parts.2 <;> rfl
  · exact List.cons_ne_nil _ _

theorem attributeValue_length {tail value : Text} (h : attributeValue tail = .ok (value, next)) :
    next.length ≤ tail.length := by
  unfold attributeValue at h
  split at h
  · rename_i quoted
    split at h
    · cases h
    · rename_i value' tail' found
      have shorter := splitOnce_length found
      have trimmed := @trimStart_length tail'
      rw [List.length_cons]
      split at h
      · rename_i after shape
        cases h
        rw [shape, List.length_cons] at trimmed
        omega
      · cases h
        exact Nat.zero_le _
      · cases h
  · split at h
    · rename_i found
      cases h
      exact Nat.le_of_lt (splitOnce_length found)
    · cases h
      exact Nat.zero_le _

/-- Every round takes something off the rest. -/
theorem attributeRound_length (h : attributeRound rest = .ok (pair, next)) :
    next.length < rest.length := by
  unfold attributeRound at h
  obtain ⟨⟨name, tail⟩, found, h⟩ := bind_ok h
  obtain ⟨_, h⟩ := guard_ok h
  obtain ⟨⟨value, left⟩, valued, h⟩ := bind_ok h
  cases h
  have first := splitOnce_length (required_ok found)
  have second := attributeValue_length valued
  exact Nat.lt_of_le_of_lt trimStart_length (Nat.lt_of_le_of_lt second first)

theorem attributeStep_ok {pairs : Attributes} (more : rest ≠ [])
    (read : attributeRound rest = .ok (pair, next)) :
    attributeStep (rest, pairs) = .ok (.inr (next, pairs ++ [pair])) := by
  unfold attributeStep
  rw [if_neg more, read]
  rfl

theorem attributePairs_rounds (rounds : Nat) (enough : rest.length ≤ rounds) (pairs : Attributes) :
    Rounds attributeStep (rest, pairs) ((attributePairs rounds rest).map (pairs ++ ·)) := by
  have done : Rounds attributeStep ([], pairs) (.ok (pairs ++ [])) := by
    rw [List.append_nil]
    exact .ended rfl
  induction rounds generalizing rest pairs with
  | zero =>
    rw [List.length_eq_zero_iff.mp (Nat.le_zero.mp enough)]
    exact done
  | succ rounds ih =>
    by_cases empty : rest = []
    · rw [empty]
      exact done
    · rw [attributePairs_succ rounds empty]
      cases read : attributeRound rest with
      | error error =>
        refine .failed ?_
        unfold attributeStep
        rw [if_neg empty, read]
        rfl
      | ok read' =>
        obtain ⟨pair, next⟩ := read'
        have shorter := attributeRound_length read
        have later := @ih next (by omega) (pairs ++ [pair])
          (by rw [List.append_nil]; exact .ended rfl)
        refine .next (attributeStep_ok empty read) ?_
        dsimp only
        cases tail : attributePairs rounds next with
        | error error =>
          rw [tail] at later
          exact later
        | ok others =>
          have same : pairs ++ pair :: others = pairs ++ [pair] ++ others := List.append_cons _ _ _
          rw [tail] at later
          change Rounds attributeStep _ (.ok (pairs ++ pair :: others))
          rw [same]
          exact later

/-- The loop comes to an end on every input, with what `parse_attributes` returns. -/
theorem parseAttributes_rounds (input : Text) :
    Rounds attributeStep (input, []) (parseAttributes input) := by
  have rounds := attributePairs_rounds input.length (Nat.le_refl _) []
  unfold parseAttributes
  cases read : attributePairs input.length input <;> rw [read] at rounds <;> exact rounds

end Loop

/-! ## Written lists -/

/-- An attribute as it is written, with the whitespace after the comma that follows it. -/
structure WrittenAttribute where
  name : Text
  value : Text
  quoted : Bool
  gap : Text

namespace WrittenAttribute

structure Legal (written : WrittenAttribute) : Prop where
  named : written.name ≠ []
  solid : Solid written.name
  name : '=' ∉ written.name
  quotes : written.quoted = true → '"' ∉ written.value
  plain : written.quoted = false → ',' ∉ written.value ∧ written.value.head? ≠ some '"'
  gap : Blank written.gap

def writtenValue (written : WrittenAttribute) : Text :=
  if written.quoted then '"' :: (written.value ++ ['"']) else written.value

def text (written : WrittenAttribute) : Text :=
  written.name ++ '=' :: written.writtenValue

def pair (written : WrittenAttribute) : Text × Text := (written.name, written.value)

end WrittenAttribute

def writeAttributes : List WrittenAttribute → Text
  | [] => []
  | [written] => written.text
  | written :: next :: others =>
      written.text ++ ',' :: (written.gap ++ writeAttributes (next :: others))

section Written

variable {written : WrittenAttribute} {attributes : List WrittenAttribute}

theorem attributeValue_last (legal : written.Legal) :
    attributeValue written.writtenValue = .ok (written.value, []) := by
  unfold WrittenAttribute.writtenValue
  cases quoted : written.quoted with
  | true =>
    rw [if_pos rfl, attributeValue, splitOnce_append (legal.quotes quoted)]
    rfl
  | false =>
    obtain ⟨noComma, noQuote⟩ := legal.plain quoted
    rw [if_neg Bool.false_ne_true]
    unfold attributeValue
    split
    · rename_i rest shape
      rw [shape] at noQuote
      exact absurd rfl noQuote
    · rw [splitOnce_none_iff.mpr noComma]

theorem attributeValue_comma (legal : written.Legal) (rest : Text) :
    attributeValue (written.writtenValue ++ ',' :: rest) = .ok (written.value, rest) := by
  unfold WrittenAttribute.writtenValue
  cases quoted : written.quoted with
  | true =>
    rw [if_pos rfl, List.cons_append, List.append_assoc, attributeValue, List.singleton_append,
      splitOnce_append (legal.quotes quoted)]
    dsimp only
    rw [trimStart_cons (by decide)]
    rfl
  | false =>
    obtain ⟨noComma, noQuote⟩ := legal.plain quoted
    rw [if_neg Bool.false_ne_true]
    unfold attributeValue
    split
    · rename_i rest' shape
      cases value : written.value with
      | nil =>
        rw [value] at shape
        cases shape
      | cons c others =>
        rw [value] at shape noQuote
        cases shape
        exact absurd rfl noQuote
    · rw [splitOnce_append noComma]

theorem attributeRound_written (legal : written.Legal) {tail next : Text}
    (valued : attributeValue tail = .ok (written.value, next)) :
    attributeRound (written.name ++ '=' :: tail) = .ok (written.pair, trimStart next) := by
  have accepted : ¬ (written.name = [] ∨ written.name.any isWhitespace = true) := by
    rw [any_isWhitespace_solid legal.solid]
    exact fun both => both.elim legal.named Bool.false_ne_true
  unfold attributeRound
  rw [splitOnce_append legal.name, required, ok_bind]
  dsimp only
  rw [trim_solid legal.solid, if_neg accepted, valued]
  rfl

theorem trimStart_written (all : ∀ written ∈ attributes, written.Legal) :
    trimStart (writeAttributes attributes) = writeAttributes attributes := by
  have starts {written : WrittenAttribute} (legal : written.Legal) (rest : Text) :
      trimStart (written.name ++ rest) = written.name ++ rest := by
    obtain ⟨c, others, same⟩ := List.exists_cons_of_ne_nil legal.named
    rw [same]
    exact trimStart_cons (legal.solid c (same ▸ List.mem_cons_self))
  match attributes with
  | [] => rfl
  | [written] => exact starts (all written List.mem_cons_self) _
  | written :: next :: others =>
    rw [writeAttributes, WrittenAttribute.text, List.append_assoc]
    exact starts (all written List.mem_cons_self) _

theorem writeAttributes_rounds (all : ∀ written ∈ attributes, written.Legal) (pairs : Attributes) :
    Rounds attributeStep (writeAttributes attributes, pairs)
      (.ok (pairs ++ attributes.map (·.pair))) := by
  have done (pairs : Attributes) : Rounds attributeStep ([], pairs) (.ok pairs) := .ended rfl
  induction attributes generalizing pairs with
  | nil =>
    rw [List.map_nil, List.append_nil]
    exact done pairs
  | cons written others ih =>
    obtain ⟨legal, rest⟩ := List.forall_mem_cons.mp all
    have more {tail : Text} : written.name ++ '=' :: tail ≠ [] :=
      List.append_ne_nil_of_right_ne_nil _ (List.cons_ne_nil _ _)
    rw [List.map_cons]
    cases others with
    | nil =>
      have read := attributeRound_written legal (attributeValue_last legal)
      exact .next (attributeStep_ok more read) (done _)
    | cons next others =>
      have read := attributeRound_written legal
        (attributeValue_comma legal (written.gap ++ writeAttributes (next :: others)))
      rw [trimStart_blank legal.gap, trimStart_written rest] at read
      have same : pairs ++ written.pair :: (next :: others).map (·.pair) =
          pairs ++ [written.pair] ++ (next :: others).map (·.pair) := List.append_cons _ _ _
      rw [writeAttributes, WrittenAttribute.text, List.append_assoc, List.cons_append, same]
      exact .next (attributeStep_ok more read) (ih rest _)

/-- The loop comes to an end on every input, and reads a written list back as its pairs. -/
theorem attributes_read_back :
    (∀ attributes : List WrittenAttribute, (∀ written ∈ attributes, written.Legal) →
      parseAttributes (writeAttributes attributes) = .ok (attributes.map (·.pair))) ∧
    ∀ input, Rounds attributeStep (input, []) (parseAttributes input) :=
  ⟨fun _ all => (parseAttributes_rounds _).unique (writeAttributes_rounds all []),
    parseAttributes_rounds⟩

end Written

/-- A quoted value with the list's own delimiters, and an unquoted one. -/
def sampleAttributes : List WrittenAttribute :=
  [⟨"NAME".toList, "a, b=".toList, true, " ".toList⟩,
    ⟨"BANDWIDTH".toList, "1 = 2".toList, false, []⟩]

theorem sample_attributes_read_back :
    writeAttributes sampleAttributes = "NAME=\"a, b=\", BANDWIDTH=1 = 2".toList ∧
      parseAttributes (writeAttributes sampleAttributes) =
        .ok [("NAME".toList, "a, b=".toList), ("BANDWIDTH".toList, "1 = 2".toList)] := by
  refine ⟨by decide, attributes_read_back.1 sampleAttributes ?_⟩
  intro written member
  rcases List.mem_cons.mp member with first | second
  · rw [first]
    exact ⟨by decide, by decide, by decide, by decide, by decide, by decide⟩
  · rw [List.mem_singleton.mp second]
    exact ⟨by decide, by decide, by decide, by decide, by decide, by decide⟩

end Gunda.Stream.Hls

import Gunda.Stream.XmlRounds

/-!
# References in character data

What the references of a text stand for, beside `decode_entities` of
`gunda-stream/src/xml.rs`, which reads each ampersand with the next semicolon.
-/
namespace Gunda.Stream.Xml

open Gunda.Lib Gunda.Lib.Text

def predefined : List (Text × Char) :=
  [("amp".toList, '&'), ("lt".toList, '<'), ("gt".toList, '>'), ("quot".toList, '"'),
    ("apos".toList, '\'')]

/-- The number after a number sign, decimal or hexadecimal, with an optional plus sign. -/
def numberOf : Text → Option Nat
  | '#' :: 'x' :: digits => parseHexU32 digits
  | '#' :: 'X' :: digits => parseHexU32 digits
  | '#' :: digits => parseU32 digits
  | _ => none

/-- The character that an entity stands for: one of the five names, or the number of a
character. -/
def standsFor (entity : Text) : Option Char :=
  match predefined.find? fun pair => pair.1 = entity with
  | some pair => some pair.2
  | none => (numberOf entity).bind charFromU32

/-- The character of a well-formed reference, whose number is of digits alone. -/
def reference (entity : Text) : Option Char :=
  if '+' ∈ entity then none else standsFor entity

/-- An entity whose number, if it has one, cannot be read. -/
def Unreadable (entity : Text) : Prop := entity.head? = some '#' ∧ numberOf entity = none

instance : DecidablePred Unreadable := fun entity =>
  inferInstanceAs (Decidable (entity.head? = some '#' ∧ numberOf entity = none))

section Entities

variable {entity : Text} {c : Char}

theorem decodeEntity_find (entity : Text) : decodeEntity entity =
    match predefined.find? fun pair => pair.1 = entity with
    | some pair => .ok (some pair.2)
    | none => decodeCharacterReference entity := by
  unfold decodeEntity
  by_cases amp : entity = "amp".toList
  · rw [amp]
    rfl
  · by_cases lt : entity = "lt".toList
    · rw [lt]
      rfl
    · by_cases gt : entity = "gt".toList
      · rw [gt]
        rfl
      · by_cases quot : entity = "quot".toList
        · rw [quot]
          rfl
        · by_cases apos : entity = "apos".toList
          · rw [apos]
            rfl
          · have absent : predefined.find? (fun pair => pair.1 = entity) = none := by
              unfold predefined
              simp only [List.find?_cons, Ne.symm amp, Ne.symm lt, Ne.symm gt, Ne.symm quot,
                Ne.symm apos, decide_false, List.find?_nil]
            rw [absent, if_neg amp, if_neg lt, if_neg gt, if_neg quot, if_neg apos]

theorem predefined_head {pair : Text × Char}
    (found : (predefined.find? fun pair => pair.1 = entity) = some pair) :
    entity.head? ≠ some '#' := by
  have same : pair.1 = entity := by
    have named := List.find?_some found
    simpa using named
  have all : ∀ pair ∈ predefined, pair.1.head? ≠ some '#' := by decide
  exact same ▸ all pair (List.mem_of_find?_eq_some found)

theorem decodeCharacterReference_eq (entity : Text) : decodeCharacterReference entity =
    if entity.head? = some '#' then (required .malformed (numberOf entity)).map charFromU32
    else .ok none := by
  unfold decodeCharacterReference
  split
  · rename_i digits
    rw [show ('#' :: digits).head? = some '#' from rfl, if_pos rfl]
    split
    · rename_i hex
      rw [numberOf]
      cases parseHexU32 hex <;> rfl
    · rename_i hex
      rw [numberOf]
      cases parseHexU32 hex <;> rfl
    · rename_i notLower notUpper
      rw [numberOf]
      · cases parseU32 digits <;> rfl
      · exact notLower
      · exact notUpper
  · rename_i other
    rw [if_neg]
    intro first
    cases entity with
    | nil => cases first
    | cons d digits =>
      cases first
      exact absurd rfl (other _)

/-- An entity is read as what it stands for, unless its number cannot be read. -/
theorem decodeEntity_eq (entity : Text) : decodeEntity entity =
    if Unreadable entity then .error .malformed else .ok (standsFor entity) := by
  rw [decodeEntity_find, standsFor]
  cases found : predefined.find? fun pair => pair.1 = entity with
  | some pair =>
    rw [if_neg fun unreadable => predefined_head found unreadable.1]
  | none =>
    rw [decodeCharacterReference_eq]
    by_cases numeric : entity.head? = some '#'
    · rw [if_pos numeric]
      cases read : numberOf entity with
      | none => rw [if_pos ⟨numeric, read⟩]; rfl
      | some code =>
        rw [if_neg]
        · rfl
        · intro unreadable
          rw [unreadable.2] at read
          cases read
    · rw [if_neg numeric, if_neg fun unreadable => numeric unreadable.1]
      have unread : numberOf entity = none := by
        unfold numberOf
        split
        · exact absurd rfl numeric
        · exact absurd rfl numeric
        · exact absurd rfl numeric
        · rfl
      rw [unread]
      rfl

theorem decodeEntity_reference (known : reference entity = some c) :
    decodeEntity entity = .ok (some c) := by
  unfold reference at known
  split at known
  · cases known
  · rw [decodeEntity_eq, known, if_neg]
    intro unreadable
    unfold standsFor at known
    rw [unreadable.2] at known
    cases found : predefined.find? fun pair => pair.1 = entity with
    | some pair => exact predefined_head found unreadable.1
    | none =>
      rw [found] at known
      cases known

/-- The characters of the names and numbers that stand for a character. -/
def entityChar (c : Char) : Bool :=
  c ∈ "#xX+ampltgquos".toList || c.isDigit || (hexDigitValue c).isSome

theorem numberOf_chars {code : Nat} (read : numberOf entity = some code) :
    ∀ d ∈ entity, entityChar d = true := by
  have hex {digits : Text} {code : Nat} (read : parseHexU32 digits = some code) :
      ∀ d ∈ digits, entityChar d = true := by
    intro d member
    rcases (parseHexU32_chars read).2 d member with rfl | digit
    · rfl
    · rw [entityChar, digit, Bool.or_true]
  unfold numberOf at read
  split at read
  · rw [List.forall_mem_cons, List.forall_mem_cons]
    exact ⟨rfl, rfl, hex read⟩
  · rw [List.forall_mem_cons, List.forall_mem_cons]
    exact ⟨rfl, rfl, hex read⟩
  · rw [List.forall_mem_cons]
    refine ⟨rfl, fun d member => ?_⟩
    rcases (parseUnsigned_chars read).2 d member with rfl | digit
    · rfl
    · rw [entityChar, digit, Bool.or_true, Bool.true_or]
  · cases read

theorem standsFor_chars (known : standsFor entity = some c) : ∀ d ∈ entity, entityChar d = true := by
  unfold standsFor at known
  split at known
  · rename_i pair found
    have same : pair.1 = entity := by
      have named := List.find?_some found
      simpa using named
    have all : (predefined.all fun pair => pair.1.all entityChar) = true := by decide
    have held := List.all_eq_true.mp all pair (List.mem_of_find?_eq_some found)
    exact same ▸ List.all_eq_true.mp held
  · obtain ⟨code, read, _⟩ := Option.bind_eq_some_iff.mp known
    exact numberOf_chars read

theorem reference_stands (known : reference entity = some c) : standsFor entity = some c := by
  unfold reference at known
  split at known
  · cases known
  · exact known

/-- An entity that stands for a character has neither ampersand nor semicolon. -/
theorem standsFor_plain (known : standsFor entity = some c) : '&' ∉ entity ∧ ';' ∉ entity :=
  ⟨fun member => absurd (standsFor_chars known _ member) (by decide),
    fun member => absurd (standsFor_chars known _ member) (by decide)⟩

theorem reference_plain (known : reference entity = some c) : '&' ∉ entity ∧ ';' ∉ entity :=
  standsFor_plain (reference_stands known)

end Entities

/-! ## Texts -/

/-- A text as it is written: the reserved characters as references, any other character as
itself or as a reference. -/
inductive Written (reserved : Text) : Text → Text → Prop
  | nil : Written reserved [] []
  | plain {c : Char} {value text : Text} (allowed : c ∉ reserved)
      (rest : Written reserved value text) : Written reserved (c :: value) (c :: text)
  | escaped {c : Char} {entity value text : Text} (known : reference entity = some c)
      (rest : Written reserved value text) :
      Written reserved (c :: value) ('&' :: (entity ++ ';' :: text))

section Texts

variable {rest literal after entity next value text reserved : Text} {c : Char}

/-- Enough rounds are as many as there are characters. -/
theorem decodeRounds_enough {rounds : Nat} (enough : rest.length ≤ rounds) :
    decodeRounds rounds rest = decodeEntities rest := by
  unfold decodeEntities
  induction size : rest.length using Nat.strongRecOn generalizing rest rounds with
  | _ length ih =>
    cases split : splitOnce '&' rest with
    | none => rw [decodeRounds_plain _ split, decodeRounds_plain _ split]
    | some parts =>
      obtain ⟨literal, after⟩ := parts
      have shorter := splitOnce_length split
      obtain ⟨more, rfl⟩ : ∃ more, rounds = more + 1 := ⟨rounds - 1, by omega⟩
      obtain ⟨fewer, rfl⟩ : ∃ fewer, length = fewer + 1 := ⟨length - 1, by omega⟩
      cases ended : splitOnce ';' after with
      | none =>
        rw [decodeRounds_bare _ split ended, decodeRounds_bare _ split ended,
          ih after.length (by omega) (by omega) rfl,
          @ih after.length (by omega) after fewer (by omega) rfl]
      | some parts =>
        obtain ⟨entity, next⟩ := parts
        have less := splitOnce_length ended
        rw [decodeRounds_entity _ split ended, decodeRounds_entity _ split ended,
          ih next.length (by omega) (by omega) rfl,
          @ih next.length (by omega) next fewer (by omega) rfl]

theorem decodeEntities_plain (split : splitOnce '&' rest = none) :
    decodeEntities rest = .ok rest :=
  decodeRounds_plain _ split

theorem decodeEntities_bare (split : splitOnce '&' rest = some (literal, after))
    (opened : splitOnce ';' after = none) :
    decodeEntities rest = (decodeEntities after).map fun tail => literal ++ '&' :: tail := by
  have shorter := splitOnce_length split
  rw [← decodeRounds_enough (Nat.le_succ rest.length), decodeRounds_bare _ split opened,
    decodeRounds_enough (Nat.le_of_lt shorter)]

theorem decodeEntities_entity (split : splitOnce '&' rest = some (literal, after))
    (closed : splitOnce ';' after = some (entity, next)) :
    decodeEntities rest = (decodeEntity entity >>= fun replacement =>
      (decodeEntities next).map fun tail =>
        literal ++ replacementText entity replacement ++ tail) := by
  have shorter := splitOnce_length split
  have fewer := splitOnce_length closed
  rw [← decodeRounds_enough (Nat.le_succ rest.length), decodeRounds_entity _ split closed,
    decodeRounds_enough (by omega)]

/-- Without a semicolon nothing is decoded. -/
theorem decodeEntities_open (absent : ';' ∉ rest) : decodeEntities rest = .ok rest := by
  induction size : rest.length using Nat.strongRecOn generalizing rest with
  | _ length ih =>
    cases split : splitOnce '&' rest with
    | none => exact decodeEntities_plain split
    | some parts =>
      obtain ⟨literal, after⟩ := parts
      have whole := (splitOnce_eq_some split).1
      have shorter := splitOnce_length split
      have later : ';' ∉ after := by
        rw [whole, List.mem_append, List.mem_cons] at absent
        exact fun member => absent (.inr (.inr member))
      rw [decodeEntities_bare split (splitOnce_none_iff.mpr later),
        ih after.length (by omega) later rfl, whole]
      rfl

theorem decodeEntities_cons (other : c ≠ '&') :
    decodeEntities (c :: rest) = (decodeEntities rest).map (c :: ·) := by
  have split : splitOnce '&' (c :: rest) =
      (splitOnce '&' rest).map fun parts => (c :: parts.1, parts.2) := if_neg other
  cases found : splitOnce '&' rest with
  | none =>
    rw [found] at split
    rw [decodeEntities_plain split, decodeEntities_plain found]
    rfl
  | some parts =>
    obtain ⟨literal, after⟩ := parts
    rw [found] at split
    cases closed : splitOnce ';' after with
    | none =>
      rw [decodeEntities_bare split closed, decodeEntities_bare found closed]
      cases decodeEntities after <;> rfl
    | some parts =>
      obtain ⟨entity, next⟩ := parts
      rw [decodeEntities_entity split closed, decodeEntities_entity found closed]
      cases decodeEntity entity with
      | error error => rfl
      | ok replacement => cases decodeEntities next <;> rfl

theorem decodeEntities_ampersand (closed : splitOnce ';' rest = some (entity, next)) :
    decodeEntities ('&' :: rest) = (decodeEntity entity >>= fun replacement =>
      (decodeEntities next).map fun tail => replacementText entity replacement ++ tail) :=
  @decodeEntities_entity _ [] _ _ _ (if_pos rfl) closed

/-- What is written is what is read. -/
theorem decodeEntities_written (ampersand : '&' ∈ reserved) (written : Written reserved value text) :
    decodeEntities text = .ok value := by
  induction written with
  | nil => rfl
  | plain allowed _ ih =>
    have other {c : Char} (allowed : c ∉ reserved) : c ≠ '&' :=
      fun same => allowed (same ▸ ampersand)
    rw [decodeEntities_cons (other allowed), ih]
    rfl
  | escaped known _ ih =>
    rw [decodeEntities_ampersand (splitOnce_append (reference_plain known).2),
      decodeEntity_reference known, ok_bind, ih]
    rfl

/-- A reserved character is not there as itself. -/
theorem written_absent (written : Written reserved value text) (held : c ∈ reserved)
    (unused : entityChar c = false) (ampersand : c ≠ '&') (semicolon : c ≠ ';') : c ∉ text := by
  induction written with
  | nil => exact List.not_mem_nil
  | plain allowed _ ih =>
    rw [List.mem_cons, not_or]
    exact ⟨fun same => allowed (same ▸ held), ih⟩
  | escaped known _ ih =>
    rw [List.mem_cons, List.mem_append, List.mem_cons, not_or, not_or, not_or]
    refine ⟨ampersand, fun member => ?_, semicolon, ih⟩
    rw [standsFor_chars (reference_stands known) c member] at unused
    cases unused

end Texts

end Gunda.Stream.Xml

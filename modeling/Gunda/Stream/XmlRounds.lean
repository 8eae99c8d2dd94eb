import Gunda.Stream.Xml
import Gunda.Lib.Rounds
import Gunda.Lib.Scan

/-!
# The loops of the XML reader

One round of each loop of `gunda-stream/src/xml.rs`, what a round takes off the input, and the
reader's functions as the results of their loops.
-/
namespace Gunda.Stream.Xml

open Gunda.Lib Gunda.Lib.Text

/-! ## Character references -/

/-- What an entity is replaced by; one that is not known stays. -/
def replacementText (entity : Text) : Option Char → Text
  | some character => [character]
  | none => '&' :: entity ++ [';']

section References

variable {rest literal after entity next : Text}

theorem decodeRounds_plain (rounds : Nat) (split : splitOnce '&' rest = none) :
    decodeRounds rounds rest = .ok rest := by
  cases rounds with
  | zero => rfl
  | succ rounds => rw [decodeRounds, split]

theorem decodeRounds_bare (rounds : Nat) (split : splitOnce '&' rest = some (literal, after))
    (open_ : splitOnce ';' after = none) :
    decodeRounds (rounds + 1) rest =
      (decodeRounds rounds after).map fun tail => literal ++ '&' :: tail := by
  rw [decodeRounds, split]
  dsimp only
  rw [open_]
  cases decodeRounds rounds after <;> rfl

theorem decodeRounds_entity (rounds : Nat) (split : splitOnce '&' rest = some (literal, after))
    (closed : splitOnce ';' after = some (entity, next)) :
    decodeRounds (rounds + 1) rest = (decodeEntity entity >>= fun replacement =>
      (decodeRounds rounds next).map fun tail =>
        literal ++ replacementText entity replacement ++ tail) := by
  rw [decodeRounds, split]
  dsimp only
  rw [closed]
  dsimp only
  cases decodeEntity entity with
  | error error => rfl
  | ok replacement => cases replacement <;> cases decodeRounds rounds next <;> rfl

end References

/-! ## Tags -/

/-- An attribute at the start of a tag's rest: what follows it, and the attributes with it. -/
def tagAttribute (rest : Text) (attributes : List (Text × Text)) :
    Except ManifestError (Text × List (Text × Text)) := do
  let (key, tail) ← required .malformed (splitOnce '=' rest)
  let key := trim key
  if key = [] ∨ key.any isWhitespace then
    throw .malformed
  let key := localName key
  let (value, next) ← tagAttributeValue (trimStart tail)
  if attributes.any fun existing => existing.1 = key then
    throw .malformed
  let value ← decodeEntities value
  pure (trimStart next, attributes ++ [(key, value)])

/-- A round of the loop over a tag's attributes. -/
def tagRound (state : Text × List (Text × Text)) :
    Except ManifestError (List (Text × Text) ⊕ (Text × List (Text × Text))) :=
  if state.1 = [] then .ok (.inl state.2) else (tagAttribute state.1 state.2).map .inr

section Tags

variable {rest next : Text} {attributes more : List (Text × Text)}

theorem tagAttributes_succ (rounds : Nat) (nonempty : rest ≠ []) :
    tagAttributes (rounds + 1) rest attributes = (tagAttribute rest attributes >>= fun read =>
      tagAttributes rounds read.1 read.2) := by
  obtain ⟨c, tail, same⟩ := List.exists_cons_of_ne_nil nonempty
  rw [same, tagAttributes, tagAttribute]
  · cases required ManifestError.malformed (splitOnce '=' (c :: tail)) with
    | error error => rfl
    | ok parts =>
      rw [ok_bind, ok_bind]
      dsimp only
      split
      · rfl
      · cases tagAttributeValue (trimStart parts.2) with
        | error error => rfl
        | ok value =>
          dsimp only [bind, Except.bind]
          split
          · rfl
          · cases decodeEntities value.1 <;> rfl
  · exact List.cons_ne_nil _ _

theorem tagAttributeValue_length {tail value : Text}
    (h : tagAttributeValue tail = .ok (value, next)) : next.length ≤ tail.length := by
  unfold tagAttributeValue at h
  split at h
  · have shorter := splitOnce_length (required_ok h)
    rw [List.length_cons]
    omega
  · have shorter := splitOnce_length (required_ok h)
    rw [List.length_cons]
    omega
  · cases h
    exact (List.dropWhile_suffix _).length_le

theorem tagAttribute_length (h : tagAttribute rest attributes = .ok (next, more)) :
    next.length < rest.length := by
  unfold tagAttribute at h
  obtain ⟨⟨key, tail⟩, found, h⟩ := bind_ok h
  obtain ⟨_, h⟩ := guard_ok h
  obtain ⟨⟨value, left⟩, valued, h⟩ := bind_ok h
  obtain ⟨_, h⟩ := guard_ok h
  obtain ⟨decoded, _, h⟩ := bind_ok h
  cases h
  have first := splitOnce_length (required_ok found)
  have second := tagAttributeValue_length valued
  exact Nat.lt_of_le_of_lt trimStart_length
    (Nat.lt_of_le_of_lt second (Nat.lt_of_le_of_lt trimStart_length first))

theorem tagAttributes_rounds (rounds : Nat) (enough : rest.length ≤ rounds) :
    Rounds tagRound (rest, attributes) (tagAttributes rounds rest attributes) := by
  have finished {attributes : List (Text × Text)} (rounds : Nat) :
      Rounds tagRound ([], attributes) (tagAttributes rounds [] attributes) := by
    have same : tagAttributes rounds [] attributes = .ok attributes := by
      cases rounds <;> rfl
    rw [same]
    exact .ended rfl
  induction rounds generalizing rest attributes with
  | zero =>
    rw [List.length_eq_zero_iff.mp (Nat.le_zero.mp enough)]
    exact finished 0
  | succ rounds ih =>
    by_cases empty : rest = []
    · rw [empty]
      exact finished _
    · have step : tagRound (rest, attributes) = (tagAttribute rest attributes).map .inr :=
        if_neg empty
      rw [tagAttributes_succ rounds empty]
      cases read : tagAttribute rest attributes with
      | error error =>
        rw [read] at step
        exact .failed step
      | ok result =>
        rw [read] at step
        have shorter := tagAttribute_length read
        exact .next step (ih (by omega))

end Tags

/-! ## Documents -/

/-- A round of the document loop: text up to the next markup, and the markup. -/
def documentRound (state : Reader × Text) : Except ManifestError (Node ⊕ (Reader × Text)) :=
  if state.2 = [] then state.1.finish.map .inl
  else match splitOnce '<' state.2 with
    | none => (state.1.pushText state.2 >>= Reader.finish).map .inl
    | some (text, after) =>
        (state.1.pushText text >>= fun reader => readMarkup reader after).map .inr

/-- The reader before its first round. -/
def Reader.start : Reader := ⟨[], none, 0⟩

/-- The input without a byte order mark. -/
def unmarked (input : Text) : Text := (stripPrefix [Char.ofNat 0xFEFF] input).getD input

theorem findTagEnd_eq_some {quote : Option Char} {text inner rest : Text}
    (h : findTagEnd quote text = some (inner, rest)) : text = inner ++ '>' :: rest := by
  induction text generalizing quote inner with
  | nil => cases h
  | cons c text ih =>
    unfold findTagEnd at h
    split at h
    · obtain ⟨parts, later, same⟩ := Option.map_eq_some_iff.mp h
      cases same
      rw [ih later]
      rfl
    · split at h
      · rename_i ends
        cases h
        rw [ends]
        rfl
      · obtain ⟨parts, later, same⟩ := Option.map_eq_some_iff.mp h
        cases same
        rw [ih later]
        rfl

/-- What follows a piece of markup is a proper part of it. -/
theorem readMarkup_suffix {reader later : Reader} {after rest : Text}
    (h : readMarkup reader after = .ok (later, rest)) : ∃ c taken, after = taken ++ c :: rest := by
  have behind {text head : Text} {pattern : Text} {c : Char}
      (found : splitAtPattern (pattern ++ [c]) text = some (head, rest)) :
      ∃ taken, text = taken ++ c :: rest :=
    ⟨head ++ pattern, by rw [splitAtPattern_eq_some found]; simp⟩
  unfold readMarkup at h
  split at h
  · rename_i body shape
    obtain ⟨parts, found, h⟩ := bind_ok h
    obtain ⟨closed, _, h⟩ := bind_ok h
    cases h
    refine ⟨'>', "/".toList ++ parts.1, ?_⟩
    rw [stripPrefix_eq_some shape, (splitOnce_eq_some (required_ok found)).1, List.append_assoc]
  · split at h
    · rename_i body shape
      obtain ⟨parts, found, h⟩ := bind_ok h
      cases h
      obtain ⟨taken, same⟩ := @behind _ _ "--".toList '>' (required_ok found)
      exact ⟨'>', "!--".toList ++ taken, by rw [stripPrefix_eq_some shape, same, List.append_assoc]⟩
    · split at h
      · rename_i body shape
        obtain ⟨parts, found, h⟩ := bind_ok h
        obtain ⟨pushed, _, h⟩ := bind_ok h
        cases h
        obtain ⟨taken, same⟩ := @behind _ _ "]]".toList '>' (required_ok found)
        exact ⟨'>', "![CDATA[".toList ++ taken,
          by rw [stripPrefix_eq_some shape, same, List.append_assoc]⟩
      · split at h
        · rename_i body shape
          obtain ⟨parts, found, h⟩ := bind_ok h
          cases h
          obtain ⟨taken, same⟩ := @behind _ _ "?".toList '>' (required_ok found)
          exact ⟨'>', "?".toList ++ taken,
            by rw [stripPrefix_eq_some shape, same, List.append_assoc]⟩
        · split at h
          · obtain ⟨parts, found, h⟩ := bind_ok h
            cases h
            exact ⟨'>', parts.1, (splitOnce_eq_some (required_ok found)).1⟩
          · obtain ⟨parts, found, h⟩ := bind_ok h
            obtain ⟨opened, _, h⟩ := bind_ok h
            cases h
            exact ⟨'>', parts.1, findTagEnd_eq_some (required_ok found)⟩

section Documents

variable {reader later : Reader} {text after rest next : Text} {node : Node}

theorem documentRound_end : documentRound (reader, []) = reader.finish.map .inl := if_pos rfl

theorem documentRound_text (more : rest ≠ []) (split : splitOnce '<' rest = none) :
    documentRound (reader, rest) = (reader.pushText rest >>= Reader.finish).map .inl := by
  unfold documentRound
  rw [if_neg more]
  rw [split]

theorem documentRound_markup (split : splitOnce '<' rest = some (text, after)) :
    documentRound (reader, rest) =
      (reader.pushText text >>= fun reader => readMarkup reader after).map .inr := by
  have more : rest ≠ [] := by
    intro empty
    rw [empty] at split
    cases split
  unfold documentRound
  rw [if_neg more]
  rw [split]

section

variable (h : documentRound (reader, rest) = .ok (.inr (later, next)))
include h

/-- A round that goes on has read text and a piece of markup. -/
theorem documentRound_next :
    ∃ text after pushed, splitOnce '<' rest = some (text, after) ∧
      reader.pushText text = .ok pushed ∧ readMarkup pushed after = .ok (later, next) := by
  unfold documentRound at h
  split at h
  · obtain ⟨_, _, same⟩ := map_ok h
    cases same
  · split at h
    · obtain ⟨_, _, same⟩ := map_ok h
      cases same
    · rename_i text after split
      obtain ⟨read, h, same⟩ := map_ok h
      cases same
      obtain ⟨pushed, text', markup⟩ := bind_ok h
      exact ⟨text, after, pushed, split, text', markup⟩

theorem documentRound_length :
    next.length < rest.length := by
  obtain ⟨text, after, pushed, split, _, read⟩ := documentRound_next h
  obtain ⟨c, taken, same⟩ := readMarkup_suffix read
  have shorter := splitOnce_length split
  rw [same, List.length_append, List.length_cons] at shorter
  omega

end

theorem readDocument_rounds (rounds : Nat) (enough : rest.length ≤ rounds) :
    Rounds documentRound (reader, rest) (readDocument rounds reader rest) := by
  have finished {reader : Reader} (rounds : Nat) :
      Rounds documentRound (reader, []) (readDocument rounds reader []) := by
    have same : readDocument rounds reader [] = reader.finish := by
      cases rounds <;> rfl
    rw [same]
    cases ended : reader.finish with
    | error error => exact .failed (by rw [documentRound_end, ended]; rfl)
    | ok node => exact .ended (by rw [documentRound_end, ended]; rfl)
  induction rounds generalizing reader rest with
  | zero =>
    rw [List.length_eq_zero_iff.mp (Nat.le_zero.mp enough)]
    exact finished 0
  | succ rounds ih =>
    cases rest with
    | nil => exact finished _
    | cons c rest =>
      rw [readDocument]
      · cases split : splitOnce '<' (c :: rest) with
        | none =>
          have step := @documentRound_text reader _ (List.cons_ne_nil c rest) split
          cases ended : reader.pushText (c :: rest) >>= Reader.finish with
          | error error => exact .failed (by rw [step, ended]; rfl)
          | ok node => exact .ended (by rw [step, ended]; rfl)
        | some parts =>
          have step := @documentRound_markup reader _ _ _ split
          dsimp only
          cases pushed : reader.pushText parts.1 with
          | error error => exact .failed (by rw [step, pushed]; rfl)
          | ok middle =>
            rw [pushed, ok_bind] at step
            rw [ok_bind]
            cases read : readMarkup middle parts.2 with
            | error error => exact .failed (by rw [step, read]; rfl)
            | ok result =>
              rw [read] at step
              have shorter := documentRound_length step
              exact .next step (ih (by omega))
      · exact List.cons_ne_nil c rest

/-- The loop comes to an end on every input, with what `parse_document` returns. -/
theorem parseDocument_rounds (input : Text) :
    Rounds documentRound (Reader.start, unmarked input) (parseDocument input) :=
  readDocument_rounds _ (Nat.le_refl _)

end Documents

end Gunda.Stream.Xml

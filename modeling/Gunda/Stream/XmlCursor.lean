import Gunda.Stream.XmlRounds
import Gunda.Lib.Slices

/-!
# The XML reader by its cursor

The functions of `gunda-stream/src/xml.rs` with the byte offsets they compute and the slices
they take at them: a slice that has no characters of its own at an end of it is a fault. None
is ever met, and the results are those of the reader on characters.
-/
namespace Gunda.Stream.Xml.Cursor

open Gunda.Lib Gunda.Lib.Text

/-- How a computation fails: at a slice, in a loop without an end, or with an error. -/
inductive Fault where
  | sliced | endless
  | refused (error : ManifestError)
  deriving DecidableEq, Repr

def slice : Option Text → Except Fault Text
  | some text => .ok text
  | none => .error .sliced

def orMalformed {α : Type} : Option α → Except Fault α
  | some value => .ok value
  | none => .error (.refused .malformed)

def finished {α : Type} : Option (Except Fault α) → Except Fault α
  | some result => result
  | none => .error .endless

def lift {α : Type} (result : Except ManifestError α) : Except Fault α :=
  result.mapError .refused

/-! ## Character references -/

/-- A round of `decode_entities`: the rest and what is decoded. -/
def decodeRound (state : Text × Text) : Except Fault (Text ⊕ (Text × Text)) :=
  match findWhere (· = '&') state.1 with
  | none => .ok (.inl (state.2 ++ state.1))
  | some start => do
      let literal ← slice (sliceTo state.1 start)
      let after ← slice (sliceFrom state.1 (start + 1))
      match findWhere (· = ';') after with
      | none => pure (.inr (after, state.2 ++ literal ++ ['&']))
      | some stop => do
          let entity ← slice (sliceTo after stop)
          let replacement ← lift (decodeEntity entity)
          let rest ← slice (sliceFrom after (stop + 1))
          pure (.inr (rest, state.2 ++ literal ++ replacementText entity replacement))

def decodeEntities (value : Text) : Except Fault Text :=
  finished (Rounds.run decodeRound (value.length + 1) (value, []))

/-! ## Tags -/

def localName (name : Text) : Except Fault Text :=
  match findLast ':' name with
  | some index => slice (sliceFrom name (index + 1))
  | none => .ok name

/-- The offset of the `>` that ends a tag. -/
def findTagEnd (quote : Option Char) : Text → Option Nat
  | [] => none
  | c :: rest =>
      match quote with
      | some opened =>
          (findTagEnd (if c = opened then none else quote) rest).map (· + c.utf8Size)
      | none =>
          if c = '>' then some 0
          else (findTagEnd (if c = '"' ∨ c = '\'' then some c else none) rest).map
            (· + c.utf8Size)

/-- The text before the first whitespace and the text from there on. -/
def splitAtWhitespace (text : Text) : Except Fault (Text × Text) := do
  let split := (findWhere isWhitespace text).getD (byteLength text)
  let before ← slice (sliceTo text split)
  let after ← slice (sliceFrom text split)
  pure (before, after)

def tagAttributeValue (tail : Text) : Except Fault (Text × Text) :=
  match tail with
  | '"' :: quoted => orMalformed (splitOnce '"' quoted)
  | '\'' :: quoted => orMalformed (splitOnce '\'' quoted)
  | _ => splitAtWhitespace tail

/-- A round of `parse_tag`: the rest and the attributes so far. -/
def tagRound (state : Text × List (Text × Text)) :
    Except Fault (List (Text × Text) ⊕ (Text × List (Text × Text))) :=
  if state.1 = [] then .ok (.inl state.2)
  else do
    let (key, tail) ← orMalformed (splitOnce '=' state.1)
    let key := trim key
    if key = [] ∨ key.any isWhitespace then
      throw (.refused .malformed)
    let key ← localName key
    let (value, next) ← tagAttributeValue (trimStart tail)
    if state.2.any fun existing => existing.1 = key then
      throw (.refused .malformed)
    let value ← decodeEntities value
    pure (.inr (trimStart next, state.2 ++ [(key, value)]))

def parseTag (inner : Text) : Except Fault (Text × List (Text × Text)) := do
  let (name, rest) ← splitAtWhitespace inner
  let name := trim name
  if name = [] then
    throw (.refused .malformed)
  let rest := trimStart rest
  let attributes ← finished (Rounds.run tagRound (rest.length + 1) (rest, []))
  let name ← localName name
  pure (name, attributes)

/-! ## Documents -/

def pushText (reader : Reader) (text : Text) : Except Fault Reader :=
  if trim text = [] then .ok reader
  else match reader.stack with
    | target :: outer => do
        let decoded ← decodeEntities text
        pure { reader with stack := target.withText decoded :: outer }
    | [] => .error (.refused .malformed)

/-- The end of the innermost element, with the local name of its closing tag. -/
def closeNamed (reader : Reader) (name : Text) : Except ManifestError Reader :=
  if name = [] then .error .malformed
  else match reader.stack with
    | [] => .error .malformed
    | node :: outer =>
        if node.name ≠ name then .error .malformed
        else Reader.attach { reader with stack := outer } node

/-- A new element from its opening tag. -/
def openParsed (reader : Reader) (selfClosing : Bool) (name : Text)
    (attributes : List (Text × Text)) : Except ManifestError Reader := do
  let nodeCount := reader.nodeCount + 1
  if maxNodes < nodeCount then
    throw .malformed
  let node := Node.mk name attributes [] []
  let reader := { reader with nodeCount := nodeCount }
  if selfClosing then
    reader.attach node
  else if maxDepth ≤ reader.stack.length then
    throw .malformed
  else
    pure { reader with stack := node :: reader.stack }

/-- A piece of markup; `rest` starts with its `<`. -/
def readMarkup (reader : Reader) (cursor : Nat) (rest : Text) : Except Fault (Reader × Nat) :=
  match stripPrefix "</".toList rest with
  | some after => do
      let stop ← orMalformed (findWhere (· = '>') after)
      let name ← slice (sliceTo after stop)
      let name ← localName (trim name)
      let reader ← lift (closeNamed reader name)
      pure (reader, cursor + (2 + stop + 1))
  | none =>
    match stripPrefix "<!--".toList rest with
    | some after => do
        let stop ← orMalformed (findPattern "-->".toList after)
        pure (reader, cursor + (4 + stop + 3))
    | none =>
      match stripPrefix "<![CDATA[".toList rest with
      | some after => do
          let stop ← orMalformed (findPattern "]]>".toList after)
          let text ← slice (sliceTo after stop)
          let reader ← pushText reader text
          pure (reader, cursor + (9 + stop + 3))
      | none =>
        match stripPrefix "<?".toList rest with
        | some after => do
            let stop ← orMalformed (findPattern "?>".toList after)
            pure (reader, cursor + (2 + stop + 2))
        | none =>
          if (stripPrefix "<!".toList rest).isSome then do
            let stop ← orMalformed (findWhere (· = '>') rest)
            pure (reader, cursor + (stop + 1))
          else do
            let stop ← orMalformed (findTagEnd none rest)
            let inner ← slice (sliceBetween rest 1 stop)
            let inner := trimEnd inner
            let closed := stripSuffix ['/'] inner
            let (name, attributes) ← parseTag (trimEnd (closed.getD inner))
            let reader ← lift (openParsed reader closed.isSome name attributes)
            pure (reader, cursor + (stop + 1))

/-- A round of `parse_document`. -/
def documentRound (input : Text) (state : Reader × Nat) :
    Except Fault (Node ⊕ (Reader × Nat)) := do
  let rest ← slice (sliceFrom input state.2)
  if rest = [] then
    (lift state.1.finish).map .inl
  else match findWhere (· = '<') rest with
    | none => do
        let reader ← pushText state.1 rest
        (lift reader.finish).map .inl
    | some index => do
        let text ← slice (sliceTo rest index)
        let reader ← pushText state.1 text
        let cursor := state.2 + index
        let rest ← slice (sliceFrom input cursor)
        (readMarkup reader cursor rest).map .inr

/-! ## Every slice is there -/

section Slices

variable {c : Char} {text head tail : Text}

theorem slice_to (head tail : Text) : slice (sliceTo (head ++ tail) (byteLength head)) = .ok head := by
  rw [sliceTo_append]
  rfl

theorem slice_from (head tail : Text) :
    slice (sliceFrom (head ++ tail) (byteLength head)) = .ok tail := by
  rw [sliceFrom_append]
  rfl

theorem slice_behind (head tail : Text) (one : c.utf8Size = 1) :
    slice (sliceFrom (head ++ c :: tail) (byteLength head + 1)) = .ok tail := by
  rw [sliceFrom_behind head tail one]
  rfl

theorem findWhere_some (split : splitOnce c text = some (head, tail)) :
    findWhere (· = c) text = some (byteLength head) := by
  rw [findWhere_splitOnce, split]
  rfl

theorem findWhere_none (split : splitOnce c text = none) : findWhere (· = c) text = none := by
  rw [findWhere_splitOnce, split]
  rfl

theorem lift_ok {α : Type} {result : Except ManifestError α} {value : α}
    (h : result = .ok value) : lift result = .ok value := by
  rw [h]
  rfl

theorem lift_required {α : Type} (found : Option α) :
    lift (required .malformed found) = orMalformed found := by
  cases found <;> rfl

end Slices

section References

variable {rest decoded : Text}

theorem decodeRound_rounds (rounds : Nat) (enough : rest.length ≤ rounds) (decoded : Text) :
    Rounds decodeRound (rest, decoded)
      (lift ((decodeRounds rounds rest).map (decoded ++ ·))) := by
  induction rounds generalizing rest decoded with
  | zero =>
    rw [List.length_eq_zero_iff.mp (Nat.le_zero.mp enough)]
    exact .ended rfl
  | succ rounds ih =>
    cases split : splitOnce '&' rest with
    | none =>
      rw [decodeRounds_plain _ split]
      refine .ended ?_
      unfold decodeRound
      rw [findWhere_none split]
    | some parts =>
      obtain ⟨literal, after⟩ := parts
      have shorter := splitOnce_length split
      have whole := (splitOnce_eq_some split).1
      have before : slice (sliceTo rest (byteLength literal)) = .ok literal := by
        rw [whole]
        exact slice_to _ _
      have behind : slice (sliceFrom rest (byteLength literal + 1)) = .ok after := by
        rw [whole]
        exact slice_behind _ _ rfl
      cases ended : splitOnce ';' after with
      | none =>
        have step : decodeRound (rest, decoded) =
            .ok (.inr (after, decoded ++ literal ++ ['&'])) := by
          unfold decodeRound
          rw [findWhere_some split]
          dsimp only
          rw [before, ok_bind, behind, ok_bind, findWhere_none ended]
          rfl
        have later := @ih after (by omega) (decoded ++ literal ++ ['&'])
        rw [decodeRounds_bare _ split ended]
        refine .next step ?_
        cases read : decodeRounds rounds after with
        | error error =>
          rw [read] at later
          exact later
        | ok tail =>
          rw [read] at later
          have same : decoded ++ (literal ++ '&' :: tail) = decoded ++ literal ++ ['&'] ++ tail := by
            simp
          change Rounds decodeRound _ (.ok (decoded ++ (literal ++ '&' :: tail)))
          rw [same]
          exact later
      | some parts =>
        obtain ⟨entity, next⟩ := parts
        have fewer := splitOnce_length ended
        have inner := (splitOnce_eq_some ended).1
        have entityThere : slice (sliceTo after (byteLength entity)) = .ok entity := by
          rw [inner]
          exact slice_to _ _
        have nextThere : slice (sliceFrom after (byteLength entity + 1)) = .ok next := by
          rw [inner]
          exact slice_behind _ _ rfl
        have step : decodeRound (rest, decoded) = (lift (decodeEntity entity) >>= fun replacement =>
            .ok (.inr (next, decoded ++ literal ++ replacementText entity replacement))) := by
          unfold decodeRound
          rw [findWhere_some split]
          dsimp only
          rw [before, ok_bind, behind, ok_bind, findWhere_some ended]
          dsimp only
          rw [entityThere, ok_bind]
          simp only [nextThere, ok_bind]
          rfl
        rw [decodeRounds_entity _ split ended]
        cases entered : decodeEntity entity with
        | error error =>
          rw [entered] at step
          exact .failed step
        | ok replacement =>
          rw [entered] at step
          have later := @ih next (by omega)
            (decoded ++ literal ++ replacementText entity replacement)
          refine .next step ?_
          rw [ok_bind]
          cases read : decodeRounds rounds next with
          | error error =>
            rw [read] at later
            exact later
          | ok tail =>
            rw [read] at later
            change Rounds decodeRound _
              (.ok (decoded ++ (literal ++ replacementText entity replacement ++ tail)))
            rw [← List.append_assoc, ← List.append_assoc]
            exact later

theorem slice_behind_ok {text after : Text} {c : Char} {start : Nat}
    (found : findWhere (· = c) text = some start) (one : c.utf8Size = 1)
    (there : slice (sliceFrom text (start + 1)) = .ok after) : after.length < text.length := by
  rw [findWhere_splitOnce] at found
  obtain ⟨parts, split, same⟩ := Option.map_eq_some_iff.mp found
  have whole := (splitOnce_eq_some split).1
  rw [← same, whole, slice_behind _ _ one] at there
  cases there
  exact splitOnce_length split

theorem decodeRound_length {state later : Text × Text}
    (h : decodeRound state = .ok (.inr later)) : later.1.length < state.1.length := by
  unfold decodeRound at h
  split at h
  · cases h
  · rename_i start found
    obtain ⟨literal, _, h⟩ := bind_ok h
    obtain ⟨after, behind, h⟩ := bind_ok h
    have shorter := slice_behind_ok found rfl behind
    split at h
    · cases h
      exact shorter
    · rename_i stop ended
      obtain ⟨entity, _, h⟩ := bind_ok h
      obtain ⟨replacement, _, h⟩ := bind_ok h
      obtain ⟨rest, next, h⟩ := bind_ok h
      have fewer := slice_behind_ok ended rfl next
      cases h
      exact Nat.lt_trans fewer shorter

theorem decodeEntities_eq (value : Text) :
    decodeEntities value = lift (Xml.decodeEntities value) := by
  have rounds := @decodeRound_rounds value value.length (Nat.le_refl _) []
  unfold decodeEntities
  rw [Rounds.run_eq (fun state => state.1.length) (fun _ _ => decodeRound_length) rounds
    (Nat.lt_succ_self _)]
  unfold Xml.decodeEntities
  cases decodeRounds value.length value <;> rfl

end References

section Tags

variable {c : Char} {text rest next inner : Text} {quote : Option Char}

theorem localName_eq (name : Text) : localName name = .ok (Xml.localName name) := by
  unfold localName Xml.localName
  cases split : splitOnce ':' name.reverse with
  | none =>
    have absent := splitOnce_none_iff.mp split
    rw [List.mem_reverse] at absent
    rw [findLast_absent absent]
  | some parts =>
    obtain ⟨tail, head⟩ := parts
    obtain ⟨whole, absent⟩ := splitOnce_eq_some split
    have same : name = head.reverse ++ ':' :: tail.reverse := by
      rw [← List.reverse_reverse name, whole]
      simp
    have none : ':' ∉ tail.reverse := fun member => absent (List.mem_reverse.mp member)
    rw [same, findLast_append none]
    exact slice_behind _ _ rfl

theorem findTagEnd_eq : findTagEnd quote text =
    (Xml.findTagEnd quote text).map fun parts => byteLength parts.1 := by
  induction text generalizing quote with
  | nil => rfl
  | cons c text ih =>
    have later {found : Option (Text × Text)} :
        (found.map fun parts => byteLength parts.1).map (· + c.utf8Size) =
          (found.map fun parts => (c :: parts.1, parts.2)).map fun parts => byteLength parts.1 := by
      rw [Option.map_map, Option.map_map]
      exact congrArg (Option.map · found) (funext fun parts => Nat.add_comm _ _)
    unfold findTagEnd Xml.findTagEnd
    cases quote with
    | some opened =>
      dsimp only
      rw [ih, later]
    | none =>
      dsimp only
      by_cases ends : c = '>'
      · rw [if_pos ends, if_pos ends]
        rfl
      · rw [if_neg ends, if_neg ends, ih, later]

theorem splitAtWhitespace_eq (text : Text) : splitAtWhitespace text =
    .ok (text.takeWhile (!isWhitespace ·), text.dropWhile (!isWhitespace ·)) := by
  have whole : text = text.takeWhile (!isWhitespace ·) ++ text.dropWhile (!isWhitespace ·) :=
    List.takeWhile_append_dropWhile.symm
  have before : slice (sliceTo text (byteLength (text.takeWhile (!isWhitespace ·)))) =
      .ok (text.takeWhile (!isWhitespace ·)) := by
    have there := slice_to (text.takeWhile (!isWhitespace ·)) (text.dropWhile (!isWhitespace ·))
    rw [← whole] at there
    exact there
  have after : slice (sliceFrom text (byteLength (text.takeWhile (!isWhitespace ·)))) =
      .ok (text.dropWhile (!isWhitespace ·)) := by
    have there := slice_from (text.takeWhile (!isWhitespace ·)) (text.dropWhile (!isWhitespace ·))
    rw [← whole] at there
    exact there
  unfold splitAtWhitespace
  rw [findWhere_length]
  dsimp only
  rw [before, ok_bind, after]
  rfl

theorem tagAttributeValue_eq (tail : Text) :
    tagAttributeValue tail = lift (Xml.tagAttributeValue tail) := by
  by_cases double : ∃ quoted, tail = '"' :: quoted
  · obtain ⟨quoted, rfl⟩ := double
    exact (lift_required _).symm
  · by_cases single : ∃ quoted, tail = '\'' :: quoted
    · obtain ⟨quoted, rfl⟩ := single
      exact (lift_required _).symm
    · have bare : tagAttributeValue tail = splitAtWhitespace tail := by
        unfold tagAttributeValue
        split
        · exact absurd ⟨_, rfl⟩ double
        · exact absurd ⟨_, rfl⟩ single
        · rfl
      have plain : Xml.tagAttributeValue tail =
          .ok (tail.takeWhile (!isWhitespace ·), tail.dropWhile (!isWhitespace ·)) := by
        unfold Xml.tagAttributeValue
        split
        · exact absurd ⟨_, rfl⟩ double
        · exact absurd ⟨_, rfl⟩ single
        · rfl
      rw [bare, plain, splitAtWhitespace_eq]
      rfl

theorem tagRound_eq (state : Text × List (Text × Text)) :
    tagRound state = lift (Xml.tagRound state) := by
  unfold tagRound Xml.tagRound
  split
  · rfl
  · unfold tagAttribute
    cases splitOnce '=' state.1 with
    | none => rfl
    | some parts =>
      simp only [orMalformed, required, ok_bind, localName_eq, tagAttributeValue_eq,
        decodeEntities_eq]
      by_cases bad : trim parts.1 = [] ∨ (trim parts.1).any isWhitespace = true
      · rw [if_pos bad, if_pos bad]
        rfl
      · rw [if_neg bad, if_neg bad]
        cases Xml.tagAttributeValue (trimStart parts.2) with
        | error error => rfl
        | ok value =>
          change (if _ then _ else _) = lift (Except.map _ (if _ then _ else _))
          split
          · rfl
          · cases Xml.decodeEntities value.1 <;> rfl

theorem tagRounds_eq (rest : Text) :
    finished (Rounds.run tagRound (rest.length + 1) (rest, [])) =
      lift (tagAttributes rest.length rest []) := by
  have rounds : Rounds tagRound (rest, []) (lift (tagAttributes rest.length rest [])) := by
    apply Rounds.simulates (R := Eq) _ _ _ rfl (tagAttributes_rounds _ (Nat.le_refl _))
    · intro state _ error same step
      rw [← same, tagRound_eq, step]
      rfl
    · intro state _ value same step
      rw [← same, tagRound_eq, step]
      rfl
    · intro state _ later same step
      rw [← same, tagRound_eq, step]
      exact ⟨later, rfl, rfl⟩
  have decreases (state later : Text × List (Text × Text))
      (step : tagRound state = .ok (.inr later)) : later.1.length < state.1.length := by
    rw [tagRound_eq] at step
    have step := mapError_ok step
    unfold Xml.tagRound at step
    split at step
    · cases step
    · obtain ⟨read, found, same⟩ := map_ok step
      cases same
      exact tagAttribute_length found
  rw [Rounds.run_eq _ decreases rounds (Nat.lt_succ_self _)]
  rfl

theorem parseTag_eq (inner : Text) : parseTag inner = lift (Xml.parseTag inner) := by
  unfold parseTag Xml.parseTag
  rw [splitAtWhitespace_eq, ok_bind]
  dsimp only
  by_cases empty : trim (inner.takeWhile (!isWhitespace ·)) = []
  · rw [if_pos empty, if_pos empty]
    rfl
  · rw [if_neg empty, if_neg empty, tagRounds_eq]
    simp only [localName_eq]
    cases tagAttributes (trimStart (inner.dropWhile (!isWhitespace ·))).length
      (trimStart (inner.dropWhile (!isWhitespace ·))) [] <;> rfl

end Tags

section Documents

variable {reader : Reader} {input rest after : Text}

theorem pushText_eq (reader : Reader) (text : Text) :
    pushText reader text = lift (reader.pushText text) := by
  obtain ⟨stack, root, nodeCount⟩ := reader
  unfold pushText Reader.pushText
  split
  · rfl
  · cases stack with
    | nil => rfl
    | cons target outer =>
      rw [decodeEntities_eq]
      cases Xml.decodeEntities text <;> rfl

theorem close_eq (reader : Reader) (name : Text) :
    reader.close name = closeNamed reader (Xml.localName (trim name)) := rfl

theorem openTag_eq (reader : Reader) (inner : Text) : reader.openTag inner =
    (Xml.parseTag (trimEnd ((stripSuffix ['/'] (trimEnd inner)).getD (trimEnd inner))) >>=
      fun parsed => openParsed reader (stripSuffix ['/'] (trimEnd inner)).isSome parsed.1
        parsed.2) := rfl

/-- The cursor of what is left to read. -/
def place (input rest : Text) : Nat := byteLength input - byteLength rest

theorem place_append (before taken rest : Text) :
    place (before ++ (taken ++ rest)) rest = byteLength before + byteLength taken := by
  unfold place
  rw [byteLength_append, byteLength_append, ← Nat.add_assoc, Nat.add_sub_cancel]

/-- The reader and the cursor after a piece of markup that was read on characters. -/
def placed (input : Text) (read : Reader × Text) : Reader × Nat := (read.1, place input read.2)

theorem placed_eq (before taken : Text) {size : Nat} (whole : after = taken ++ rest)
    (length : byteLength taken + 1 = size) :
    placed (before ++ '<' :: after) (reader, rest) = (reader, byteLength before + size) := by
  have split : before ++ '<' :: after = before ++ ('<' :: taken ++ rest) := by
    rw [whole]
    rfl
  have opened : byteLength ('<' :: taken) = size := by
    rw [byteLength_cons, ← length, Nat.add_comm]
    rfl
  unfold placed
  rw [split, place_append, opened]

theorem slice_inner (inner rest : Text) :
    slice (sliceBetween ('<' :: (inner ++ '>' :: rest)) 1 (byteLength inner + 1)) = .ok inner := by
  have upTo := sliceTo_append ('<' :: inner) ('>' :: rest)
  have behind := sliceFrom_append ['<'] inner
  rw [byteLength_cons, Nat.add_comm] at upTo
  unfold sliceBetween
  rw [if_pos (Nat.le_add_left _ _)]
  rw [List.cons_append] at upTo
  exact congrArg slice ((congrArg (Option.bind · fun text => sliceFrom text 1) upTo).trans behind)

/-- An opening tag, on characters and by its offsets. -/
theorem openTag_placed (before : Text) :
    (do
      let stop ← orMalformed (findTagEnd none ('<' :: after))
      let inner ← slice (sliceBetween ('<' :: after) 1 stop)
      let inner := trimEnd inner
      let closed := stripSuffix ['/'] inner
      let (name, attributes) ← parseTag (trimEnd (closed.getD inner))
      let reader ← lift (openParsed reader closed.isSome name attributes)
      pure (reader, byteLength before + (stop + 1))) =
    (lift (do
      let (inner, rest) ← required .malformed (Xml.findTagEnd none after)
      let reader ← reader.openTag inner
      pure (reader, rest))).map (placed (before ++ '<' :: after)) := by
  have tag : findTagEnd none ('<' :: after) =
      (Xml.findTagEnd none after).map fun parts => byteLength parts.1 + 1 := by
    rw [findTagEnd, if_neg (by decide), if_neg (by decide), findTagEnd_eq, Option.map_map]
    rfl
  rw [tag]
  cases found : Xml.findTagEnd none after with
  | none => rfl
  | some parts =>
    obtain ⟨inner, rest⟩ := parts
    have whole := findTagEnd_eq_some found
    have place {reader : Reader} : placed (before ++ '<' :: after) (reader, rest) =
        (reader, byteLength before + (byteLength inner + 1 + 1)) := by
      apply placed_eq before (inner ++ ['>'])
      · rw [whole, List.append_assoc]
        rfl
      · rw [byteLength_append]
        rfl
    have there : slice (sliceBetween ('<' :: after) 1 (byteLength inner + 1)) = .ok inner := by
      rw [whole]
      exact slice_inner inner rest
    dsimp only [Option.map_some, orMalformed, required]
    rw [ok_bind, ok_bind, there, ok_bind, parseTag_eq, openTag_eq]
    cases Xml.parseTag (trimEnd ((stripSuffix ['/'] (trimEnd inner)).getD (trimEnd inner))) with
    | error error => rfl
    | ok parsed =>
      rw [lift_ok rfl, ok_bind, ok_bind]
      cases openParsed reader (stripSuffix ['/'] (trimEnd inner)).isSome parsed.1 parsed.2 with
      | error error => rfl
      | ok opened => exact congrArg Except.ok place.symm

/-- Past an opening, what it holds and its closing. -/
theorem placed_past (before closing : Text) {opening body inner : Text} {opens closes : Nat}
    (shape : stripPrefix opening after = some body) (whole : body = inner ++ (closing ++ rest))
    (opened : byteLength opening + 1 = opens) (closed : byteLength closing = closes) :
    placed (before ++ '<' :: after) (reader, rest) =
      (reader, byteLength before + (opens + byteLength inner + closes)) := by
  apply placed_eq before (opening ++ (inner ++ closing))
  · rw [stripPrefix_eq_some shape, whole, List.append_assoc, List.append_assoc]
  · rw [byteLength_append, byteLength_append, closed, ← opened]
    omega

theorem readMarkup_eq (before : Text) :
    readMarkup reader (byteLength before) ('<' :: after) =
      (lift (Xml.readMarkup reader after)).map (placed (before ++ '<' :: after)) := by
  have shape (pattern : Text) : stripPrefix ('<' :: pattern) ('<' :: after) =
      stripPrefix pattern after := stripPrefix_cons '<' pattern
  unfold readMarkup Xml.readMarkup
  rw [show "</".toList = '<' :: "/".toList from rfl, shape,
    show "<!--".toList = '<' :: "!--".toList from rfl, shape,
    show "<![CDATA[".toList = '<' :: "![CDATA[".toList from rfl, shape,
    show "<?".toList = '<' :: "?".toList from rfl, shape,
    show "<!".toList = '<' :: "!".toList from rfl, shape]
  cases closing : stripPrefix "/".toList after with
  | some body =>
    dsimp only
    cases split : splitOnce '>' body with
    | none =>
      rw [findWhere_none split]
      rfl
    | some parts =>
      obtain ⟨name, rest⟩ := parts
      have whole := (splitOnce_eq_some split).1
      have place {reader : Reader} : placed (before ++ '<' :: after) (reader, rest) =
          (reader, byteLength before + (2 + byteLength name + 1)) :=
        placed_past before ['>'] closing whole rfl rfl
      have there : slice (sliceTo body (byteLength name)) = .ok name := by
        rw [whole]
        exact slice_to _ _
      rw [findWhere_some split]
      dsimp only [orMalformed, required]
      rw [ok_bind, there, ok_bind, ok_bind, localName_eq, ok_bind, close_eq]
      cases closeNamed reader (Xml.localName (trim name)) with
      | error error => rfl
      | ok closed => exact congrArg Except.ok place.symm
  | none =>
    cases comment : stripPrefix "!--".toList after with
    | some body =>
      dsimp only
      rw [findPattern_split]
      cases split : splitAtPattern "-->".toList body with
      | none => rfl
      | some parts =>
        have place : placed (before ++ '<' :: after) (reader, parts.2) =
            (reader, byteLength before + (4 + byteLength parts.1 + 3)) :=
          placed_past before "-->".toList comment (splitAtPattern_eq_some split) rfl rfl
        exact congrArg Except.ok place.symm
    | none =>
      cases section_ : stripPrefix "![CDATA[".toList after with
      | some body =>
        dsimp only
        rw [findPattern_split]
        cases split : splitAtPattern "]]>".toList body with
        | none => rfl
        | some parts =>
          obtain ⟨text, rest⟩ := parts
          have whole := splitAtPattern_eq_some split
          have place {reader : Reader} : placed (before ++ '<' :: after) (reader, rest) =
              (reader, byteLength before + (9 + byteLength text + 3)) :=
            placed_past before "]]>".toList section_ whole rfl rfl
          have there : slice (sliceTo body (byteLength text)) = .ok text := by
            rw [whole]
            exact slice_to _ _
          dsimp only [Option.map_some, orMalformed, required]
          rw [ok_bind, there, ok_bind, ok_bind, pushText_eq]
          cases reader.pushText text with
          | error error => rfl
          | ok pushed => exact congrArg Except.ok place.symm
      | none =>
        cases instruction : stripPrefix "?".toList after with
        | some body =>
          dsimp only
          rw [findPattern_split]
          cases split : splitAtPattern "?>".toList body with
          | none => rfl
          | some parts =>
            have place : placed (before ++ '<' :: after) (reader, parts.2) =
                (reader, byteLength before + (2 + byteLength parts.1 + 2)) :=
              placed_past before "?>".toList instruction (splitAtPattern_eq_some split) rfl rfl
            exact congrArg Except.ok place.symm
        | none =>
          by_cases declared : (stripPrefix "!".toList after).isSome = true
          · rw [if_pos declared, if_pos declared, findWhere_splitOnce, splitOnce,
              if_neg (by decide)]
            cases split : splitOnce '>' after with
            | none => rfl
            | some parts =>
              obtain ⟨inner, rest⟩ := parts
              have place : placed (before ++ '<' :: after) (reader, rest) =
                  (reader, byteLength before + (1 + byteLength inner + 1)) := by
                apply placed_eq before (inner ++ ['>'])
                · rw [(splitOnce_eq_some split).1, List.append_assoc]
                  rfl
                · rw [byteLength_append, Nat.add_comm 1]
                  rfl
              exact congrArg Except.ok place.symm
          · rw [if_neg declared, if_neg declared]
            exact openTag_placed before

/-- A round by the cursor is the round on the characters from there on. -/
theorem documentRound_eq (before rest : Text) :
    documentRound (before ++ rest) (reader, byteLength before) =
      (lift (Xml.documentRound (reader, rest))).map (Sum.map id (placed (before ++ rest))) := by
  have there := slice_from before rest
  unfold documentRound Xml.documentRound
  rw [there, ok_bind]
  by_cases ended : rest = []
  · rw [if_pos ended, if_pos ended]
    cases reader.finish <;> rfl
  · rw [if_neg ended, if_neg ended]
    cases split : splitOnce '<' rest with
    | none =>
      rw [findWhere_none split]
      rw [pushText_eq]
      cases reader.pushText rest with
      | error error => rfl
      | ok pushed =>
        rw [lift_ok rfl, ok_bind, ok_bind]
        cases pushed.finish <;> rfl
    | some parts =>
      obtain ⟨text, after⟩ := parts
      have whole := (splitOnce_eq_some split).1
      have text_ : slice (sliceTo rest (byteLength text)) = .ok text := by
        rw [whole]
        exact slice_to _ _
      have markup : slice (sliceFrom (before ++ rest) (byteLength before + byteLength text)) =
          .ok ('<' :: after) := by
        rw [whole, ← List.append_assoc, ← byteLength_append]
        exact slice_from _ _
      rw [findWhere_some split]
      dsimp only
      rw [text_, ok_bind, pushText_eq]
      cases reader.pushText text with
      | error error => rfl
      | ok pushed =>
        rw [lift_ok rfl, ok_bind, ok_bind, markup, ok_bind, ← byteLength_append, readMarkup_eq,
          whole, List.append_assoc]
        cases Xml.readMarkup pushed after <;> rfl

end Documents

end Gunda.Stream.Xml.Cursor

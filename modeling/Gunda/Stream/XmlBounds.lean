import Gunda.Stream.XmlCursor

/-!
# The bounds of the XML reader

What every round of `gunda-stream/src/xml.rs` does to the nesting and to the number of the
elements it holds, and the bounds that follow for every input.
-/
namespace Gunda.Stream.Xml

open Gunda.Lib Gunda.Lib.Text

namespace Node

mutual

/-- How many elements are nested in one another, this one included. -/
def height : Node → Nat
  | mk _ _ children _ => heights children + 1

def heights : List Node → Nat
  | [] => 0
  | node :: rest => max node.height (heights rest)

end

mutual

/-- How many elements there are, this one included. -/
def size : Node → Nat
  | mk _ _ children _ => sizes children + 1

def sizes : List Node → Nat
  | [] => 0
  | node :: rest => node.size + sizes rest

end

variable {node child : Node} {children : List Node}

theorem heights_append : heights (children ++ [child]) = max (heights children) child.height := by
  induction children with
  | nil => exact Nat.max_comm _ _
  | cons first children ih => rw [List.cons_append, heights, ih, heights, Nat.max_assoc]

theorem sizes_append : sizes (children ++ [child]) = sizes children + child.size := by
  induction children with
  | nil => exact Nat.add_comm _ _
  | cons first children ih => rw [List.cons_append, sizes, ih, sizes, Nat.add_assoc]

@[simp] theorem withChild_height :
    (node.withChild child).height = max node.height (child.height + 1) := by
  cases node
  rw [withChild, height, height, heights_append, Nat.add_max_add_right]

@[simp] theorem withChild_size : (node.withChild child).size = node.size + child.size := by
  cases node
  rw [withChild, size, size, sizes_append, Nat.add_right_comm]

@[simp] theorem withText_height (text : Text) : (node.withText text).height = node.height := by
  cases node
  rfl

@[simp] theorem withText_size (text : Text) : (node.withText text).size = node.size := by
  cases node
  rfl

end Node

namespace Reader

/-- The deepest nesting in the open elements. -/
def nesting : List Node → Nat
  | [] => 0
  | node :: outer => max (outer.length + node.height) (nesting outer)

/-- The deepest nesting in what has been read. -/
def depth (reader : Reader) : Nat := max (nesting reader.stack) (reader.root.elim 0 Node.height)

/-- How many elements have been built. -/
def nodes (reader : Reader) : Nat :=
  (reader.stack.map Node.size).sum + reader.root.elim 0 Node.size

/-- No element more, and none deeper. -/
structure Kept (reader later : Reader) : Prop where
  open_ : later.stack.length ≤ reader.stack.length
  depth : later.depth = reader.depth
  nodeCount : later.nodeCount = reader.nodeCount
  nodes : later.nodes = reader.nodes

/-- One element more, inside the open ones. -/
structure Grown (reader later : Reader) : Prop where
  depth : later.depth = max reader.depth (reader.stack.length + 1)
  capped : later.nodeCount ≤ maxNodes
  nodeCount : later.nodeCount = reader.nodeCount + 1
  nodes : later.nodes = reader.nodes + 1

/-- What the caps are for; `levels` bounds the nesting. -/
structure WithinCaps (levels : Nat) (reader : Reader) : Prop where
  open_ : reader.stack.length ≤ maxDepth
  depth : reader.depth ≤ levels
  built : reader.nodes = reader.nodeCount
  nodes : reader.nodeCount ≤ maxNodes

variable {reader later : Reader} {node : Node} {text name inner : Text}

theorem Kept.refl (reader : Reader) : Kept reader reader := ⟨Nat.le_refl _, rfl, rfl, rfl⟩

theorem attach_kept {outer : List Node} {root : Option Node} {nodeCount : Nat}
    (h : attach ⟨outer, root, nodeCount⟩ node = .ok later) :
    Kept ⟨node :: outer, root, nodeCount⟩ later := by
  unfold attach at h
  cases outer with
  | nil =>
    obtain ⟨fresh, h⟩ := throw_unless_ok h
    cases root with
    | some root => exact absurd rfl fresh
    | none =>
      cases h
      constructor
      · exact Nat.zero_le _
      · simp [Reader.depth, nesting]
      · rfl
      · simp [Reader.nodes]
  | cons parent outer =>
    cases h
    constructor
    · exact Nat.le_succ _
    · simp only [Reader.depth, nesting, Node.withChild_height, List.length_cons]
      omega
    · rfl
    · simp only [Reader.nodes, List.map_cons, List.sum_cons, Node.withChild_size]
      omega

theorem pushText_kept (h : reader.pushText text = .ok later) : Kept reader later := by
  obtain ⟨stack, root, nodeCount⟩ := reader
  unfold pushText at h
  split at h
  · cases h
    exact .refl _
  · cases stack with
    | nil => cases h
    | cons target outer =>
      obtain ⟨decoded, _, h⟩ := bind_ok h
      cases h
      constructor
      · exact Nat.le_refl _
      · simp only [Reader.depth, nesting, Node.withText_height]
      · rfl
      · simp only [Reader.nodes, List.map_cons, Node.withText_size]

theorem pushText_open (h : reader.pushText text = .ok later) :
    later.stack.length = reader.stack.length := by
  obtain ⟨stack, root, nodeCount⟩ := reader
  unfold pushText at h
  split at h
  · cases h
    rfl
  · cases stack with
    | nil => cases h
    | cons target outer =>
      obtain ⟨decoded, _, h⟩ := bind_ok h
      cases h
      rfl

theorem close_kept (h : reader.close name = .ok later) : Kept reader later := by
  obtain ⟨stack, root, nodeCount⟩ := reader
  unfold close at h
  obtain ⟨_, h⟩ := throw_unless_ok h
  cases stack with
  | nil => cases h
  | cons node outer =>
    obtain ⟨_, h⟩ := throw_unless_ok h
    exact attach_kept h

/-- An opening tag is one more element; it stays open unless it closes itself. -/
theorem openTag_grown (h : reader.openTag inner = .ok later) :
    Grown reader later ∧
      ((stripSuffix ['/'] (trimEnd inner)).isSome = true ∧
          later.stack.length = reader.stack.length ∨
        (stripSuffix ['/'] (trimEnd inner)).isSome = false ∧ reader.stack.length < maxDepth ∧
          later.stack.length = reader.stack.length + 1) := by
  obtain ⟨stack, root, nodeCount⟩ := reader
  unfold openTag at h
  obtain ⟨⟨name, attributes⟩, _, h⟩ := bind_ok h
  obtain ⟨fits, h⟩ := guard_ok h
  have capped : nodeCount + 1 ≤ maxNodes := Nat.le_of_not_lt fits
  have leaf : (Node.mk name attributes [] []).height = 1 := rfl
  have single : (Node.mk name attributes [] []).size = 1 := rfl
  split at h
  · rename_i closed
    unfold attach at h
    cases stack with
    | nil =>
      obtain ⟨fresh, h⟩ := throw_unless_ok h
      cases root with
      | some root => exact absurd rfl fresh
      | none =>
        cases h
        exact ⟨⟨rfl, capped, rfl, rfl⟩, .inl ⟨closed, rfl⟩⟩
    | cons parent outer =>
      cases h
      refine ⟨⟨?_, capped, rfl, ?_⟩, .inl ⟨closed, rfl⟩⟩
      · simp only [Reader.depth, nesting, Node.withChild_height, List.length_cons, leaf]
        omega
      · simp only [Reader.nodes, List.map_cons, List.sum_cons, Node.withChild_size, single]
        omega
  · rename_i stays
    obtain ⟨room, h⟩ := throw_unless_ok h
    cases h
    refine ⟨⟨?_, capped, rfl, ?_⟩,
      .inr ⟨Bool.eq_false_iff.mpr stays, Nat.lt_of_not_le room, rfl⟩⟩
    · simp only [Reader.depth, nesting, leaf]
      omega
    · simp only [Reader.nodes, List.map_cons, List.sum_cons, single]
      omega

theorem finish_within {levels : Nat} (within : WithinCaps levels reader)
    (h : reader.finish = .ok node) : node.height ≤ levels ∧ node.size ≤ maxNodes := by
  obtain ⟨stack, root, nodeCount⟩ := reader
  unfold finish at h
  obtain ⟨closed, h⟩ := throw_unless_ok h
  have stacked : stack = [] := not_not.mp closed
  have rooted : root = some node := required_ok h
  subst stacked rooted
  constructor
  · exact Nat.le_trans (Nat.le_max_right _ _) within.depth
  · have built : 0 + node.size = nodeCount := within.built
    have capped : nodeCount ≤ maxNodes := within.nodes
    omega

end Reader

/-- Whether the next markup is a self-closing tag. -/
def leafAhead (rest : Text) : Bool :=
  match splitOnce '<' rest with
  | none => false
  | some (_, after) =>
      (stripPrefix "/".toList after).isNone && (stripPrefix "?".toList after).isNone &&
        (stripPrefix "!".toList after).isNone &&
        (match findTagEnd none after with
          | none => false
          | some (inner, _) => (stripSuffix ['/'] (trimEnd inner)).isSome)

/-- What a round does to the elements. -/
inductive Change (reader : Reader) (rest : Text) (later : Reader) : Prop where
  | kept (markup : leafAhead rest = false) (same : reader.Kept later)
  | leaf (markup : leafAhead rest = true) (grown : reader.Grown later)
      (open_ : later.stack.length = reader.stack.length)
  | opened (markup : leafAhead rest = false) (grown : reader.Grown later)
      (room : reader.stack.length < maxDepth)
      (open_ : later.stack.length = reader.stack.length + 1)

section Rounds

variable {reader later : Reader} {rest next : Text}

theorem Reader.Kept.change {pushed : Reader} (text : reader.Kept pushed)
    (open_ : pushed.stack.length = reader.stack.length) (markup : Change pushed rest later) :
    Change reader rest later := by
  have from_ (grown : pushed.Grown later) : reader.Grown later := by
    constructor
    · rw [grown.depth, text.depth, open_]
    · exact grown.capped
    · rw [grown.nodeCount, text.nodeCount]
    · rw [grown.nodes, text.nodes]
  cases markup with
  | kept markup same =>
    apply Change.kept markup
    constructor
    · exact Nat.le_trans same.open_ text.open_
    · rw [same.depth, text.depth]
    · rw [same.nodeCount, text.nodeCount]
    · rw [same.nodes, text.nodes]
  | leaf markup grown same => exact .leaf markup (from_ grown) (same.trans open_)
  | opened markup grown room same =>
    rw [open_] at room same
    exact .opened markup (from_ grown) room same

theorem documentRound_change (h : documentRound (reader, rest) = .ok (.inr (later, next))) :
    Change reader rest later := by
  obtain ⟨text, after, pushed, split, texted, read⟩ := documentRound_next h
  apply Reader.Kept.change (Reader.pushText_kept texted) (Reader.pushText_open texted)
  have declared {pattern : Text} {body : Text}
      (shape : stripPrefix ('!' :: pattern) after = some body) :
      (stripPrefix "!".toList after).isNone = false := by
    rw [stripPrefix_eq_some shape, List.cons_append]
    exact congrArg Option.isNone (stripPrefix_append ['!'] (pattern ++ body))
  have otherwise (shape : ((stripPrefix "/".toList after).isNone &&
      (stripPrefix "?".toList after).isNone && (stripPrefix "!".toList after).isNone) = false) :
      leafAhead rest = false := by
    unfold leafAhead
    rw [split]
    dsimp only
    rw [shape, Bool.false_and]
  unfold readMarkup at read
  split at read
  · rename_i body shape
    obtain ⟨parts, _, read⟩ := bind_ok read
    obtain ⟨closed, close, read⟩ := bind_ok read
    cases read
    exact .kept (otherwise (by rw [shape]; rfl)) (Reader.close_kept close)
  · rename_i notClosing
    split at read
    · rename_i body shape
      obtain ⟨parts, _, read⟩ := bind_ok read
      cases read
      exact .kept (otherwise (by rw [declared shape, Bool.and_false])) (.refl _)
    · split at read
      · rename_i body shape
        obtain ⟨parts, _, read⟩ := bind_ok read
        obtain ⟨texted, push, read⟩ := bind_ok read
        cases read
        exact .kept (otherwise (by rw [declared shape, Bool.and_false]))
          (Reader.pushText_kept push)
      · split at read
        · rename_i body shape
          obtain ⟨parts, _, read⟩ := bind_ok read
          cases read
          exact .kept (otherwise (by rw [shape, notClosing]; rfl)) (.refl _)
        · rename_i notInstruction
          split at read
          · rename_i shape
            obtain ⟨parts, _, read⟩ := bind_ok read
            cases read
            apply Change.kept (otherwise _) (.refl _)
            rw [Option.isNone_eq_false_iff.mpr shape, Bool.and_false]
          · rename_i notDeclared
            obtain ⟨parts, found, read⟩ := bind_ok read
            obtain ⟨opened, tag, read⟩ := bind_ok read
            cases read
            have ahead : leafAhead rest = (stripSuffix ['/'] (trimEnd parts.1)).isSome := by
              unfold leafAhead
              rw [split]
              dsimp only
              rw [notClosing, notInstruction,
                Option.not_isSome_iff_eq_none.mp notDeclared, required_ok found]
              rfl
            obtain ⟨grown, closing | staying⟩ := Reader.openTag_grown tag
            · exact .leaf (ahead.trans closing.1) grown closing.2
            · exact .opened (ahead.trans staying.1) grown staying.2.1 staying.2.2

theorem Reader.WithinCaps.change {levels : Nat} (within : reader.WithinCaps levels)
    (change : Change reader rest later) (cap : maxDepth ≤ levels)
    (inside : leafAhead rest = true → reader.stack.length < levels) :
    later.WithinCaps levels := by
  have grows (grown : reader.Grown later) (room : reader.stack.length < levels) :
      later.depth ≤ levels := by
    rw [grown.depth]
    exact Nat.max_le.mpr ⟨within.depth, room⟩
  have built (grown : reader.Grown later) : later.nodes = later.nodeCount := by
    rw [grown.nodes, grown.nodeCount, within.built]
  cases change with
  | kept _ same =>
    constructor
    · exact Nat.le_trans same.open_ within.open_
    · rw [same.depth]
      exact within.depth
    · rw [same.nodes, same.nodeCount]
      exact within.built
    · rw [same.nodeCount]
      exact within.nodes
  | leaf markup grown open_ =>
    exact ⟨open_.le.trans within.open_, grows grown (inside markup), built grown, grown.capped⟩
  | opened _ grown room open_ =>
    exact ⟨open_.le.trans room, grows grown (Nat.lt_of_lt_of_le room cap), built grown,
      grown.capped⟩

end Rounds

/-! ## The runs of the cursor -/

namespace Cursor

variable {text : Text} {reader later : Reader} {cursor next : Nat}
variable {levels : Nat}

/-- The cursor stands between two characters. -/
def Aligned (text : Text) (cursor : Nat) : Prop :=
  ∃ before rest, text = before ++ rest ∧ byteLength before = cursor

/-- A round of the cursor is one on the characters from there on, of which it takes some. -/
theorem documentRound_taken {before rest : Text}
    (h : documentRound (before ++ rest) (reader, byteLength before) = .ok (.inr (later, next))) :
    ∃ taken left, rest = taken ++ left ∧ taken ≠ [] ∧ next = byteLength (before ++ taken) ∧
      Xml.documentRound (reader, rest) = .ok (.inr (later, left)) := by
  rw [documentRound_eq] at h
  obtain ⟨outcome, read, same⟩ := map_ok h
  have read := mapError_ok read
  cases outcome with
  | inl node => cases same
  | inr state =>
    obtain ⟨_, left⟩ := state
    cases same
    obtain ⟨literal, after, pushed, split, _, markup⟩ := documentRound_next read
    obtain ⟨c, taken, rfl⟩ := readMarkup_suffix markup
    have whole : rest = literal ++ '<' :: taken ++ [c] ++ left := by
      rw [(splitOnce_eq_some split).1]
      simp
    refine ⟨literal ++ '<' :: taken ++ [c], left, whole, by simp, ?_, read⟩
    rw [whole, place_append]
    exact byteLength_append.symm

theorem documentRound_advances (aligned : Aligned text cursor)
    (h : documentRound text (reader, cursor) = .ok (.inr (later, next))) :
    cursor < next ∧ next ≤ byteLength text ∧ Aligned text next := by
  obtain ⟨before, rest, rfl, rfl⟩ := aligned
  obtain ⟨taken, left, whole, some_, same, _⟩ := documentRound_taken h
  have grows : 0 < byteLength taken := by
    obtain ⟨c, others, rfl⟩ := List.exists_cons_of_ne_nil some_
    exact Nat.add_pos_left (Char.utf8Size_pos c) _
  rw [same, byteLength_append]
  refine ⟨by omega, ?_, before ++ taken, left, ?_, byteLength_append⟩
  · rw [whole, byteLength_append, byteLength_append]
    omega
  · rw [whole, List.append_assoc]

theorem documentRound_within (within : reader.WithinCaps levels) (aligned : Aligned text cursor)
    (cap : maxDepth ≤ levels)
    (inside : ∀ rest, sliceFrom text cursor = some rest → leafAhead rest = true →
      reader.stack.length < levels)
    (h : documentRound text (reader, cursor) = .ok (.inr (later, next))) :
    later.WithinCaps levels := by
  obtain ⟨before, rest, rfl, rfl⟩ := aligned
  obtain ⟨_, _, _, _, _, read⟩ := documentRound_taken h
  exact within.change (documentRound_change read) cap (inside rest (sliceFrom_append _ _))

/-- The document loop by its cursor comes to an end, with what is read on characters. -/
theorem parseDocument_rounds (input : Text) :
    Rounds (documentRound (unmarked input)) (Reader.start, 0) (lift (parseDocument input)) := by
  apply Rounds.simulates (R := fun state image => state.1 = image.1 ∧
    ∃ before, unmarked input = before ++ state.2 ∧ byteLength before = image.2) _ _ _
    ⟨rfl, [], rfl, rfl⟩ (Xml.parseDocument_rounds input)
  · intro state image error related step
    obtain ⟨reader, rest⟩ := state
    obtain ⟨_, _⟩ := image
    obtain ⟨rfl, before, whole, rfl⟩ := related
    rw [whole, documentRound_eq, step]
    rfl
  · intro state image node related step
    obtain ⟨reader, rest⟩ := state
    obtain ⟨_, _⟩ := image
    obtain ⟨rfl, before, whole, rfl⟩ := related
    rw [whole, documentRound_eq, step]
    rfl
  · intro state image later related step
    obtain ⟨reader, rest⟩ := state
    obtain ⟨_, _⟩ := image
    obtain ⟨later, left⟩ := later
    obtain ⟨rfl, before, whole, rfl⟩ := related
    have moved : documentRound (unmarked input) (reader, byteLength before) =
        .ok (.inr (placed (unmarked input) (later, left))) := by
      rw [whole, documentRound_eq, step]
      rfl
    rw [whole] at moved
    obtain ⟨taken, left', split, _, same, read⟩ := documentRound_taken moved
    rw [step] at read
    cases read
    rw [← whole] at moved
    refine ⟨_, moved, rfl, before ++ taken, by rw [whole, split, List.append_assoc], ?_⟩
    rw [← same, ← whole]
    rfl

/-- A document by its cursor: the loop comes to an end and takes no slice that is not there,
every round moves the cursor on and not past the end, and nesting and count are capped. -/
structure Bounded (input : Text) : Prop where
  ends : ∃ result, Rounds (documentRound (unmarked input)) (Reader.start, 0) result ∧
    result ≠ .error .sliced ∧ result ≠ .error .endless ∧
    ∀ node, result = .ok node → node.height ≤ maxDepth ∧ node.size ≤ maxNodes
  advances : ∀ reader cursor later next,
    Rounds.Reaches (documentRound (unmarked input)) (Reader.start, 0) (reader, cursor) →
    documentRound (unmarked input) (reader, cursor) = .ok (.inr (later, next)) →
      cursor < next ∧ next ≤ byteLength (unmarked input)
  nesting : ∀ reader cursor,
    Rounds.Reaches (documentRound (unmarked input)) (Reader.start, 0) (reader, cursor) →
      reader.depth ≤ maxDepth
  nodes : ∀ reader cursor,
    Rounds.Reaches (documentRound (unmarked input)) (Reader.start, 0) (reader, cursor) →
      reader.nodes ≤ maxNodes

/-- No round reads a self-closing tag inside as many open elements as the cap allows. -/
def LeavesInside (input : Text) : Prop := ∀ reader cursor rest later,
  Rounds.Reaches (documentRound (unmarked input)) (Reader.start, 0) (reader, cursor) →
  sliceFrom (unmarked input) cursor = some rest → leafAhead rest = true →
  documentRound (unmarked input) (reader, cursor) = .ok (.inr later) →
    reader.stack.length < maxDepth

theorem start_within (levels : Nat) : Reader.start.WithinCaps levels :=
  ⟨Nat.zero_le _, Nat.zero_le _, rfl, Nat.zero_le _⟩

variable {input : Text}

theorem reached_aligned
    (reached : Rounds.Reaches (documentRound text) (Reader.start, 0) (reader, cursor)) :
    Aligned text cursor := by
  apply Rounds.Reaches.keeps (P := fun state => Aligned text state.2) _ _ reached
  · exact ⟨[], text, rfl, rfl⟩
  · intro _ _ aligned step
    exact (documentRound_advances aligned step).2.2

/-- The caps in every state that the loop comes to, with the levels that its leaves keep to. -/
theorem reached_within (cap : maxDepth ≤ levels) (inside : ∀ reader cursor rest later,
      Rounds.Reaches (documentRound text) (Reader.start, 0) (reader, cursor) →
      sliceFrom text cursor = some rest → leafAhead rest = true →
      documentRound text (reader, cursor) = .ok (.inr later) →
      reader.WithinCaps levels → reader.stack.length < levels)
    (reached : Rounds.Reaches (documentRound text) (Reader.start, 0) (reader, cursor)) :
    reader.WithinCaps levels := by
  generalize same : (reader, cursor) = state at reached
  induction reached generalizing reader cursor with
  | start =>
    cases same
    exact start_within levels
  | next reached step ih =>
    rename_i before _
    obtain ⟨earlier, place⟩ := before
    cases same
    have within := ih rfl
    apply documentRound_within within (reached_aligned reached) cap _ step
    intro rest there ahead
    exact inside _ _ _ _ reached there ahead step within

theorem ended_within {node : Node} (aligned : Aligned text cursor)
    (within : reader.WithinCaps levels)
    (h : documentRound text (reader, cursor) = .ok (.inl node)) :
    node.height ≤ levels ∧ node.size ≤ maxNodes := by
  obtain ⟨before, rest, rfl, rfl⟩ := aligned
  rw [documentRound_eq] at h
  obtain ⟨outcome, read, same⟩ := map_ok h
  have read := mapError_ok read
  cases outcome with
  | inr state => cases same
  | inl found =>
    cases same
    unfold Xml.documentRound at read
    split at read
    · obtain ⟨_, finished, same⟩ := map_ok read
      cases same
      exact Reader.finish_within within finished
    · split at read
      · obtain ⟨_, finished, same⟩ := map_ok read
        cases same
        obtain ⟨pushed, texted, finished⟩ := bind_ok finished
        have kept := Reader.pushText_kept texted
        apply Reader.finish_within _ finished
        constructor
        · exact Nat.le_trans kept.open_ within.open_
        · rw [kept.depth]
          exact within.depth
        · rw [kept.nodes, kept.nodeCount]
          exact within.built
        · rw [kept.nodeCount]
          exact within.nodes
      · obtain ⟨_, _, same⟩ := map_ok read
        cases same

/-- Every document is read within the caps but for the leaves one level below them. -/
theorem document_within
    (reached : Rounds.Reaches (documentRound text) (Reader.start, 0) (reader, cursor)) :
    reader.WithinCaps (maxDepth + 1) :=
  reached_within (Nat.le_succ _)
    (fun _ _ _ _ _ _ _ _ within => Nat.lt_succ_of_le within.open_) reached

theorem document_within_example :
    ∃ reader : Reader, reader.stack.length = 1 ∧ reader.WithinCaps (maxDepth + 1) :=
  ⟨_, rfl, @document_within "<a>".toList _ 3 (.next .start rfl)⟩

/-- The caps hold if and only if no leaf is read below them. -/
theorem bounded_iff_leaves_inside (input : Text) : Bounded input ↔ LeavesInside input := by
  constructor
  · intro bounded reader cursor rest later reached there ahead step
    obtain ⟨before, after, whole, same⟩ := reached_aligned reached
    obtain ⟨later, next⟩ := later
    have deepest := bounded.nesting _ _ (.next reached step)
    rw [whole, ← same] at there step
    rw [sliceFrom_append] at there
    cases there
    obtain ⟨_, _, _, _, _, read⟩ := documentRound_taken step
    cases documentRound_change read with
    | kept markup _ => exact absurd (markup.symm.trans ahead) Bool.false_ne_true
    | opened _ _ room _ => exact room
    | leaf _ grown _ =>
      rw [grown.depth] at deepest
      exact (Nat.max_le.mp deepest).2
  · intro inside
    have within {reader : Reader} {cursor : Nat}
        (reached : Rounds.Reaches (documentRound (unmarked input)) (Reader.start, 0)
          (reader, cursor)) : reader.WithinCaps maxDepth :=
      reached_within (Nat.le_refl _)
        (fun _ _ _ _ reached there ahead step _ => inside _ _ _ _ reached there ahead step) reached
    constructor
    · refine ⟨_, parseDocument_rounds input, ?_, ?_, ?_⟩
      · cases parseDocument input <;> exact fun same => nomatch same
      · cases parseDocument input <;> exact fun same => nomatch same
      · intro node read
        have rounds := parseDocument_rounds input
        rw [read] at rounds
        obtain ⟨⟨reader, cursor⟩, reached, ended⟩ := rounds.last
        exact ended_within (reached_aligned reached) (within reached) ended
    · intro reader cursor later next reached step
      obtain ⟨grows, fits, _⟩ := documentRound_advances (reached_aligned reached) step
      exact ⟨grows, fits⟩
    · intro reader cursor reached
      exact (within reached).depth
    · intro reader cursor reached
      rw [(within reached).built]
      exact (within reached).nodes

/-- A leaf inside as many open elements as the cap allows. -/
def deepLeaf : Text :=
  (List.replicate 64 "<A>".toList).flatten ++ "<B/>".toList ++
    (List.replicate 64 "</A>".toList).flatten

theorem deep_leaf_accepted : ¬ Bounded deepLeaf := by
  intro bounded
  obtain ⟨result, rounds, _, _, caps⟩ := bounded.ends
  have read : ((parseDocument deepLeaf).toOption.any fun node => maxDepth < node.height) = true := by
    decide +kernel
  obtain ⟨node, parsed, tall⟩ := toOption_any_ok read
  have same := (parseDocument_rounds deepLeaf).unique rounds
  rw [parsed] at same
  exact absurd (caps node same.symm).1 (Nat.not_le_of_lt (of_decide_eq_true tall))

end Cursor

end Gunda.Stream.Xml

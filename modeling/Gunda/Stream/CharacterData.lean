import Gunda.Stream.References

/-!
# Character data

What the text of an element should be, from the pieces it is made of, and which of them
`push_text` of `gunda-stream/src/xml.rs` reads so: CDATA sections go through
`decode_entities` like plain text, and there an ampersand is read with the next semicolon.
-/
namespace Gunda.Stream.Xml

open Gunda.Lib Gunda.Lib.Text

/-! ## What references stand for -/

/-- The well-formed reference that an ampersand starts, and how long it is. -/
def referenceAhead (rest : Text) : Option (Char × Nat) :=
  (splitOnce ';' rest).bind fun parts => (reference parts.1).map fun c => (c, parts.1.length + 1)

def expandFrom : Nat → Text → Text
  | _, [] => []
  | skip + 1, _ :: rest => expandFrom skip rest
  | 0, c :: rest =>
      match if c = '&' then referenceAhead rest else none with
      | some (decoded, length) => decoded :: expandFrom length rest
      | none => c :: expandFrom 0 rest

/-- Every well-formed reference decoded, every other character as it is. -/
def expandReferences (text : Text) : Text := expandFrom 0 text

/-- What stands between an ampersand and the next semicolon, from left to right; `entity` has
been read of an open one. -/
def blocksFrom : Option Text → Text → List Text
  | _, [] => []
  | none, c :: rest => blocksFrom (if c = '&' then some [] else none) rest
  | some entity, c :: rest =>
      if c = ';' then entity :: blocksFrom none rest else blocksFrom (some (entity ++ [c])) rest

def blocks (text : Text) : List Text := blocksFrom none text

/-- A block that is left as it stands. -/
def Verbatim (entity : Text) : Prop := ¬ Unreadable entity ∧ standsFor entity = none

/-- A well-formed reference, or a block that is left as it stands and hides none. -/
def Faithful (entity : Text) : Prop :=
  reference entity ≠ none ∨
    Verbatim entity ∧ ∀ literal inner, entity = literal ++ '&' :: inner → reference inner = none

section Expansion

variable {literal entity inner next rest text decoded : Text} {c : Char}

theorem expandFrom_skip (taken rest : Text) :
    expandFrom taken.length (taken ++ rest) = expandReferences rest := by
  induction taken with
  | nil => rfl
  | cons d taken ih => exact ih

theorem expand_cons (other : c ≠ '&') :
    expandReferences (c :: rest) = c :: expandReferences rest := by
  unfold expandReferences
  rw [expandFrom, if_neg other]

theorem expand_literal (plain : '&' ∉ literal) (rest : Text) :
    expandReferences (literal ++ rest) = literal ++ expandReferences rest := by
  induction literal with
  | nil => rfl
  | cons d literal ih =>
    rw [List.mem_cons, not_or] at plain
    rw [List.cons_append, expand_cons (Ne.symm plain.1), ih plain.2]
    rfl

theorem expand_reference (known : reference entity = some c) (next : Text) :
    expandReferences ('&' :: (entity ++ ';' :: next)) = c :: expandReferences next := by
  have ahead : referenceAhead (entity ++ ';' :: next) = some (c, entity.length + 1) := by
    unfold referenceAhead
    rw [splitOnce_append (reference_plain known).2, Option.bind_some, known]
    rfl
  have skipped := expandFrom_skip (entity ++ [';']) next
  rw [List.length_append, List.append_assoc] at skipped
  unfold expandReferences at skipped ⊢
  rw [expandFrom, if_pos rfl, ahead]
  exact congrArg (c :: ·) skipped

theorem expand_ampersand (closed : ';' ∉ entity) (unknown : reference entity = none)
    (next : Text) : expandReferences ('&' :: (entity ++ ';' :: next)) =
      '&' :: expandReferences (entity ++ ';' :: next) := by
  have ahead : referenceAhead (entity ++ ';' :: next) = none := by
    unfold referenceAhead
    rw [splitOnce_append closed, Option.bind_some, unknown]
    rfl
  unfold expandReferences
  rw [expandFrom, if_pos rfl, ahead]

theorem expand_open (absent : ';' ∉ text) : expandReferences text = text := by
  induction text with
  | nil => rfl
  | cons d text ih =>
    rw [List.mem_cons, not_or] at absent
    have ahead : referenceAhead text = none := by
      unfold referenceAhead
      rw [splitOnce_none_iff.mpr absent.2]
      rfl
    have later := ih absent.2
    unfold expandReferences at later ⊢
    rw [expandFrom, ahead, ite_self]
    rw [later]

/-- What hides no reference stays, up to the semicolon. -/
theorem expand_kept (closed : ';' ∉ entity)
    (hidden : ∀ literal inner, entity = literal ++ '&' :: inner → reference inner = none) :
    expandReferences (entity ++ ';' :: next) = entity ++ ';' :: expandReferences next := by
  induction entity with
  | nil => exact expand_cons (by decide)
  | cons d entity ih =>
    rw [List.mem_cons, not_or] at closed
    have later := ih closed.2 fun literal inner same =>
      hidden (d :: literal) inner (congrArg (d :: ·) same)
    by_cases ampersand : d = '&'
    · have unknown := hidden [] entity (by rw [ampersand]; rfl)
      rw [ampersand, List.cons_append, expand_ampersand closed.2 unknown, later]
      rfl
    · rw [List.cons_append, expand_cons ampersand, later]
      rfl

/-- A hidden reference is decoded all the same. -/
theorem expand_hidden (closed : ';' ∉ literal) (known : reference inner = some c) :
    expandReferences (literal ++ '&' :: (inner ++ ';' :: next)) =
      literal ++ c :: expandReferences next := by
  induction literal with
  | nil => exact expand_reference known next
  | cons d literal ih =>
    rw [List.mem_cons, not_or] at closed
    have later := ih closed.2
    by_cases ampersand : d = '&'
    · have unknown : reference (literal ++ '&' :: inner) = none := by
        cases other : reference (literal ++ '&' :: inner) with
        | none => rfl
        | some _ => exact absurd (by simp) (reference_plain other).1
      have semicolon : ';' ∉ literal ++ '&' :: inner := by
        rw [List.mem_append, List.mem_cons, not_or, not_or]
        exact ⟨closed.2, by decide, (reference_plain known).2⟩
      have moved : literal ++ '&' :: (inner ++ ';' :: next) =
          literal ++ '&' :: inner ++ ';' :: next := by
        rw [List.append_assoc]
        rfl
      rw [moved] at later
      rw [ampersand, List.cons_append, moved, expand_ampersand semicolon unknown, later]
      rfl
    · rw [List.cons_append, expand_cons ampersand, later]
      rfl

end Expansion

/-! ## Blocks -/

section Blocks

variable {literal entity inner next rest text decoded : Text} {c : Char}

theorem blocks_literal (plain : '&' ∉ literal) (rest : Text) :
    blocks (literal ++ rest) = blocks rest := by
  induction literal with
  | nil => rfl
  | cons d literal ih =>
    rw [List.mem_cons, not_or] at plain
    have later := ih plain.2
    unfold blocks at later ⊢
    rw [List.cons_append, blocksFrom, if_neg (Ne.symm plain.1), later]

theorem blocksFrom_closed (closed : ';' ∉ entity) (read next : Text) :
    blocksFrom (some read) (entity ++ ';' :: next) = (read ++ entity) :: blocks next := by
  induction entity generalizing read with
  | nil =>
    rw [List.append_nil]
    exact if_pos rfl
  | cons d entity ih =>
    rw [List.mem_cons, not_or] at closed
    rw [List.cons_append, blocksFrom, if_neg (Ne.symm closed.1), ih closed.2, List.append_assoc]
    rfl

theorem blocksFrom_open (absent : ';' ∉ rest) (read : Text) : blocksFrom (some read) rest = [] := by
  induction rest generalizing read with
  | nil => rfl
  | cons d rest ih =>
    rw [List.mem_cons, not_or] at absent
    rw [blocksFrom, if_neg (Ne.symm absent.1), ih absent.2]

section

variable (plain : '&' ∉ literal)
include plain

theorem blocks_block (closed : ';' ∉ entity) :
    blocks (literal ++ '&' :: (entity ++ ';' :: next)) = entity :: blocks next := by
  rw [blocks_literal plain]
  exact blocksFrom_closed closed [] next

theorem blocks_open (absent : ';' ∉ rest) :
    blocks (literal ++ '&' :: rest) = [] := by
  rw [blocks_literal plain]
  exact blocksFrom_open absent []

omit plain in
theorem blocks_plain (plain : '&' ∉ text) : blocks text = [] := by
  have same := blocks_literal plain []
  rw [List.append_nil] at same
  exact same

omit plain in
/-- A text is plain, or has a block first, or an ampersand with no semicolon to come. -/
theorem blockInduction {P : Text → Prop} (plain : ∀ text, '&' ∉ text → P text)
    (opened : ∀ literal rest, '&' ∉ literal → ';' ∉ rest → P (literal ++ '&' :: rest))
    (block : ∀ literal entity next, '&' ∉ literal → ';' ∉ entity → P next →
      P (literal ++ '&' :: (entity ++ ';' :: next))) (text : Text) : P text := by
  induction size : text.length using Nat.strongRecOn generalizing text with
  | _ length ih =>
    cases split : splitOnce '&' text with
    | none => exact plain text (splitOnce_none_iff.mp split)
    | some parts =>
      obtain ⟨literal, rest⟩ := parts
      obtain ⟨whole, first⟩ := splitOnce_eq_some split
      have shorter := splitOnce_length split
      rw [whole]
      cases closed : splitOnce ';' rest with
      | none => exact opened literal rest first (splitOnce_none_iff.mp closed)
      | some parts =>
        obtain ⟨entity, next⟩ := parts
        obtain ⟨same, second⟩ := splitOnce_eq_some closed
        have fewer := splitOnce_length closed
        rw [same]
        exact block literal entity next first second (ih next.length (by omega) next rfl)

/-! ## The decoder on blocks -/

theorem decode_block (closed : ';' ∉ entity) (next : Text) :
    decodeEntities (literal ++ '&' :: (entity ++ ';' :: next)) =
      (decodeEntity entity >>= fun replacement => (decodeEntities next).map fun tail =>
        literal ++ replacementText entity replacement ++ tail) :=
  decodeEntities_entity (splitOnce_append plain) (splitOnce_append closed)

omit plain in
theorem decode_plain (plain : '&' ∉ text) : decodeEntities text = .ok text :=
  decodeEntities_plain (splitOnce_none_iff.mpr plain)

theorem decode_opened (absent : ';' ∉ rest) :
    decodeEntities (literal ++ '&' :: rest) = .ok (literal ++ '&' :: rest) := by
  rw [decodeEntities_bare (splitOnce_append plain) (splitOnce_none_iff.mpr absent),
    decodeEntities_open absent]
  rfl

omit plain in
theorem expand_plain (plain : '&' ∉ text) : expandReferences text = text := by
  have same := expand_literal plain []
  rw [List.append_nil] at same
  rw [same]
  exact List.append_nil text

theorem expand_opened (absent : ';' ∉ rest) :
    expandReferences (literal ++ '&' :: rest) = literal ++ '&' :: rest := by
  rw [expand_literal plain, expand_open]
  rw [List.mem_cons, not_or]
  exact ⟨by decide, absent⟩

/-- What stands for a character is decoded to it. -/
theorem decode_stands (closed : ';' ∉ entity) (known : standsFor entity = some c)
    (h : decodeEntities (literal ++ '&' :: (entity ++ ';' :: next)) = .ok decoded) :
    ∃ tail, decodeEntities next = .ok tail ∧ decoded = literal ++ c :: tail := by
  rw [decode_block plain closed, decodeEntity_eq] at h
  obtain ⟨replacement, read, h⟩ := bind_ok h
  obtain ⟨_, same⟩ := throw_unless_ok read
  obtain ⟨tail, later, whole⟩ := map_ok h
  cases same
  refine ⟨tail, later, ?_⟩
  rw [← whole, known, List.append_assoc]
  rfl

/-- What stays as it is written. -/
theorem decode_verbatim (closed : ';' ∉ entity) (verbatim : Verbatim entity) (next : Text) :
    decodeEntities (literal ++ '&' :: (entity ++ ';' :: next)) =
      (decodeEntities next).map fun tail => literal ++ '&' :: (entity ++ ';' :: tail) := by
  rw [decode_block plain closed, decodeEntity_eq, if_neg verbatim.1, verbatim.2, ok_bind]
  have same (tail : Text) : literal ++ replacementText entity none ++ tail =
      literal ++ '&' :: (entity ++ ';' :: tail) := by
    simp [replacementText]
  rw [funext same]

theorem decode_unreadable (closed : ';' ∉ entity) (unreadable : Unreadable entity) (next : Text) :
    decodeEntities (literal ++ '&' :: (entity ++ ';' :: next)) = .error .malformed := by
  rw [decode_block plain closed, decodeEntity_eq, if_pos unreadable]
  rfl

/-- What the decoder makes of a block, and what the references in it stand for. -/
inductive BlockRead (literal entity next decoded tail : Text) : Prop where
  | known {c : Char} (known : reference entity = some c) (read : decoded = literal ++ c :: tail)
      (meant : expandReferences (literal ++ '&' :: (entity ++ ';' :: next)) =
        literal ++ c :: expandReferences next)
  | signed {c : Char} (sign : '+' ∈ entity) (known : standsFor entity = some c)
      (read : decoded = literal ++ c :: tail)
      (meant : expandReferences (literal ++ '&' :: (entity ++ ';' :: next)) =
        literal ++ '&' :: (entity ++ ';' :: expandReferences next))
  | hides {front inner : Text} {c : Char} (same : entity = front ++ '&' :: inner)
      (known : reference inner = some c)
      (read : decoded = literal ++ '&' :: (front ++ '&' :: (inner ++ ';' :: tail)))
      (meant : expandReferences (literal ++ '&' :: (entity ++ ';' :: next)) =
        literal ++ '&' :: (front ++ c :: expandReferences next))
  | kept (verbatim : Verbatim entity)
      (hidden : ∀ front inner, entity = front ++ '&' :: inner → reference inner = none)
      (read : decoded = literal ++ '&' :: (entity ++ ';' :: tail))
      (meant : expandReferences (literal ++ '&' :: (entity ++ ';' :: next)) =
        literal ++ '&' :: (entity ++ ';' :: expandReferences next))

omit plain in
theorem reference_signless (known : reference entity = some c) : '+' ∉ entity := by
  intro sign
  rw [reference, if_pos sign] at known
  cases known

/-- A block is read, and is one of the four kinds. -/
theorem block_read (closed : ';' ∉ entity)
    (h : decodeEntities (literal ++ '&' :: (entity ++ ';' :: next)) = .ok decoded) :
    ∃ tail, decodeEntities next = .ok tail ∧ BlockRead literal entity next decoded tail := by
  have readable : ¬ Unreadable entity := by
    intro unreadable
    rw [decode_unreadable plain closed unreadable] at h
    cases h
  cases stands : standsFor entity with
  | some c =>
    obtain ⟨tail, later, read⟩ := decode_stands plain closed stands h
    refine ⟨tail, later, ?_⟩
    by_cases sign : '+' ∈ entity
    · have unhidden (front inner : Text) (same : entity = front ++ '&' :: inner) :
          reference inner = none := absurd (by rw [same]; simp) (standsFor_plain stands).1
      apply BlockRead.signed sign stands read
      rw [expand_literal plain, expand_ampersand closed (if_pos sign), expand_kept closed unhidden]
    · have known : reference entity = some c := by
        rw [reference, if_neg sign, stands]
      apply BlockRead.known known read
      rw [expand_literal plain, expand_reference known]
  | none =>
    have unknown : reference entity = none := by
      cases known : reference entity with
      | none => rfl
      | some c =>
        rw [reference_stands known] at stands
        cases stands
    rw [decode_verbatim plain closed ⟨readable, stands⟩] at h
    obtain ⟨tail, later, read⟩ := map_ok h
    refine ⟨tail, later, ?_⟩
    by_cases hidden : ∃ front inner, entity = front ++ '&' :: inner ∧ reference inner ≠ none
    · obtain ⟨front, inner, same, known⟩ := hidden
      obtain ⟨c, known⟩ := Option.ne_none_iff_exists'.mp known
      have outside : ';' ∉ front := fun member => closed (same ▸ List.mem_append_left _ member)
      apply BlockRead.hides same known
      · rw [← read, same, List.append_assoc]
        rfl
      · rw [expand_literal plain, expand_ampersand closed unknown, same, List.append_assoc]
        exact congrArg (literal ++ '&' :: ·) (expand_hidden outside known)
    · have unhidden (front inner : Text) (same : entity = front ++ '&' :: inner) :
          reference inner = none := by
        by_contra known
        exact hidden ⟨front, inner, same, known⟩
      apply BlockRead.kept ⟨readable, stands⟩ unhidden read.symm
      rw [expand_literal plain, expand_ampersand closed unknown, expand_kept closed unhidden]

end

end Blocks

/-! ## Which texts are read right -/

section Exactness

variable {literal entity inner next rest text decoded : Text} {c : Char}

section

variable (h : decodeEntities text = .ok decoded)
include h

theorem decode_length : decoded.length ≤ text.length := by
  induction text using blockInduction generalizing decoded with
  | plain text plain =>
    rw [decode_plain plain] at h
    cases h
    exact Nat.le_refl _
  | opened literal rest plain absent =>
    rw [decode_opened plain absent] at h
    cases h
    exact Nat.le_refl _
  | block literal entity next plain closed ih =>
    by_cases unreadable : Unreadable entity
    · rw [decode_unreadable plain closed unreadable] at h
      cases h
    · cases known : standsFor entity with
      | some c =>
        obtain ⟨tail, later, same⟩ := decode_stands plain closed known h
        have shorter := ih later
        rw [same]
        simp only [List.length_append, List.length_cons]
        omega
      | none =>
        rw [decode_verbatim plain closed ⟨unreadable, known⟩] at h
        obtain ⟨tail, later, same⟩ := map_ok h
        have shorter := ih later
        rw [← same]
        simp only [List.length_append, List.length_cons]
        omega

omit h in
/-- A text comes out as it is if and only if no block of it is decoded or refused. -/
theorem decode_verbatim_iff (text : Text) :
    decodeEntities text = .ok text ↔ ∀ entity ∈ blocks text, Verbatim entity := by
  induction text using blockInduction with
  | plain text plain =>
    rw [blocks_plain plain]
    exact iff_of_true (decode_plain plain) fun entity member => nomatch member
  | opened literal rest plain absent =>
    rw [blocks_open plain absent]
    exact iff_of_true (decode_opened plain absent) fun entity member => nomatch member
  | block literal entity next plain closed ih =>
    rw [blocks_block plain closed, List.forall_mem_cons, ← ih]
    constructor
    · intro h
      have readable : ¬ Unreadable entity := by
        intro unreadable
        rw [decode_unreadable plain closed unreadable] at h
        cases h
      cases known : standsFor entity with
      | some c =>
        obtain ⟨tail, later, same⟩ := decode_stands plain closed known h
        have shorter := decode_length later
        have length := congrArg List.length same
        simp only [List.length_append, List.length_cons] at length
        omega
      | none =>
        rw [decode_verbatim plain closed ⟨readable, known⟩] at h
        obtain ⟨tail, later, same⟩ := map_ok h
        have unchanged : tail = next := by
          have behind := (List.cons.inj (List.append_cancel_left same)).2
          exact (List.cons.inj (List.append_cancel_left behind)).2
        rw [unchanged] at later
        exact ⟨⟨readable, known⟩, later⟩
    · intro ⟨verbatim, later⟩
      rw [decode_verbatim plain closed verbatim, later]
      rfl

omit h in
/-- A word that is moved past a text by what it does not hold. -/
theorem shifted_ne {moved shared left right : Text} (some : moved ≠ []) (absent : c ∉ moved) :
    moved ++ (shared ++ left) ≠ shared ++ c :: right := by
  induction size : shared.length using Nat.strongRecOn generalizing shared with
  | _ length ih =>
    intro same
    rcases List.append_eq_append_iff.mp same with ⟨rest, split, later⟩ | ⟨rest, split, later⟩
    · have shorter : rest.length < length := by
        have positive := List.length_pos_iff.mpr some
        rw [← size, split, List.length_append]
        omega
      rw [split, List.append_assoc] at later
      exact ih rest.length shorter rfl later
    · cases rest with
      | nil =>
        obtain ⟨d, word, whole⟩ := List.exists_cons_of_ne_nil some
        rw [List.append_nil] at split
        rw [← split, whole] at later
        rw [whole, (List.cons.inj later).1] at absent
        exact absent List.mem_cons_self
      | cons d rest =>
        rw [split, (List.cons.inj later).1] at absent
        exact absent (List.mem_append_right _ List.mem_cons_self)

/-- No plus sign is made up. -/
theorem decode_signs :
    decoded.count '+' ≤ (expandReferences text).count '+' := by
  induction text using blockInduction generalizing decoded with
  | plain text plain =>
    rw [decode_plain plain] at h
    cases h
    rw [expand_plain plain]
  | opened literal rest plain absent =>
    rw [decode_opened plain absent] at h
    cases h
    rw [expand_opened plain absent]
  | block literal entity next plain closed ih =>
    obtain ⟨tail, later, block⟩ := block_read plain closed h
    have fewer := ih later
    cases block with
    | known _ read meant =>
      rw [read, meant]
      simp only [List.count_append, List.count_cons]
      omega
    | signed sign _ read meant =>
      have signs := List.count_pos_iff.mpr sign
      rw [read, meant]
      simp only [List.count_append, List.count_cons]
      split <;> simp <;> omega
    | hides same known read meant =>
      have signless : List.count '+' _ = 0 := List.count_eq_zero.mpr (reference_signless known)
      rw [read, meant]
      simp only [List.count_append, List.count_cons, signless]
      simp
      omega
    | kept _ _ read meant =>
      rw [read, meant]
      simp only [List.count_append, List.count_cons]
      omega

/-- Where what is read is not what is meant, an ampersand is meant at the first difference. -/
theorem decode_diverges :
    decoded = expandReferences text ∨ ∃ shared left right,
      decoded = shared ++ left ∧ expandReferences text = shared ++ '&' :: right := by
  induction text using blockInduction generalizing decoded with
  | plain text plain =>
    rw [decode_plain plain] at h
    cases h
    exact .inl (expand_plain plain).symm
  | opened literal rest plain absent =>
    rw [decode_opened plain absent] at h
    cases h
    exact .inl (expand_opened plain absent).symm
  | block literal entity next plain closed ih =>
    obtain ⟨tail, later, block⟩ := block_read plain closed h
    have extended {start : Text} (read : decoded = start ++ tail)
        (meant : expandReferences (literal ++ '&' :: (entity ++ ';' :: next)) =
          start ++ expandReferences next) :
        decoded = expandReferences (literal ++ '&' :: (entity ++ ';' :: next)) ∨
          ∃ shared left right, decoded = shared ++ left ∧
            expandReferences (literal ++ '&' :: (entity ++ ';' :: next)) =
              shared ++ '&' :: right := by
      rcases ih later with same | ⟨shared, left, right, first, second⟩
      · exact .inl (by rw [read, meant, same])
      · refine .inr ⟨start ++ shared, left, right, ?_, ?_⟩
        · rw [read, first, List.append_assoc]
        · rw [meant, second, List.append_assoc]
    cases block with
    | @known c _ read meant =>
      apply @extended (literal ++ [c])
      · rw [read, List.append_assoc]
        rfl
      · rw [meant, List.append_assoc]
        rfl
    | signed _ _ read meant => exact .inr ⟨_, _, _, read, meant⟩
    | hides _ _ read meant => exact .inr ⟨_, _, _, read, meant⟩
    | kept _ _ read meant =>
      apply @extended (literal ++ '&' :: (entity ++ [';']))
      · rw [read]
        simp
      · rw [meant]
        simp

end

/-- Plain text is read as what it stands for if and only if no block of it is refused, decoded
for a signed number, or hides a reference. -/
theorem decode_expand_iff (text : Text) :
    decodeEntities text = .ok (expandReferences text) ↔
      ∀ entity ∈ blocks text, Faithful entity := by
  induction text using blockInduction with
  | plain text plain =>
    rw [blocks_plain plain, decode_plain plain, expand_plain plain]
    exact iff_of_true rfl fun entity member => nomatch member
  | opened literal rest plain absent =>
    rw [blocks_open plain absent, decode_opened plain absent, expand_opened plain absent]
    exact iff_of_true rfl fun entity member => nomatch member
  | block literal entity next plain closed ih =>
    rw [blocks_block plain closed, List.forall_mem_cons, ← ih]
    constructor
    · intro h
      obtain ⟨tail, later, block⟩ := block_read plain closed h
      cases block with
      | known known read meant =>
        have same := (List.cons.inj (List.append_cancel_left (read.symm.trans meant))).2
        rw [same] at later
        refine ⟨.inl ?_, later⟩
        rw [known]
        exact Option.some_ne_none _
      | signed sign _ read meant =>
        have same := (List.cons.inj (List.append_cancel_left (read.symm.trans meant))).2
        have signs := List.count_pos_iff.mpr sign
        have fewer := decode_signs later
        rw [same, List.count_append, List.count_cons] at fewer
        omega
      | @hides front inner c same known read meant =>
        have behind := (List.cons.inj (List.append_cancel_left (read.symm.trans meant))).2
        have both := List.cons.inj (List.append_cancel_left behind)
        have moved : inner ++ [';'] ≠ [] := by simp
        have absent : '&' ∉ inner ++ [';'] := by
          rw [List.mem_append, not_or]
          exact ⟨(reference_plain known).1, by decide⟩
        have shifted : inner ++ [';'] ++ tail = expandReferences next := by
          rw [List.append_assoc]
          exact both.2
        rcases decode_diverges later with equal | ⟨shared, left, right, first, second⟩
        · have length := congrArg List.length shifted
          rw [equal, List.length_append, List.length_append, List.length_singleton] at length
          omega
        · rw [first, second] at shifted
          exact absurd shifted (shifted_ne moved absent)
      | kept verbatim hidden read meant =>
        have behind := (List.cons.inj (List.append_cancel_left (read.symm.trans meant))).2
        have same := (List.cons.inj (List.append_cancel_left behind)).2
        rw [same] at later
        exact ⟨.inr ⟨verbatim, hidden⟩, later⟩
    · intro ⟨faithful, later⟩
      rw [expand_literal plain]
      rcases faithful with known | ⟨verbatim, hidden⟩
      · obtain ⟨c, known⟩ := Option.ne_none_iff_exists'.mp known
        rw [decode_block plain closed, decodeEntity_reference known, later, expand_reference known,
          ok_bind]
        simp [Except.map, replacementText]
      · have unknown : reference entity = none := by
          cases known : reference entity with
          | none => rfl
          | some c =>
            have stands := verbatim.2
            rw [reference_stands known] at stands
            cases stands
        rw [decode_verbatim plain closed verbatim, later, expand_ampersand closed unknown,
          expand_kept closed hidden]
        rfl

end Exactness

/-! ## The pieces of a document -/

/-- A piece of an element's text: outside a CDATA section, or what is in one. -/
inductive Piece where
  | plain (text : Text)
  | cdata (text : Text)

def Piece.written : Piece → Text
  | plain text => text
  | cdata text => text

/-- What a piece stands for. -/
def Piece.meant : Piece → Text
  | plain text => expandReferences text
  | cdata text => text

/-- Every block of the piece comes out as it should. -/
def Piece.Faithful : Piece → Prop
  | plain text => ∀ entity ∈ blocks text, Xml.Faithful entity
  | cdata text => ∀ entity ∈ blocks text, Verbatim entity

theorem decode_piece_iff (piece : Piece) :
    decodeEntities piece.written = .ok piece.meant ↔ piece.Faithful := by
  cases piece with
  | plain text => exact decode_expand_iff text
  | cdata text => exact decode_verbatim_iff text

/-- The pieces that `push_text` is called with on a document, and the reader it is called on. -/
inductive Pushes (input : Text) : Reader → Piece → Prop
  | plain {reader : Reader} {rest : Text}
      (reached : Rounds.Reaches documentRound (Reader.start, unmarked input) (reader, rest)) :
      Pushes input reader (.plain (rest.takeWhile (· ≠ '<')))
  | cdata {reader pushed : Reader} {rest text after body inner tail : Text}
      (reached : Rounds.Reaches documentRound (Reader.start, unmarked input) (reader, rest))
      (split : splitOnce '<' rest = some (text, after)) (push : reader.pushText text = .ok pushed)
      (opening : stripPrefix "![CDATA[".toList after = some body)
      (closing : splitAtPattern "]]>".toList body = some (inner, tail)) :
      Pushes input pushed (.cdata inner)

/-- Every piece inside an element that is not blank is added to its text as what it stands for. -/
def KeepsText (input : Text) : Prop := ∀ reader piece target outer, Pushes input reader piece →
  reader.stack = target :: outer → trim piece.written ≠ [] →
    reader.pushText piece.written =
      .ok { reader with stack := target.withText piece.meant :: outer }

/-- Every piece inside an element that is not blank holds only blocks that come out right. -/
def FaithfulText (input : Text) : Prop := ∀ reader piece, Pushes input reader piece →
  reader.stack ≠ [] → trim piece.written ≠ [] → piece.Faithful

theorem withText_injective {node : Node} {text other : Text}
    (same : node.withText text = node.withText other) : text = other := by
  cases node
  injection same with _ _ _ appended
  exact List.append_cancel_left appended

theorem pushText_meant {reader : Reader} {piece : Piece} {target : Node} {outer : List Node}
    (inside : reader.stack = target :: outer) (some : trim piece.written ≠ []) :
    reader.pushText piece.written =
        .ok { reader with stack := target.withText piece.meant :: outer } ↔ piece.Faithful := by
  rw [← decode_piece_iff, Reader.pushText, if_neg some, inside]
  cases decodeEntities piece.written with
  | error error => exact iff_of_false (fun same => nomatch same) fun same => nomatch same
  | ok decoded =>
    constructor
    · intro same
      injection same with same
      injection same with same
      exact congrArg Except.ok (withText_injective (List.cons.inj same).1)
    · intro same
      cases same
      rfl

/-- The text of the elements is kept if and only if its pieces hold only such blocks. -/
theorem keeps_text_iff_faithful (input : Text) : KeepsText input ↔ FaithfulText input := by
  constructor
  · intro keeps reader piece pushes inside some
    obtain ⟨target, outer, same⟩ := List.exists_cons_of_ne_nil inside
    exact (pushText_meant same some).mp (keeps reader piece target outer pushes same some)
  · intro faithful reader piece target outer pushes same some
    have inside : reader.stack ≠ [] := by
      rw [same]
      exact List.cons_ne_nil _ _
    exact (pushText_meant same some).mpr (faithful reader piece pushes inside some)

/-- A CDATA section that holds the text of a reference. -/
def quotedReference : Text := "<a><![CDATA[&lt;]]></a>".toList

theorem quoted_reference_decoded : ¬ KeepsText quotedReference := by
  intro keeps
  have step : documentRound (Reader.start, unmarked quotedReference) =
      .ok (.inr (⟨[.mk "a".toList [] [] []], none, 1⟩, "<![CDATA[&lt;]]></a>".toList)) := rfl
  have pushes : Pushes quotedReference ⟨[.mk "a".toList [] [] []], none, 1⟩
      (.cdata "&lt;".toList) :=
    .cdata (.next .start step) rfl rfl rfl rfl
  have kept := keeps _ _ _ _ pushes rfl (by decide)
  injection kept with same
  injection same with same
  injection (List.cons.inj same).1 with _ _ _ same
  exact absurd same (by decide)

end Gunda.Stream.Xml

import Gunda.Stream.References

/-!
# How XML is written

Names, attributes and tags as a document spells them, and what the functions for tags of
`gunda-stream/src/xml.rs` read of them.
-/
namespace Gunda.Stream.Xml

open Gunda.Lib Gunda.Lib.Text

/-! ## Names -/

/-- A name is not empty and has neither whitespace nor delimiters. -/
def LegalName (name : Text) : Prop :=
  name ≠ [] ∧ Solid name ∧ ∀ c ∈ name, c ∉ "<>/=\"'&!?:".toList

instance : DecidablePred LegalName := fun name =>
  @instDecidableAnd _ _ _ (@instDecidableAnd _ _ _
    (List.decidableBAll (fun c => c ∉ "<>/=\"'&!?:".toList) name))

/-- A local name by itself or with a namespace prefix. -/
inductive Qualified (name : Text) : Text → Prop
  | bare (legal : LegalName name) : Qualified name name
  | prefixed {space : Text} (legal : LegalName name) (spaced : LegalName space) :
      Qualified name (space ++ ':' :: name)

section Names

variable {name qualified gap rest : Text}

section

variable (written : Qualified name qualified)
include written

theorem Qualified.legal : LegalName name := by
  cases written with
  | bare legal => exact legal
  | prefixed legal _ => exact legal

theorem Qualified.chars :
    ∀ c ∈ qualified, isWhitespace c = false ∧ c ∉ "<>/=\"'&!?".toList := by
  have plain {name : Text} (legal : LegalName name) (c : Char) (member : c ∈ name) :
      isWhitespace c = false ∧ c ∉ "<>/=\"'&!?".toList :=
    ⟨legal.2.1 c member, fun reserved => legal.2.2 c member (List.mem_append_left [':'] reserved)⟩
  cases written with
  | bare legal => exact plain legal
  | prefixed legal spaced =>
    intro c member
    rcases List.mem_append.mp member with before | behind
    · exact plain spaced c before
    · rcases List.mem_cons.mp behind with rfl | behind
      · exact ⟨rfl, by decide⟩
      · exact plain legal c behind

theorem Qualified.solid : Solid qualified :=
  fun c member => (written.chars c member).1

theorem Qualified.absent {c : Char} (reserved : c ∈ "<>/=\"'&!?".toList) : c ∉ qualified :=
  fun member => (written.chars c member).2 reserved

theorem Qualified.nonempty : qualified ≠ [] := by
  cases written with
  | bare legal => exact legal.1
  | prefixed legal _ => simp

theorem localName_qualified : localName qualified = name := by
  have single : ':' ∉ name.reverse :=
    fun member => written.legal.2.2 ':' (List.mem_reverse.mp member) (by decide)
  unfold localName
  cases written with
  | bare legal => rw [splitOnce_none_iff.mpr single]
  | @prefixed space legal _ =>
    have reversed : (space ++ ':' :: name).reverse = name.reverse ++ ':' :: space.reverse := by
      simp
    rw [reversed, splitOnce_append single]
    exact List.reverse_reverse name

theorem trim_qualified (blank : Blank gap) :
    trim (qualified ++ gap) = qualified := by
  obtain ⟨c, others, same⟩ := List.exists_cons_of_ne_nil written.nonempty
  have first : isWhitespace c = false := written.solid c (same ▸ List.mem_cons_self)
  have start : trimStart (qualified ++ gap) = qualified ++ gap := by
    rw [same]
    exact trimStart_cons first
  rw [trim, start, trimEnd_blank blank, trimEnd_solid written.solid]

theorem trimStart_qualified (blank : Blank gap) :
    trimStart (gap ++ (qualified ++ rest)) = qualified ++ rest := by
  obtain ⟨c, others, same⟩ := List.exists_cons_of_ne_nil written.nonempty
  have first : isWhitespace c = false := written.solid c (same ▸ List.mem_cons_self)
  rw [trimStart_blank blank, same]
  exact trimStart_cons first

end

end Names

/-! ## Attributes -/

/-- Attributes with the whitespace before each, in either quote style. -/
inductive WrittenAttributes : List (Text × Text) → Text → Prop
  | nil : WrittenAttributes [] []
  | cons {gap before behind name qualified value text rest : Text} {quote : Char}
      {attributes : List (Text × Text)} (apart : gap ≠ []) (blank : Blank gap)
      (named : Qualified name qualified) (blankBefore : Blank before) (blankBehind : Blank behind)
      (quoted : quote = '"' ∨ quote = '\'') (written : Written ['&', quote] value text)
      (others : WrittenAttributes attributes rest) :
      WrittenAttributes ((name, value) :: attributes)
        (gap ++ (qualified ++ (before ++ '=' :: (behind ++ quote :: (text ++ quote :: rest)))))

section Attributes

variable {rest text more : Text} {attributes done : List (Text × Text)}

theorem WrittenAttributes.start (written : WrittenAttributes attributes text) :
    text = [] ∨ ∃ c more, text = c :: more ∧ isWhitespace c = true := by
  cases written with
  | nil => exact .inl rfl
  | @cons gap before behind name qualified value text rest quote attributes apart blank =>
    obtain ⟨c, others, same⟩ := List.exists_cons_of_ne_nil apart
    exact .inr ⟨c, _, by rw [same]; rfl, blank c (same ▸ List.mem_cons_self)⟩

theorem WrittenAttributes.ending (written : WrittenAttributes attributes text) :
    text = [] ∨ ∃ more quote, text = more ++ [quote] ∧ (quote = '"' ∨ quote = '\'') := by
  induction written with
  | nil => exact .inl rfl
  | @cons gap before behind name qualified value text rest quote _ _ _ _ _ _ quoted _ _ ih =>
    rcases ih with rfl | ⟨more, last, rfl, ending⟩
    · refine .inr ⟨gap ++ (qualified ++ (before ++ '=' :: (behind ++ quote :: text))), quote, ?_,
        quoted⟩
      simp
    · refine .inr ⟨gap ++ (qualified ++ (before ++ '=' :: (behind ++ quote :: (text ++ quote ::
        more)))), last, ?_, ending⟩
      simp

theorem quote_absent {value text : Text} {quote : Char} (quoted : quote = '"' ∨ quote = '\'')
    (written : Written ['&', quote] value text) : quote ∉ text := by
  rcases quoted with rfl | rfl
  · exact written_absent written (by decide) (by decide) (by decide) (by decide)
  · exact written_absent written (by decide) (by decide) (by decide) (by decide)

/-- The first attribute of a tag is read with what follows it. -/
theorem tagAttribute_written {before behind name qualified value text : Text} {quote : Char}
    (named : Qualified name qualified) (blankBefore : Blank before) (blankBehind : Blank behind)
    (quoted : quote = '"' ∨ quote = '\'') (written : Written ['&', quote] value text)
    (fresh : name ∉ done.map Prod.fst) :
    tagAttribute (qualified ++ (before ++ '=' :: (behind ++ quote :: (text ++ quote :: rest))))
      done = .ok (trimStart rest, done ++ [(name, value)]) := by
  have equals : '=' ∉ qualified ++ before := by
    rw [List.mem_append, not_or]
    refine ⟨named.absent (by decide), fun member => ?_⟩
    cases blankBefore '=' member
  have split : splitOnce '=' (qualified ++ (before ++ '=' :: (behind ++ quote :: (text ++ quote ::
      rest)))) = some (qualified ++ before, behind ++ quote :: (text ++ quote :: rest)) := by
    rw [← List.append_assoc, splitOnce_append equals]
  have valid : ¬ (qualified = [] ∨ qualified.any isWhitespace = true) := by
    rw [any_isWhitespace_solid named.solid, not_or]
    exact ⟨named.nonempty, Bool.false_ne_true⟩
  have tail : trimStart (behind ++ quote :: (text ++ quote :: rest)) =
      quote :: (text ++ quote :: rest) := by
    rw [trimStart_blank blankBehind]
    apply trimStart_cons
    rcases quoted with rfl | rfl <;> rfl
  have read : tagAttributeValue (quote :: (text ++ quote :: rest)) = .ok (text, rest) := by
    have ended := @splitOnce_append quote text rest (quote_absent quoted written)
    rcases quoted with rfl | rfl
    · exact congrArg (required .malformed) ended
    · exact congrArg (required .malformed) ended
  have unused : ¬ (done.any fun existing => existing.1 = name) = true := by
    intro found
    obtain ⟨existing, member, same⟩ := List.any_eq_true.mp found
    exact fresh (List.mem_map.mpr ⟨existing, member, of_decide_eq_true same⟩)
  have decoded : decodeEntities text = .ok value :=
    decodeEntities_written List.mem_cons_self written
  unfold tagAttribute
  rw [split]
  dsimp only [required]
  rw [ok_bind]
  rw [trim_qualified named blankBefore, if_neg valid, localName_qualified named, tail, read,
    ok_bind]
  rw [if_neg unused, decoded]
  rfl

theorem tagRounds_written (written : WrittenAttributes attributes text)
    (distinct : ((done ++ attributes).map Prod.fst).Nodup) :
    Rounds tagRound (trimStart text, done) (.ok (done ++ attributes)) := by
  induction written generalizing done with
  | nil =>
    rw [List.append_nil]
    exact .ended rfl
  | @cons gap before behind name qualified value text rest quote attributes apart blank named
      blankBefore blankBehind quoted written _ ih =>
    have fresh : name ∉ done.map Prod.fst := by
      intro member
      rw [List.map_append, List.map_cons, List.nodup_append] at distinct
      exact distinct.2.2 name member name List.mem_cons_self rfl
    have round := @tagAttribute_written rest done _ _ _ _ _ _ _ named blankBefore blankBehind
      quoted written fresh
    have moved : done ++ (name, value) :: attributes = done ++ [(name, value)] ++ attributes := by
      simp
    rw [moved] at distinct ⊢
    rw [trimStart_qualified named blank]
    have more : qualified ++ (before ++ '=' :: (behind ++ quote :: (text ++ quote :: rest))) ≠ [] :=
      fun empty => named.nonempty (List.append_eq_nil_iff.mp empty).1
    apply Rounds.next _ (ih distinct)
    unfold tagRound
    rw [if_neg more]
    rw [round]
    rfl

end Attributes

/-! ## Tags -/

/-- What stands between `<` and the `>` or `/>` that ends an opening tag. -/
inductive WrittenTag (name : Text) (attributes : List (Text × Text)) : Text → Prop
  | tag {qualified text gap : Text} (named : Qualified name qualified)
      (written : WrittenAttributes attributes text) (distinct : (attributes.map Prod.fst).Nodup)
      (blank : Blank gap) : WrittenTag name attributes (qualified ++ text ++ gap)

/-- A text that the search for the end of a tag passes over. -/
def Passes (text : Text) : Prop := ∀ rest, findTagEnd none (text ++ rest) =
  (findTagEnd none rest).map fun parts => (text ++ parts.1, parts.2)

section Tags

variable {name text gap rest inner head tail : Text} {attributes : List (Text × Text)} {c : Char}

theorem passes_nil : Passes [] := by
  intro rest
  rw [List.nil_append]
  exact (Option.map_id' (x := findTagEnd none rest)).symm

theorem Passes.append (first : Passes head) (second : Passes tail) : Passes (head ++ tail) := by
  intro rest
  rw [List.append_assoc, first, second, Option.map_map]
  exact congrArg (Option.map · _) (funext fun parts =>
    congrArg (·, parts.2) (List.append_assoc head tail parts.1).symm)

theorem passes_plain (plain : ∀ c ∈ text, c ∉ ">\"'".toList) : Passes text := by
  induction text with
  | nil => exact passes_nil
  | cons d text ih =>
    rw [List.forall_mem_cons] at plain
    have first : d ≠ '>' := fun same => plain.1 (by rw [same]; decide)
    have second : ¬ (d = '"' ∨ d = '\'') := by
      rintro (same | same)
      · exact plain.1 (by rw [same]; decide)
      · exact plain.1 (by rw [same]; decide)
    intro rest
    rw [List.cons_append, findTagEnd]
    rw [if_neg first, if_neg second, ih plain.2, Option.map_map]
    rfl

theorem passes_single (plain : c ∉ ">\"'".toList) : Passes [c] := by
  apply passes_plain
  intro d member
  rw [List.mem_singleton.mp member]
  exact plain

theorem findTagEnd_quoted {quote : Char} (absent : quote ∉ text) (rest : Text) :
    findTagEnd (some quote) (text ++ quote :: rest) =
      (findTagEnd none rest).map fun parts => (text ++ quote :: parts.1, parts.2) := by
  induction text with
  | nil =>
    rw [List.nil_append, findTagEnd]
    rw [if_pos rfl]
    rfl
  | cons d text ih =>
    rw [List.mem_cons, not_or] at absent
    rw [List.cons_append, findTagEnd]
    rw [if_neg (Ne.symm absent.1), ih absent.2, Option.map_map]
    rfl

theorem passes_quoted {quote : Char} (quoted : quote = '"' ∨ quote = '\'') (absent : quote ∉ text) :
    Passes (quote :: (text ++ [quote])) := by
  intro rest
  have other : quote ≠ '>' := by
    rcases quoted with rfl | rfl <;> decide
  rw [List.cons_append, findTagEnd, List.append_assoc]
  rw [if_neg other, if_pos quoted]
  change (findTagEnd (some quote) (text ++ quote :: rest)).map _ = _
  rw [findTagEnd_quoted absent, Option.map_map]
  apply congrArg (Option.map · _)
  funext parts
  simp

theorem passes_blank (blank : Blank gap) : Passes gap := by
  apply passes_plain
  intro c member reserved
  have white := blank c member
  have solid : Solid ">\"'".toList := by decide
  rw [solid c reserved] at white
  cases white

theorem Qualified.passes {qualified : Text} (named : Qualified name qualified) :
    Passes qualified := by
  apply passes_plain
  intro c member reserved
  have subset : ">\"'".toList ⊆ "<>/=\"'&!?".toList := by decide
  exact named.absent (subset reserved) member

theorem WrittenAttributes.passes (written : WrittenAttributes attributes text) : Passes text := by
  induction written with
  | nil => exact passes_nil
  | @cons gap before behind name qualified value text rest quote attributes apart blank named
      blankBefore blankBehind quoted written _ ih =>
    have split : gap ++ (qualified ++ (before ++ '=' :: (behind ++ quote :: (text ++ quote ::
        rest)))) = gap ++ (qualified ++ (before ++ (['='] ++ (behind ++ (quote :: (text ++
          [quote]) ++ rest))))) := by
      simp
    rw [split]
    have equals : Passes ['='] := passes_single (by decide)
    exact (passes_blank blank).append (named.passes.append ((passes_blank blankBefore).append
      (equals.append ((passes_blank blankBehind).append
        ((passes_quoted quoted (quote_absent quoted written)).append ih)))))

theorem WrittenTag.passes (tag : WrittenTag name attributes inner) : Passes inner := by
  cases tag with
  | tag named written _ blank =>
    exact (named.passes.append written.passes).append (passes_blank blank)

theorem Passes.ends (passes : Passes inner) (rest : Text) :
    findTagEnd none (inner ++ '>' :: rest) = some (inner, rest) := by
  rw [passes, findTagEnd]
  rw [if_pos rfl]
  simp

section Tag

variable {qualified : Text} (named : Qualified name qualified)
  (written : WrittenAttributes attributes text)

include named written

/-- What is trimmed off a tag is its last whitespace. -/
theorem trimEnd_tag : trimEnd (qualified ++ text) = qualified ++ text := by
  rcases written.ending with rfl | ⟨more, quote, rfl, quoted⟩
  · rw [List.append_nil, trimEnd_solid named.solid]
  · rw [← List.append_assoc]
    apply trimEnd_last
    rcases quoted with rfl | rfl <;> rfl

theorem stripSuffix_tag : stripSuffix ['/'] (qualified ++ text) = none := by
  rcases written.ending with rfl | ⟨more, quote, rfl, quoted⟩
  · rw [List.append_nil]
    exact stripSuffix_absent (named.absent (by decide))
  · rw [← List.append_assoc]
    apply stripSuffix_last
    rcases quoted with rfl | rfl <;> decide

theorem takeWhile_tag :
    (qualified ++ text).takeWhile (!isWhitespace ·) = qualified ∧
      (qualified ++ text).dropWhile (!isWhitespace ·) = text := by
  have solid : ∀ c ∈ qualified, (!isWhitespace c) = true := by
    intro c member
    rw [named.solid c member]
    rfl
  rw [List.takeWhile_append_of_pos solid, List.dropWhile_append_of_pos solid]
  rcases written.start with rfl | ⟨c, more, rfl, white⟩
  · exact ⟨List.append_nil _, rfl⟩
  · rw [List.takeWhile_cons, List.dropWhile_cons, white]
    exact ⟨List.append_nil _, rfl⟩

theorem parseTag_written (distinct : (attributes.map Prod.fst).Nodup) :
    parseTag (qualified ++ text) = .ok (name, attributes) := by
  obtain ⟨before, after⟩ := takeWhile_tag named written
  have attributesRead : tagAttributes (trimStart text).length (trimStart text) [] =
      .ok attributes := by
    have rounds := @tagRounds_written text attributes [] written distinct
    exact (@tagAttributes_rounds _ [] _ (Nat.le_refl _)).unique rounds
  unfold parseTag
  rw [before, after, trim_solid named.solid]
  dsimp only
  rw [if_neg named.nonempty, attributesRead]
  dsimp only [bind, Except.bind, pure, Except.pure]
  rw [localName_qualified named]

end Tag

/-- The inside of a tag, whether it closes itself, and what is parsed of it. -/
theorem openTag_inner (tag : WrittenTag name attributes inner) :
    (stripSuffix ['/'] (trimEnd inner) = none ∧
        parseTag (trimEnd (trimEnd inner)) = .ok (name, attributes)) ∧
      ∃ kept, stripSuffix ['/'] (trimEnd (inner ++ ['/'])) = some kept ∧
        parseTag (trimEnd kept) = .ok (name, attributes) := by
  cases tag with
  | @tag qualified text gap named written distinct blank =>
    have parsed := parseTag_written named written distinct
    have trimmed : trimEnd (qualified ++ text ++ gap) = qualified ++ text := by
      rw [trimEnd_blank blank, trimEnd_tag named written]
    constructor
    · rw [trimmed, trimEnd_tag named written]
      exact ⟨stripSuffix_tag named written, parsed⟩
    · refine ⟨qualified ++ text ++ gap, ?_, ?_⟩
      · rw [trimEnd_last rfl]
        exact stripSuffix_append '/'
      · rw [trimmed]
        exact parsed

/-- What an opening tag begins with is none of what the reader looks for before it. -/
theorem WrittenTag.starts (tag : WrittenTag name attributes inner) (rest : Text) :
    stripPrefix "/".toList (inner ++ rest) = none ∧
      stripPrefix "!--".toList (inner ++ rest) = none ∧
      stripPrefix "![CDATA[".toList (inner ++ rest) = none ∧
      stripPrefix "?".toList (inner ++ rest) = none ∧
      stripPrefix "!".toList (inner ++ rest) = none := by
  cases tag with
  | @tag qualified text gap named _ _ _ =>
    obtain ⟨c, others, same⟩ := List.exists_cons_of_ne_nil named.nonempty
    have first {d : Char} (reserved : d ∈ "<>/=\"'&!?".toList) : d ≠ c := by
      intro equal
      apply named.absent reserved
      rw [same, equal]
      exact List.mem_cons_self
    rw [same]
    exact ⟨stripPrefix_cons_ne (first (by decide)), stripPrefix_cons_ne (first (by decide)),
      stripPrefix_cons_ne (first (by decide)), stripPrefix_cons_ne (first (by decide)),
      stripPrefix_cons_ne (first (by decide))⟩

end Tags

end Gunda.Stream.Xml

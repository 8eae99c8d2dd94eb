import Gunda.Stream.XmlSyntax
import Gunda.Stream.XmlBounds

/-!
# Documents as they are written

Every way a tree of elements may be written as a document, and the tree that
`parse_document` of `gunda-stream/src/xml.rs` reads of it.
-/
namespace Gunda.Stream.Xml

open Gunda.Lib Gunda.Lib.Text
open Reader (attach close openTag pushText)

namespace Node

mutual

/-- A tree with the text of every element trimmed. -/
def trimmed : Node → Node
  | mk name attributes children text => mk name attributes (trimmedAll children) (trim text)

def trimmedAll : List Node → List Node
  | [] => []
  | node :: rest => node.trimmed :: trimmedAll rest

end

/-- An element with more children and more text. -/
def extended : Node → List Node → Text → Node
  | mk name attributes children text, more, added =>
      mk name attributes (children ++ more) (text ++ added)

end Node

/-! ## Content -/

/-- Text between two pieces of markup: only whitespace, or with all its characters written. -/
inductive WrittenPiece : Text → Text → Prop
  | blank {text : Text} (blank : Blank text) : WrittenPiece [] text
  | text {value text : Text} (written : Written ['&', '<'] value text) (some : ¬ Blank text) :
      WrittenPiece value text

/-- What follows the `<` of markup that is no element. -/
inductive Skipped : Text → Prop
  | comment {text : Text} (inner : ¬ "-->".toList <:+: text) :
      Skipped ("!--".toList ++ (text ++ "-->".toList))
  | instruction {text : Text} (inner : ¬ "?>".toList <:+: text) :
      Skipped ("?".toList ++ (text ++ "?>".toList))
  | doctype {text : Text} (inner : '>' ∉ text) : Skipped ("!DOCTYPE".toList ++ (text ++ ['>']))

/-- Children with the text around them, as they are written inside an element. -/
inductive Content : List Node → Text → Text → Prop
  | last {value text : Text} (piece : WrittenPiece value text) : Content [] value text
  | skipped {children : List Node} {value text skip more written : Text}
      (piece : WrittenPiece value text) (markup : Skipped skip)
      (rest : Content children more written) :
      Content children (value ++ more) (text ++ '<' :: (skip ++ written))
  | leaf {children : List Node} {attributes : List (Text × Text)}
      {value text name own opening more written : Text} (piece : WrittenPiece value text)
      (tag : WrittenTag name attributes opening) (empty : trim own = [])
      (rest : Content children more written) :
      Content (.mk name attributes [] own :: children) (value ++ more)
        (text ++ '<' :: (opening ++ '/' :: '>' :: written))
  | paired {inner children : List Node} {attributes : List (Text × Text)}
      {value text name own opening found body qualified gap more written : Text}
      (piece : WrittenPiece value text) (tag : WrittenTag name attributes opening)
      (content : Content inner found body) (same : trim own = trim found)
      (closing : Qualified name qualified) (blank : Blank gap)
      (rest : Content children more written) :
      Content (.mk name attributes inner own :: children) (value ++ more)
        (text ++ '<' :: (opening ++ '>' :: (body ++ '<' :: '/' :: (qualified ++ gap ++ '>' ::
          written))))

/-- A document is one element without text around it, after a byte order mark or none. -/
inductive WrittenDocument (root : Node) : Text → Prop
  | plain {written : Text} (content : Content [root] [] written) : WrittenDocument root written
  | marked {written : Text} (content : Content [root] [] written) :
      WrittenDocument root (Char.ofNat 0xFEFF :: written)

/-! ## Pieces -/

section Pieces

variable {reader later : Reader} {target : Node} {outer : List Node} {root : Option Node}
  {count : Nat} {value text after rest : Text}

theorem WrittenPiece.absent (piece : WrittenPiece value text) : '<' ∉ text := by
  cases piece with
  | blank blank =>
    intro member
    cases blank '<' member
  | text written _ =>
    exact written_absent written (by decide) (by decide) (by decide) (by decide)

theorem WrittenPiece.push (piece : WrittenPiece value text) :
    pushText ⟨target :: outer, root, count⟩ text =
      .ok ⟨target.withText value :: outer, root, count⟩ := by
  unfold pushText
  cases piece with
  | blank blank =>
    rw [if_pos (trim_eq_nil.mpr blank)]
    cases target
    rw [Node.withText, List.append_nil]
  | text written some =>
    have decoded : decodeEntities text = .ok value :=
      decodeEntities_written List.mem_cons_self written
    rw [if_neg fun trimmed => some (trim_eq_nil.mp trimmed)]
    rw [decoded]
    rfl

/-- Without a value there is only whitespace, which is skipped anywhere. -/
theorem WrittenPiece.skipped (piece : WrittenPiece [] text) : reader.pushText text = .ok reader := by
  have blank : Blank text := by
    cases piece with
    | blank blank => exact blank
    | text written _ =>
      cases written
      exact fun c member => nomatch member
  exact if_pos (trim_eq_nil.mpr blank)

theorem documentRound_opening (reader : Reader) (after : Text) :
    documentRound (reader, '<' :: after) = (readMarkup reader after).map .inr := by
  have split : splitOnce '<' ('<' :: after) = some ([], after) :=
    @splitOnce_append '<' [] after List.not_mem_nil
  have nothing : reader.pushText [] = .ok reader := if_pos rfl
  rw [documentRound_markup split, nothing, ok_bind]

/-- A piece of text and the markup after it are read one after the other. -/
theorem follows_piece (absent : '<' ∉ text) (push : reader.pushText text = .ok later) :
    Rounds.Follows documentRound (reader, text ++ '<' :: after) (later, '<' :: after) := by
  apply Rounds.Follows.same
  rw [documentRound_markup (splitOnce_append absent), push, ok_bind, documentRound_opening]

theorem WrittenPiece.follows (piece : WrittenPiece value text) (target : Node) (outer : List Node)
    (root : Option Node) (count : Nat) (after : Text) :
    Rounds.Follows documentRound (⟨target :: outer, root, count⟩, text ++ '<' :: after)
      (⟨target.withText value :: outer, root, count⟩, '<' :: after) :=
  follows_piece piece.absent piece.push

theorem follows_markup (read : readMarkup reader after = .ok (later, rest)) :
    Rounds.Follows documentRound (reader, '<' :: after) (later, rest) := by
  apply Rounds.Follows.step
  rw [documentRound_opening, read]
  rfl

end Pieces

/-! ## Markup -/

section Markup

variable {reader later : Reader} {attributes : List (Text × Text)}
  {name inner qualified gap skip rest : Text}

theorem readMarkup_skipped (markup : Skipped skip) (rest : Text) :
    readMarkup reader (skip ++ rest) = .ok (reader, rest) := by
  cases markup with
  | @comment text inner =>
    have ends : splitAtPattern "-->".toList (text ++ ("-->".toList ++ rest)) = some (text, rest) :=
      @splitAtPattern_last '>' text rest "--".toList inner (by decide)
    have split : "!--".toList ++ (text ++ "-->".toList) ++ rest =
        "!--".toList ++ (text ++ ("-->".toList ++ rest)) := by
      rw [List.append_assoc, List.append_assoc]
    have first : stripPrefix "/".toList ("!--".toList ++ (text ++ ("-->".toList ++ rest))) = none :=
      stripPrefix_cons_ne (by decide)
    unfold readMarkup
    rw [split, first, stripPrefix_append]
    dsimp only
    rw [ends]
    rfl
  | @instruction text inner =>
    have ends : splitAtPattern "?>".toList (text ++ ("?>".toList ++ rest)) = some (text, rest) :=
      @splitAtPattern_last '>' text rest "?".toList inner (by decide)
    have split : "?".toList ++ (text ++ "?>".toList) ++ rest =
        "?".toList ++ (text ++ ("?>".toList ++ rest)) := by
      rw [List.append_assoc, List.append_assoc]
    have first {pattern : Text} {c : Char} (other : c ≠ '?') :
        stripPrefix (c :: pattern) ("?".toList ++ (text ++ ("?>".toList ++ rest))) = none :=
      stripPrefix_cons_ne other
    unfold readMarkup
    rw [split, show "/".toList = '/' :: [] from rfl, first (by decide),
      show "!--".toList = '!' :: "--".toList from rfl, first (by decide),
      show "![CDATA[".toList = '!' :: "[CDATA[".toList from rfl, first (by decide),
      stripPrefix_append]
    dsimp only
    rw [ends]
    rfl
  | @doctype text inner =>
    have split : "!DOCTYPE".toList ++ (text ++ ['>']) ++ rest =
        '!' :: 'D' :: ("OCTYPE".toList ++ (text ++ '>' :: rest)) := by
      rw [List.append_assoc, List.append_assoc]
      rfl
    have ends : splitOnce '>' ('!' :: 'D' :: ("OCTYPE".toList ++ (text ++ '>' :: rest))) =
        some ("!DOCTYPE".toList ++ text, rest) := by
      have absent : '>' ∉ "!DOCTYPE".toList ++ text := by
        rw [List.mem_append, not_or]
        exact ⟨by decide, inner⟩
      have found := @splitOnce_append '>' ("!DOCTYPE".toList ++ text) rest absent
      rw [List.append_assoc] at found
      exact found
    have closing : stripPrefix "/".toList
        ('!' :: 'D' :: ("OCTYPE".toList ++ (text ++ '>' :: rest))) = none :=
      stripPrefix_cons_ne (by decide)
    have comment : stripPrefix "!--".toList
        ('!' :: 'D' :: ("OCTYPE".toList ++ (text ++ '>' :: rest))) = none :=
      (stripPrefix_cons '!' _).trans (stripPrefix_cons_ne (by decide))
    have cdata : stripPrefix "![CDATA[".toList
        ('!' :: 'D' :: ("OCTYPE".toList ++ (text ++ '>' :: rest))) = none :=
      (stripPrefix_cons '!' _).trans (stripPrefix_cons_ne (by decide))
    have instruction : stripPrefix "?".toList
        ('!' :: 'D' :: ("OCTYPE".toList ++ (text ++ '>' :: rest))) = none :=
      stripPrefix_cons_ne (by decide)
    have declared : stripPrefix "!".toList
        ('!' :: 'D' :: ("OCTYPE".toList ++ (text ++ '>' :: rest))) =
          some ('D' :: ("OCTYPE".toList ++ (text ++ '>' :: rest))) := stripPrefix_append ['!'] _
    unfold readMarkup
    rw [split, closing, comment, cdata, instruction, declared]
    rw [if_pos Option.isSome_some, ends]
    rfl

/-- A new element of an opening tag that stays open. -/
theorem readMarkup_open (stack : List Node) (root : Option Node) (count : Nat)
    (tag : WrittenTag name attributes inner) (room : stack.length < maxDepth)
    (capped : count + 1 ≤ maxNodes) (rest : Text) :
    readMarkup ⟨stack, root, count⟩ (inner ++ '>' :: rest) =
      .ok (⟨.mk name attributes [] [] :: stack, root, count + 1⟩, rest) := by
  obtain ⟨closing, comment, cdata, instruction, declared⟩ := tag.starts ('>' :: rest)
  obtain ⟨⟨staying, parsed⟩, _⟩ := openTag_inner tag
  have opened : openTag ⟨stack, root, count⟩ inner =
      .ok ⟨.mk name attributes [] [] :: stack, root, count + 1⟩ := by
    unfold openTag
    dsimp only
    rw [staying, Option.getD_none, parsed, ok_bind]
    rw [if_neg (Nat.not_lt_of_le capped)]
    exact if_neg (Nat.not_le_of_lt room)
  unfold readMarkup
  rw [closing, comment, cdata, instruction, declared, tag.passes.ends]
  dsimp only [required]
  rw [if_neg (by decide), ok_bind, opened]
  rfl

/-- An element that its tag closes is attached where it stands. -/
theorem readMarkup_leaf (stack : List Node) (root : Option Node) (count : Nat)
    (tag : WrittenTag name attributes inner) (capped : count + 1 ≤ maxNodes) (rest : Text) :
    readMarkup ⟨stack, root, count⟩ (inner ++ '/' :: '>' :: rest) =
      (attach ⟨stack, root, count + 1⟩ (.mk name attributes [] [])).map (·, rest) := by
  obtain ⟨closing, comment, cdata, instruction, declared⟩ := tag.starts ('/' :: '>' :: rest)
  obtain ⟨_, kept, closed, parsed⟩ := openTag_inner tag
  have slash : Passes ['/'] := passes_single (by decide)
  have ends : findTagEnd none (inner ++ '/' :: '>' :: rest) = some (inner ++ ['/'], rest) := by
    have found := (tag.passes.append slash).ends rest
    rw [List.append_assoc] at found
    exact found
  have opened : openTag ⟨stack, root, count⟩ (inner ++ ['/']) =
      attach ⟨stack, root, count + 1⟩ (.mk name attributes [] []) := by
    unfold openTag
    dsimp only
    rw [closed, Option.getD_some, parsed, ok_bind]
    rw [if_neg (Nat.not_lt_of_le capped)]
    exact if_pos rfl
  unfold readMarkup
  rw [closing, comment, cdata, instruction, declared, ends]
  dsimp only [required]
  rw [if_neg (by decide), ok_bind, opened]
  cases attach ⟨stack, root, count + 1⟩ (.mk name attributes [] []) <;> rfl

/-- The closing tag of the innermost element. -/
theorem readMarkup_close (node : Node) (outer : List Node) (root : Option Node) (count : Nat)
    (closing : Qualified node.name qualified) (blank : Blank gap) (rest : Text) :
    readMarkup ⟨node :: outer, root, count⟩ ('/' :: (qualified ++ gap ++ '>' :: rest)) =
      (attach ⟨outer, root, count⟩ node).map (·, rest) := by
  have absent : '>' ∉ qualified ++ gap := by
    rw [List.mem_append, not_or]
    refine ⟨closing.absent (by decide), fun member => ?_⟩
    cases blank '>' member
  have closed : close ⟨node :: outer, root, count⟩ (qualified ++ gap) =
      attach ⟨outer, root, count⟩ node := by
    unfold close
    rw [trim_qualified closing blank, localName_qualified closing, if_neg closing.legal.1]
    exact if_neg fun other => other rfl
  have opening : stripPrefix "/".toList ('/' :: (qualified ++ gap ++ '>' :: rest)) =
      some (qualified ++ gap ++ '>' :: rest) := stripPrefix_append ['/'] _
  unfold readMarkup
  rw [opening]
  dsimp only
  rw [splitOnce_append absent]
  dsimp only [required]
  rw [ok_bind]
  rw [closed]
  cases attach ⟨outer, root, count⟩ node <;> rfl

end Markup

/-! ## Trees -/

section Trees

variable {children more : List Node} {node child root : Node} {value text added written : Text}

theorem Node.extended_text : (node.withText value).extended children text =
    node.extended children (value ++ text) := by
  cases node
  rw [withText, extended, extended, List.append_assoc]

theorem Node.extended_child : (node.withChild child).extended children text =
    node.extended (child :: children) text := by
  cases node
  rw [withChild, extended, extended, List.append_assoc]
  rfl

theorem Node.extended_nil : node.withText value = node.extended [] value := by
  cases node
  rw [withText, extended, List.append_nil]

section

variable (content : Content children value written)
include content

/-- The content of an element is read up to its closing tag, with the tree it was written for. -/
theorem content_read (target : Node) (outer : List Node) (root : Option Node) (count : Nat)
    (deep : outer.length + 1 + Node.heights children ≤ maxDepth)
    (capped : count + Node.sizes children ≤ maxNodes) (after : Text) :
    ∃ read, Node.trimmedAll read = Node.trimmedAll children ∧
      Rounds.Follows documentRound
        (⟨target :: outer, root, count⟩, written ++ '<' :: '/' :: after)
        (⟨target.extended read value :: outer, root, count + Node.sizes children⟩,
          '<' :: '/' :: after) := by
  induction content generalizing target outer count after with
  | last piece =>
    refine ⟨[], rfl, ?_⟩
    rw [← Node.extended_nil]
    exact piece.follows target outer root count _
  | @skipped children value text skip more written piece markup _ ih =>
    obtain ⟨read, same, follows⟩ := ih (target.withText value) outer count deep capped after
    refine ⟨read, same, ?_⟩
    have first := piece.follows target outer root count
      (skip ++ (written ++ '<' :: '/' :: after))
    have split : text ++ '<' :: (skip ++ written) ++ '<' :: '/' :: after =
        text ++ '<' :: (skip ++ (written ++ '<' :: '/' :: after)) := by
      simp
    rw [Node.extended_text] at follows
    rw [split]
    exact (first.trans (follows_markup (readMarkup_skipped markup _))).trans follows
  | @leaf children attributes value text name own opening more written piece tag empty _ ih =>
    rw [Node.heights] at deep
    rw [Node.sizes] at capped
    have single : (Node.mk name attributes [] own).size = 1 := rfl
    have leaf := readMarkup_leaf (target.withText value :: outer) root count tag (by omega)
      (written ++ '<' :: '/' :: after)
    obtain ⟨read, same, follows⟩ := ih
      ((target.withText value).withChild (.mk name attributes [] [])) outer (count + 1)
      (by omega) (by omega) after
    refine ⟨.mk name attributes [] [] :: read, ?_, ?_⟩
    · rw [Node.trimmedAll, Node.trimmedAll, same, Node.trimmed, Node.trimmed, empty]
      rfl
    · have first := piece.follows target outer root count
        (opening ++ '/' :: '>' :: (written ++ '<' :: '/' :: after))
      have split : text ++ '<' :: (opening ++ '/' :: '>' :: written) ++ '<' :: '/' :: after =
          text ++ '<' :: (opening ++ '/' :: '>' :: (written ++ '<' :: '/' :: after)) := by
        simp
      rw [Node.extended_child, Node.extended_text, Nat.add_assoc, ← single, ← Node.sizes] at follows
      rw [split]
      exact (first.trans (follows_markup leaf)).trans follows
  | @paired inner children attributes value text name own opening found body qualified gap more
      written piece tag _ trims closing blank _ inside ih =>
    rw [Node.heights, Node.height] at deep
    rw [Node.sizes, Node.size] at capped
    have opened := readMarkup_open (target.withText value :: outer) root count tag
      (by rw [List.length_cons]; omega) (by omega)
      (body ++ '<' :: '/' :: (qualified ++ gap ++ '>' :: (written ++ '<' :: '/' :: after)))
    obtain ⟨nodes, sameInner, followsInner⟩ := inside (.mk name attributes [] [])
      (target.withText value :: outer) (count + 1) (by rw [List.length_cons]; omega) (by omega)
      (qualified ++ gap ++ '>' :: (written ++ '<' :: '/' :: after))
    obtain ⟨read, same, follows⟩ := ih
      ((target.withText value).withChild (.mk name attributes nodes found)) outer
      (count + 1 + Node.sizes inner) (by omega) (by omega) after
    have closed := readMarkup_close (.mk name attributes nodes found)
      (target.withText value :: outer) root (count + 1 + Node.sizes inner) closing blank
      (written ++ '<' :: '/' :: after)
    refine ⟨.mk name attributes nodes found :: read, ?_, ?_⟩
    · rw [Node.trimmedAll, Node.trimmedAll, same, Node.trimmed, Node.trimmed, sameInner, trims]
    · have first := piece.follows target outer root count (opening ++ '>' :: (body ++ '<' :: '/' ::
        (qualified ++ gap ++ '>' :: (written ++ '<' :: '/' :: after))))
      have split : text ++ '<' :: (opening ++ '>' :: (body ++ '<' :: '/' :: (qualified ++ gap ++
          '>' :: written))) ++ '<' :: '/' :: after = text ++ '<' :: (opening ++ '>' :: (body ++
            '<' :: '/' :: (qualified ++ gap ++ '>' :: (written ++ '<' :: '/' :: after)))) := by
        simp
      have counted : count + 1 + Node.sizes inner + Node.sizes children =
          count + Node.sizes (.mk name attributes inner own :: children) := by
        rw [Node.sizes, Node.size]
        omega
      rw [Node.extended_child, Node.extended_text, counted] at follows
      rw [split]
      exact (((first.trans (follows_markup opened)).trans followsInner).trans
        (follows_markup closed)).trans follows

/-- After the root only whitespace and skipped markup are read. -/
theorem epilog_read (childless : children = []) (empty : value = []) (node : Node) (count : Nat) :
    Rounds documentRound (⟨[], some node, count⟩, written) (.ok node) := by
  induction content with
  | @last value text piece =>
    subst empty
    by_cases ended : text = []
    · rw [ended]
      exact .ended rfl
    · apply Rounds.ended
      rw [documentRound_text ended (splitOnce_none_iff.mpr piece.absent), piece.skipped]
      rfl
  | @skipped children value text skip more written piece markup _ ih =>
    obtain ⟨rfl, rfl⟩ := List.append_eq_nil_iff.mp empty
    have later := ih childless rfl
    have first := @follows_piece ⟨[], some node, count⟩ _ _ (skip ++ written) piece.absent
      piece.skipped
    exact first _ (follows_markup (readMarkup_skipped markup written) _ later)
  | leaf => cases childless
  | paired => cases childless

theorem document_read (single : children = [root])
    (empty : value = []) (deep : root.height ≤ maxDepth) (small : root.size ≤ maxNodes) :
    ∃ node, node.trimmed = root.trimmed ∧
      Rounds documentRound (Reader.start, written) (.ok node) := by
  induction content with
  | last => cases single
  | @skipped children value text skip more written piece markup _ ih =>
    obtain ⟨rfl, rfl⟩ := List.append_eq_nil_iff.mp empty
    obtain ⟨node, same, rounds⟩ := ih single rfl
    have first := @follows_piece Reader.start _ _ (skip ++ written) piece.absent piece.skipped
    exact ⟨node, same, first _ (follows_markup (readMarkup_skipped markup written) _ rounds)⟩
  | @leaf children attributes value text name own opening more written piece tag trims rest _ =>
    obtain ⟨rfl, rfl⟩ := List.append_eq_nil_iff.mp empty
    obtain ⟨rfl, rfl⟩ := List.cons.inj single
    have leaf := readMarkup_leaf [] none 0 tag (by decide) written
    have first := @follows_piece Reader.start _ _ (opening ++ '/' :: '>' :: written) piece.absent
      piece.skipped
    refine ⟨.mk name attributes [] [], ?_, ?_⟩
    · rw [Node.trimmed, Node.trimmed, trims]
      rfl
    · exact first _ (follows_markup leaf _ (epilog_read rest rfl rfl _ _))
  | @paired inner children attributes value text name own opening found body qualified gap more
      written piece tag content trims closing blank rest _ _ =>
    obtain ⟨rfl, rfl⟩ := List.append_eq_nil_iff.mp empty
    obtain ⟨rfl, rfl⟩ := List.cons.inj single
    rw [Node.height] at deep
    rw [Node.size] at small
    have opened := readMarkup_open [] none 0 tag (by decide) (by decide)
      (body ++ '<' :: '/' :: (qualified ++ gap ++ '>' :: written))
    obtain ⟨nodes, same, follows⟩ := content_read content (.mk name attributes [] []) [] none 1
      (by rw [List.length_nil]; omega) (by omega) (qualified ++ gap ++ '>' :: written)
    have closed := readMarkup_close (.mk name attributes nodes found) [] none
      (1 + Node.sizes inner) closing blank written
    have first := @follows_piece Reader.start _ _
      (opening ++ '>' :: (body ++ '<' :: '/' :: (qualified ++ gap ++ '>' :: written)))
      piece.absent piece.skipped
    refine ⟨.mk name attributes nodes found, ?_, ?_⟩
    · rw [Node.trimmed, Node.trimmed, same, trims]
    · exact first _ (follows_markup opened _ (follows _ (follows_markup closed _
        (epilog_read rest rfl rfl _ _))))

/-- A document without a byte order mark does not begin with one. -/
theorem unmarked_content (single : children = [root])
    (empty : value = []) : unmarked written = written := by
  have plain {text after : Text} (piece : WrittenPiece [] text) :
      unmarked (text ++ '<' :: after) = text ++ '<' :: after := by
    unfold unmarked
    cases text with
    | nil =>
      rw [List.nil_append, stripPrefix_cons_ne (by decide)]
      rfl
    | cons c text =>
      have other : Char.ofNat 0xFEFF ≠ c := by
        intro same
        cases piece with
        | blank blank =>
          have white := blank c List.mem_cons_self
          rw [← same] at white
          exact absurd white (by decide)
        | text written _ => cases written
      rw [List.cons_append, stripPrefix_cons_ne other]
      rfl
  cases content with
  | last => cases single
  | skipped piece =>
    obtain ⟨rfl, _⟩ := List.append_eq_nil_iff.mp empty
    exact plain piece
  | leaf piece =>
    obtain ⟨rfl, _⟩ := List.append_eq_nil_iff.mp empty
    exact plain piece
  | paired piece =>
    obtain ⟨rfl, _⟩ := List.append_eq_nil_iff.mp empty
    exact plain piece

end

/-- A tree within the caps is read back from every document it may be written as. -/
theorem written_document_read_back (tree : Node) (document : Text)
    (deep : tree.height ≤ maxDepth) (small : tree.size ≤ maxNodes)
    (written : WrittenDocument tree document) :
    (parseDocument document).map Node.trimmed = .ok tree.trimmed := by
  have parsed {content : Text} (content_ : Content [tree] [] content)
      (same : unmarked document = content) :
      (parseDocument document).map Node.trimmed = .ok tree.trimmed := by
    obtain ⟨node, trims, rounds⟩ := document_read content_ rfl rfl deep small
    have read := parseDocument_rounds document
    rw [same] at read
    rw [read.unique rounds, ← trims]
    rfl
  cases written with
  | plain content => exact parsed content (unmarked_content content rfl rfl)
  | marked content =>
    apply parsed content
    exact congrArg (Option.getD · _) (stripPrefix_append [Char.ofNat 0xFEFF] _)

end Trees

/-- An element with an attribute, a child and text. -/
def sampleTree : Node :=
  .mk "MPD".toList [("id".toList, "a\"&".toList)] [.mk "X".toList [] [] []] "t<".toList

def sampleDocument : Text :=
  "<?xml?>\n<m:MPD id='a\"&amp;'> <!-- <x> --><X/>t&#60;</MPD>".toList

theorem sample_written : WrittenDocument sampleTree sampleDocument := by
  have value : Written ['&', '\''] "a\"&".toList "a\"&amp;".toList :=
    .plain (by decide) (.plain (by decide)
      (@Written.escaped _ _ "amp".toList _ _ rfl .nil))
  have tag : WrittenTag "MPD".toList [("id".toList, "a\"&".toList)] "m:MPD id='a\"&amp;'".toList :=
    @WrittenTag.tag _ _ "m:MPD".toList " id='a\"&amp;'".toList []
      (@Qualified.prefixed _ "m".toList (by decide) (by decide))
      (@WrittenAttributes.cons " ".toList [] [] _ _ _ "a\"&amp;".toList [] '\'' []
        (by decide) (by decide) (.bare (by decide)) (by decide)
        (by decide) (.inr rfl) value .nil)
      (by decide) (by decide)
  have leaf : WrittenTag "X".toList [] "X".toList :=
    @WrittenTag.tag _ _ "X".toList [] [] (.bare (by decide)) .nil (by decide)
      (by decide)
  have text : Content [] "t<".toList "t&#60;".toList :=
    .last (.text (.plain (by decide) (@Written.escaped _ _ "#60".toList _ _ rfl .nil))
      (by decide))
  have inner : Content [.mk "X".toList [] [] []] "t<".toList
      " <!-- <x> --><X/>t&#60;".toList :=
    @Content.skipped _ [] " ".toList "!-- <x> -->".toList _ "<X/>t&#60;".toList
      (.blank (by decide)) (@Skipped.comment " <x> ".toList (by decide))
      (@Content.leaf [] [] [] [] _ [] _ _ _ (.blank (by decide)) leaf rfl text)
  have root : Content [sampleTree] []
      "\n<m:MPD id='a\"&amp;'> <!-- <x> --><X/>t&#60;</MPD>".toList :=
    @Content.paired _ [] _ [] "\n".toList _ _ _ _ _ "MPD".toList [] [] []
      (.blank (by decide)) tag inner rfl (.bare (by decide)) (by decide)
      (.last (.blank (by decide)))
  exact .plain (@Content.skipped _ [] [] "?xml?>".toList [] _ (.blank (by decide))
    (@Skipped.instruction "xml".toList (by decide)) root)

theorem sample_document_read_back :
    (parseDocument sampleDocument).map Node.trimmed = .ok sampleTree.trimmed :=
  written_document_read_back sampleTree sampleDocument (by decide) (by decide) sample_written

end Gunda.Stream.Xml

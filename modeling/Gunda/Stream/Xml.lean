import Gunda.Stream.Manifest

/-!
# XML documents

`gunda-stream/src/xml.rs`: the bounded reader of elements, attributes and text.
Its loops take characters off the rest of the input in every round, so as many
rounds as characters are enough.
-/
namespace Gunda.Stream.Xml

open Gunda.Lib Gunda.Lib.Text

inductive Node where
  | mk (name : Text) (attributes : List (Text × Text)) (children : List Node) (text : Text)

def maxDepth : Nat := 64

def maxNodes : Nat := 100000

namespace Node

def name : Node → Text
  | mk name _ _ _ => name

def attributes : Node → List (Text × Text)
  | mk _ attributes _ _ => attributes

def children : Node → List Node
  | mk _ _ children _ => children

def rawText : Node → Text
  | mk _ _ _ text => text

def attributeNamed (node : Node) (name : Text) : Option Text :=
  (node.attributes.find? fun pair => pair.1 = name).map (·.2)

def attributeU64 (node : Node) (name : Text) : Except ManifestError (Option Nat) :=
  (node.attributeNamed name).mapM fun value => required .invalidNumber (parseU64 (trim value))

def attributeI64 (node : Node) (name : Text) : Except ManifestError (Option Int) :=
  (node.attributeNamed name).mapM fun value => required .invalidNumber (parseI64 (trim value))

def attributeU32 (node : Node) (name : Text) : Except ManifestError (Option Nat) :=
  (node.attributeNamed name).mapM fun value => required .invalidNumber (parseU32 (trim value))

def childrenNamed (node : Node) (name : Text) : List Node :=
  node.children.filter fun child => child.name = name

def child (node : Node) (name : Text) : Option Node :=
  node.children.find? fun child => child.name = name

/-- The element's own text, trimmed. -/
def text (node : Node) : Text := trim node.rawText

def withChild : Node → Node → Node
  | mk name attributes children text, node => mk name attributes (children ++ [node]) text

def withText : Node → Text → Node
  | mk name attributes children text, more => mk name attributes children (text ++ more)

end Node

/-- What follows the last colon of a name. -/
def localName (name : Text) : Text :=
  match splitOnce ':' name.reverse with
  | some (tail, _) => tail.reverse
  | none => name

/-! ## Character references -/

/-- `char::from_u32`. -/
def charFromU32 (code : Nat) : Option Char :=
  if code.isValidChar then some (Char.ofNat code) else none

def decodeCharacterReference (entity : Text) : Except ManifestError (Option Char) :=
  match entity with
  | '#' :: digits => do
      let code ← match digits with
        | 'x' :: hex | 'X' :: hex => required .malformed (parseHexU32 hex)
        | _ => required .malformed (parseU32 digits)
      pure (charFromU32 code)
  | _ => .ok none

def decodeEntity (entity : Text) : Except ManifestError (Option Char) :=
  if entity = "amp".toList then .ok (some '&')
  else if entity = "lt".toList then .ok (some '<')
  else if entity = "gt".toList then .ok (some '>')
  else if entity = "quot".toList then .ok (some '"')
  else if entity = "apos".toList then .ok (some '\'')
  else decodeCharacterReference entity

def decodeRounds : Nat → Text → Except ManifestError Text
  | 0, rest => .ok rest
  | rounds + 1, rest =>
      match splitOnce '&' rest with
      | none => .ok rest
      | some (literal, after) =>
          match splitOnce ';' after with
          | none => do
              -- a bare ampersand is tolerated
              let tail ← decodeRounds rounds after
              pure (literal ++ '&' :: tail)
          | some (entity, after) => do
              let replacement ← decodeEntity entity
              let tail ← decodeRounds rounds after
              pure (literal ++ (match replacement with
                | some character => [character]
                | none => '&' :: entity ++ [';']) ++ tail)

def decodeEntities (value : Text) : Except ManifestError Text := decodeRounds value.length value

/-! ## Tags -/

/-- The characters before the `>` that ends a tag, outside quotes, and after it. -/
def findTagEnd (quote : Option Char) : Text → Option (Text × Text)
  | [] => none
  | c :: rest =>
      match quote with
      | some opened =>
          (findTagEnd (if c = opened then none else quote) rest).map fun parts =>
            (c :: parts.1, parts.2)
      | none =>
          if c = '>' then some ([], rest)
          else (findTagEnd (if c = '"' ∨ c = '\'' then some c else none) rest).map fun parts =>
            (c :: parts.1, parts.2)

/-- A quoted or bare attribute value, and what follows it. -/
def tagAttributeValue (tail : Text) : Except ManifestError (Text × Text) :=
  match tail with
  | '"' :: quoted => required .malformed (splitOnce '"' quoted)
  | '\'' :: quoted => required .malformed (splitOnce '\'' quoted)
  | _ => .ok (tail.takeWhile (!isWhitespace ·), tail.dropWhile (!isWhitespace ·))

def tagAttributes : Nat → Text → List (Text × Text) →
    Except ManifestError (List (Text × Text))
  | _, [], attributes => .ok attributes
  | 0, _, _ => .error .malformed
  | rounds + 1, rest, attributes => do
      let (key, tail) ← required .malformed (splitOnce '=' rest)
      let key := trim key
      if key = [] ∨ key.any isWhitespace then
        throw .malformed
      let key := localName key
      let (value, next) ← tagAttributeValue (trimStart tail)
      if attributes.any fun existing => existing.1 = key then
        throw .malformed
      let value ← decodeEntities value
      tagAttributes rounds (trimStart next) (attributes ++ [(key, value)])

def parseTag (inner : Text) : Except ManifestError (Text × List (Text × Text)) := do
  let name := trim (inner.takeWhile (!isWhitespace ·))
  if name = [] then
    throw .malformed
  let rest := trimStart (inner.dropWhile (!isWhitespace ·))
  let attributes ← tagAttributes rest.length rest []
  pure (localName name, attributes)

/-! ## Documents -/

/-- The open elements, innermost first, the finished root, and the element count. -/
structure Reader where
  stack : List Node
  root : Option Node
  nodeCount : Nat

def Reader.attach (reader : Reader) (node : Node) : Except ManifestError Reader :=
  match reader.stack with
  | parent :: outer => .ok { reader with stack := parent.withChild node :: outer }
  | [] =>
      if reader.root.isSome then .error .malformed
      else .ok { reader with root := some node }

def Reader.pushText (reader : Reader) (text : Text) : Except ManifestError Reader :=
  if trim text = [] then .ok reader
  else match reader.stack with
    | target :: outer => do
        let decoded ← decodeEntities text
        pure { reader with stack := target.withText decoded :: outer }
    | [] => .error .malformed

def Reader.finish (reader : Reader) : Except ManifestError Node :=
  if reader.stack ≠ [] then .error .malformed else required .malformed reader.root

/-- A closing tag; `name` is what stands between `</` and `>`. -/
def Reader.close (reader : Reader) (name : Text) : Except ManifestError Reader :=
  let name := localName (trim name)
  if name = [] then .error .malformed
  else match reader.stack with
    | [] => .error .malformed
    | node :: outer =>
        if node.name ≠ name then .error .malformed
        else Reader.attach { reader with stack := outer } node

/-- An opening tag; `inner` is what stands between `<` and `>`. -/
def Reader.openTag (reader : Reader) (inner : Text) : Except ManifestError Reader := do
  let inner := trimEnd inner
  let closed := stripSuffix ['/'] inner
  let (name, attributes) ← parseTag (trimEnd (closed.getD inner))
  let nodeCount := reader.nodeCount + 1
  if maxNodes < nodeCount then
    throw .malformed
  let node := Node.mk name attributes [] []
  let reader := { reader with nodeCount := nodeCount }
  if closed.isSome then
    reader.attach node
  else if maxDepth ≤ reader.stack.length then
    throw .malformed
  else
    pure { reader with stack := node :: reader.stack }

/-- One piece of markup after its `<`: the reader after it and the rest. -/
def readMarkup (reader : Reader) (after : Text) : Except ManifestError (Reader × Text) :=
  match stripPrefix "/".toList after with
  | some after => do
      let (name, rest) ← required .malformed (splitOnce '>' after)
      let reader ← reader.close name
      pure (reader, rest)
  | none =>
    match stripPrefix "!--".toList after with
    | some after => do
        let (_, rest) ← required .malformed (splitAtPattern "-->".toList after)
        pure (reader, rest)
    | none =>
      match stripPrefix "![CDATA[".toList after with
      | some after => do
          let (text, rest) ← required .malformed (splitAtPattern "]]>".toList after)
          let reader ← reader.pushText text
          pure (reader, rest)
      | none =>
        match stripPrefix "?".toList after with
        | some after => do
            let (_, rest) ← required .malformed (splitAtPattern "?>".toList after)
            pure (reader, rest)
        | none =>
          if (stripPrefix "!".toList after).isSome then do
            let (_, rest) ← required .malformed (splitOnce '>' after)
            pure (reader, rest)
          else do
            let (inner, rest) ← required .malformed (findTagEnd none after)
            let reader ← reader.openTag inner
            pure (reader, rest)

def readDocument : Nat → Reader → Text → Except ManifestError Node
  | _, reader, [] => reader.finish
  | 0, _, _ => .error .malformed
  | rounds + 1, reader, rest =>
      match splitOnce '<' rest with
      | none => do
          let reader ← reader.pushText rest
          reader.finish
      | some (text, after) => do
          let reader ← reader.pushText text
          let (reader, rest) ← readMarkup reader after
          readDocument rounds reader rest

def parseDocument (input : Text) : Except ManifestError Node :=
  let input := (stripPrefix [Char.ofNat 0xFEFF] input).getD input
  readDocument input.length ⟨[], none, 0⟩ input

end Gunda.Stream.Xml

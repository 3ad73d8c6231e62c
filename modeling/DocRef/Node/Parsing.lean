import DocRef.Node
import DocRef.Token.Lexing

/-!
Reading reference trees. The grammar, over tokens:

    reference := member ('(' (type (',' type)*)? ')' ('~' type)?)?
    member    := name ('.' name)*
    type      := (parameter | chain) array* ('@' | '*')?
    chain     := segment ('.' segment)*
    segment   := name ('{' type (',' type)* '}')?

One token of look-ahead decides every step, so a reader is a state that each token moves on: what
has been read so far, and the groups that are still open. A text is refused at the first token that
no state can take.
-/

namespace DocRef

/-- What a type that is being read belongs to. -/
inductive Frame
  /-- An argument of a generic type; `opened` is the position of the brace. -/
  | argument (generic : Node) (opened : Nat) (before : List Node)
  /-- A parameter of a member; `opened` is the position of the parenthesis. -/
  | parameter (member : Node) (opened : Nat) (before : List Node)
  /-- The return type of a member. -/
  | returns (member : Node) (parameters : List Node)
deriving Repr, DecidableEq

/-- How far the type read last may still be continued. -/
inductive Extent
  /-- A segment without arguments: arguments, a further segment and suffixes may follow. -/
  | name
  /-- A segment closed over its arguments: a further segment and suffixes may follow. -/
  | segment
  /-- A parameter or an array: suffixes may follow. -/
  | element
  /-- A by-ref type or a pointer: nothing may follow. -/
  | complete
deriving Repr, DecidableEq

/-- Where a reader stands. The frames are those of the groups around a type, the innermost
first. -/
inductive Reading
  /-- Before a segment of the member's name. -/
  | beforeSegment (scope : Option Node)
  /-- After a segment of the member's name. -/
  | afterSegment (chain : Node)
  /-- After the parenthesis that opens the parameter list. -/
  | afterParen (member : Node) (opened : Nat)
  /-- After the parameter list. -/
  | afterParameters (member : Node) (parameters : List Node)
  /-- Before a type. -/
  | beforeType (frames : List Frame)
  /-- After a dot within a type. -/
  | afterDot (frames : List Frame) (scope : Node)
  /-- After a type, or a part of one that is a type by itself. -/
  | afterType (frames : List Frame) (node : Node) (extent : Extent)
deriving Repr, DecidableEq

namespace Reading

/-- Takes the first token of a type. -/
def begin (frames : List Frame) : Token → Option Reading
  | .name text => some (.afterType frames (.root text) .name)
  | .typeParam position => some (.afterType frames (.typeParam position) .element)
  | .methodParam position => some (.afterType frames (.methodParam position) .element)
  | _ => none

/-- Takes a token that ends a type, because it belongs to the group around it. -/
def leave : List Frame → Node → Token → Option Reading
  | .argument generic opened before :: frames, node, .comma =>
    some (.beforeType (.argument generic opened (before ++ [node]) :: frames))
  | .argument generic _ before :: frames, node, .closeBrace =>
    some (.afterType frames (.closed generic (before ++ [node])) .segment)
  | .parameter member opened before :: frames, node, .comma =>
    some (.beforeType (.parameter member opened (before ++ [node]) :: frames))
  | [.parameter member _ before], node, .closeParen =>
    some (.afterParameters member (before ++ [node]))
  | _, _, _ => none

/-- Takes a token after a type: it continues the type as far as the extent allows, or ends it. -/
def resume (frames : List Frame) (node : Node) : Extent → PlacedToken → Option Reading
  | .name, ⟨.openBrace, position⟩ => some (.beforeType (.argument node position [] :: frames))
  | .name, ⟨.dot, _⟩ | .segment, ⟨.dot, _⟩ => some (.afterDot frames node)
  | .complete, ⟨token, _⟩ => leave frames node token
  | _, ⟨.arraySuffix rank, _⟩ => some (.afterType frames (.array node rank) .element)
  | _, ⟨.byRefMark, _⟩ => some (.afterType frames (.byRef node) .complete)
  | _, ⟨.pointerMark, _⟩ => some (.afterType frames (.pointer node) .complete)
  | _, ⟨token, _⟩ => leave frames node token

/-- Takes one token; `none` if the grammar has no place for it. -/
def step : Reading → PlacedToken → Option Reading
  | .beforeSegment scope, ⟨.name text, _⟩ => some (.afterSegment (.segment scope text))
  | .afterSegment chain, ⟨.dot, _⟩ => some (.beforeSegment (some chain))
  | .afterSegment chain, ⟨.openParen, position⟩ => some (.afterParen chain position)
  | .afterParen member _, ⟨.closeParen, _⟩ => some (.afterParameters member [])
  | .afterParen member opened, ⟨token, _⟩ => begin [.parameter member opened []] token
  | .afterParameters member parameters, ⟨.tilde, _⟩ =>
    some (.beforeType [.returns member parameters])
  | .beforeType frames, ⟨token, _⟩ => begin frames token
  | .afterDot frames scope, ⟨.name text, _⟩ => some (.afterType frames (.child scope text) .name)
  | .afterType frames node extent, placed => resume frames node extent placed
  | _, _ => none

/-- The tree that has been read, if the text may end here. -/
def result? : Reading → Option Node
  | .afterSegment chain => some chain
  | .afterParameters member parameters => some (.method member parameters none)
  | .afterType [] node _ => some node
  | .afterType [.returns member parameters] node _ => some (.method member parameters (some node))
  | _ => none

/-- The opener and the position of a frame's group. -/
def opener? : List Frame → Option (Char × Nat)
  | .argument _ opened _ :: _ => some ('\x7b', opened)
  | .parameter _ opened _ :: _ => some ('(', opened)
  | _ => none

/-- The opener and the position of the innermost open group. -/
def openGroup? : Reading → Option (Char × Nat)
  | .afterParen _ opened => some ('(', opened)
  | .beforeType frames | .afterDot frames _ | .afterType frames _ _ => opener? frames
  | _ => none

/-- What may stand here; `none` where the text may end. -/
def expected? : Reading → Option String
  | .beforeSegment _ | .afterDot _ _ => some "a name"
  | .afterParen _ _ | .beforeType _ => some "a type"
  | .afterType (.argument ..  :: _) _ _ => some "`,` or `\x7d`"
  | .afterType (.parameter .. :: _) _ _ => some "`,` or `)`"
  | _ => none

/-- Why a token cannot stand here. A text that ends inside a group is faulted at the opener. -/
def refuse (reading : Reading) (placed : PlacedToken) : Malformed :=
  match placed.token, reading.openGroup?, reading.expected? with
  | .endOfInput, some (opener, position), _ => ⟨position, .unterminatedGroup opener⟩
  | token, _, some expected => ⟨placed.position, .unexpectedToken expected token.description⟩
  | token, _, none => ⟨placed.position, .trailingInput token.description⟩

/-- Reads the tokens to their end. A token list that stops without `endOfInput` ends at byte 0. -/
def run (reading : Reading) : List PlacedToken → Except Malformed Node
  | [] => (reading.result?).elim (.error (reading.refuse ⟨.endOfInput, 0⟩)) .ok
  | ⟨.endOfInput, position⟩ :: _ =>
    (reading.result?).elim (.error (reading.refuse ⟨.endOfInput, position⟩)) .ok
  | placed :: rest =>
    match reading.step placed with
    | some next => next.run rest
    | none => .error (reading.refuse placed)

end Reading

/-- The kind that a text begins with, the byte position of what stands after it, and that rest. A
character and a colon, after white space, must name a kind. -/
def splitKind (text : Text) : Except Malformed (Option SymbolKind × Nat × Text) :=
  let start := Text.byteLength (text.takeWhile isBlank)
  match text.dropWhile isBlank with
  | letter :: ':' :: body =>
    match SymbolKind.ofLetter? letter with
    | some kind => .ok (some kind, start + letter.utf8Size + 1, body)
    | none => .error ⟨start, .unexpectedCharacter letter⟩
  | body => .ok (none, start, body)

def Reference.parse (text : Text) : Except Malformed Reference := do
  let (kind, start, body) ← splitKind text
  let tokens ← tokensFrom start body
  let node ← (Reading.beforeSegment none).run tokens
  return ⟨kind, node⟩

def Node.parseType (text : Text) : Except Malformed Node := do
  let tokens ← tokenize text
  (Reading.beforeType []).run tokens

end DocRef

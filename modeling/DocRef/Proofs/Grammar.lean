import DocRef.Node.Parsing

/-!
The grammar of references, with its derivations as data.

    reference := member ('(' (type (',' type)*)? ')' ('~' type)?)?
    member    := name ('.' name)*
    type      := (parameter | chain) array* ('@' | '*')?
    chain     := segment ('.' segment)*
    segment   := name ('{' type (',' type)* '}')?

A derivation holds what its rule leaves open: a list for a repetition and an option for a part that
may be missing. `tokens` is what it derives and `node` the tree that it builds. Derivations and the
trees of the shapes `Node.IsType` and `Node.IsReference` determine each other (`derive_node`,
`node_derive`), and tokens can be read off the tree (`node_tokens`), so all that is said of
derivations can be proved about trees.
-/

namespace DocRef

/-- The mark that may end a type. -/
inductive TypeMark
  | byRef
  | pointer
deriving Repr, DecidableEq

/-- The token of a mark. -/
def TypeMark.token : TypeMark → Token
  | .byRef => .byRefMark
  | .pointer => .pointerMark

/-- The type that a mark makes of a type. -/
def TypeMark.wrap : TypeMark → Node → Node
  | .byRef, node => .byRef node
  | .pointer, node => .pointer node

mutual

/-- `type := (parameter | chain) array* ('@' | '*')?` -/
inductive TypeDerivation
  | mk (head : HeadDerivation) (ranks : List Nat) (mark : Option TypeMark)

/-- `parameter | chain`, where `chain := segment ('.' segment)*` -/
inductive HeadDerivation
  | typeParam (position : Nat)
  | methodParam (position : Nat)
  | chain (first : SegmentDerivation) (rest : List SegmentDerivation)

/-- `segment := name ('{' type (',' type)* '}')?` -/
inductive SegmentDerivation
  | plain (name : Text)
  | closed (name : Text) (first : TypeDerivation) (rest : List TypeDerivation)

end

/-- `member := name ('.' name)*` -/
structure MemberDerivation where
  first : Text
  rest : List Text

/-- `'(' (type (',' type)*)? ')' ('~' type)?` -/
structure CallDerivation where
  parameters : Option (TypeDerivation × List TypeDerivation)
  returns : Option TypeDerivation

/-- `reference := member ('(' (type (',' type)*)? ')' ('~' type)?)?` -/
structure ReferenceDerivation where
  member : MemberDerivation
  call : Option CallDerivation

/-! ### The tokens of a derivation -/

mutual

/-- The tokens that a type derives. -/
def TypeDerivation.tokens : TypeDerivation → List Token
  | .mk head ranks mark =>
    head.tokens ++ ranks.map .arraySuffix ++ (mark.map TypeMark.token).toList

/-- The tokens that a parameter or a chain derives. -/
def HeadDerivation.tokens : HeadDerivation → List Token
  | .typeParam position => [.typeParam position]
  | .methodParam position => [.methodParam position]
  | .chain first rest => first.tokens ++ SegmentDerivation.tokensAfter rest

/-- The tokens that a segment derives. -/
def SegmentDerivation.tokens : SegmentDerivation → List Token
  | .plain name => [.name name]
  | .closed name first rest =>
    .name name :: .openBrace :: first.tokens ++ TypeDerivation.tokensAfter rest ++ [.closeBrace]

/-- The tokens of `('.' segment)*`. -/
def SegmentDerivation.tokensAfter : List SegmentDerivation → List Token
  | [] => []
  | segment :: segments => .dot :: segment.tokens ++ SegmentDerivation.tokensAfter segments

/-- The tokens of `(',' type)*`. -/
def TypeDerivation.tokensAfter : List TypeDerivation → List Token
  | [] => []
  | type :: types => .comma :: type.tokens ++ TypeDerivation.tokensAfter types

end

/-- The tokens that a member's name derives. -/
def MemberDerivation.tokens (member : MemberDerivation) : List Token :=
  .name member.first :: member.rest.flatMap fun name => [.dot, .name name]

/-- The tokens of a parameter list without its parentheses. -/
def CallDerivation.parameterTokens : Option (TypeDerivation × List TypeDerivation) → List Token
  | none => []
  | some (first, rest) => first.tokens ++ TypeDerivation.tokensAfter rest

/-- The tokens that a parameter list and a return type derive. -/
def CallDerivation.tokens (call : CallDerivation) : List Token :=
  .openParen :: parameterTokens call.parameters ++ .closeParen ::
    (call.returns.map fun type => .tilde :: type.tokens).getD []

/-- The tokens that a reference derives. -/
def ReferenceDerivation.tokens (reference : ReferenceDerivation) : List Token :=
  reference.member.tokens ++ (reference.call.map CallDerivation.tokens).getD []

/-! ### The tree of a derivation

Chains nest to the left, an instantiation wraps the whole chain before it, and array suffixes apply
from left to right before the mark. -/

mutual

/-- The tree of a type. -/
def TypeDerivation.node : TypeDerivation → Node
  | .mk head ranks mark =>
    let element := ranks.foldl .array head.node
    (mark.map (·.wrap element)).getD element

/-- The tree of a parameter or a chain. -/
def HeadDerivation.node : HeadDerivation → Node
  | .typeParam position => .typeParam position
  | .methodParam position => .methodParam position
  | .chain first rest => SegmentDerivation.chainNode (first.node none) rest

/-- The tree of a segment after the scope it stands in. -/
def SegmentDerivation.node (scope : Option Node) : SegmentDerivation → Node
  | .plain name => .segment scope name
  | .closed name first rest =>
    .closed (.segment scope name) (first.node :: TypeDerivation.nodes rest)

/-- The tree of a chain, of which `scope` has been built. -/
def SegmentDerivation.chainNode (scope : Node) : List SegmentDerivation → Node
  | [] => scope
  | segment :: segments => SegmentDerivation.chainNode (segment.node (some scope)) segments

/-- The trees of several types. -/
def TypeDerivation.nodes : List TypeDerivation → List Node
  | [] => []
  | type :: types => type.node :: TypeDerivation.nodes types

end

/-- The tree of a member's name. -/
def MemberDerivation.node (member : MemberDerivation) : Node :=
  member.rest.foldl .child (.root member.first)

/-- The trees of a parameter list. -/
def CallDerivation.parameterNodes : Option (TypeDerivation × List TypeDerivation) → List Node
  | none => []
  | some (first, rest) => first.node :: TypeDerivation.nodes rest

/-- The tree of a reference. -/
def ReferenceDerivation.node (reference : ReferenceDerivation) : Node :=
  match reference.call with
  | none => reference.member.node
  | some call => .method reference.member.node (CallDerivation.parameterNodes call.parameters)
      (call.returns.map TypeDerivation.node)

end DocRef

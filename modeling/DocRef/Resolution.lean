import DocRef.Catalog
import DocRef.Node

/-!
What a reference tree means in a catalog. Nothing here fails: a tree that names nothing, or more
than one member, is unresolved. Generic parameters are bound by two lists of types, one for the
enclosing type and one for the enclosing method.
-/

namespace DocRef

/-- What the parameters of the enclosing type and of the enclosing method stand for. -/
structure Bindings where
  typeArgs : List TypeExpr
  methodArgs : List TypeExpr
deriving Repr, DecidableEq

def Bindings.none : Bindings := ⟨[], []⟩

namespace Catalog

/-- The arity of a segment that stands before `given` arguments; its own marker must agree. -/
def segmentArity? (marker : Arity) (given : Nat) : Option Nat :=
  match marker with
  | .none => some given
  | .type count => if given = 0 ∨ count = given then some count else none
  | .method _ => none

/-- The name of an instantiated scope: it carries the marker of the number of its arguments. -/
def closedName? (name : Text) (given : Nat) : Option Text :=
  match (splitArity name).2 with
  | .none => some (name ++ tick :: Text.decimal given)
  | .type count => if count = given then some name else none
  | .method _ => none

/-- Closes a type over arguments. Without arguments it stays as it is; otherwise there must be one
for each of its parameters. -/
def close? (catalog : Catalog) (definition : TypeId) (arguments : List TypeExpr) :
    Option TypeExpr :=
  if arguments = [] then some (.named definition)
  else if catalog.genericArity definition = arguments.length then
    some (.generic definition arguments)
  else none

/-- The type that a last segment names, after the name of its scope and before `given`
arguments. -/
def typeInScope? (catalog : Catalog) (scope : Option Text) (text : Text) (given : Nat) :
    Option TypeId :=
  let (stem, marker) := splitArity text
  match segmentArity? marker given, scope with
  | some arity, some outer => catalog.lookup? (outer ++ '.' :: stem) arity
  | some arity, none => catalog.lookup? stem arity
  | none, _ => none

mutual

def resolveType (catalog : Catalog) (bindings : Bindings) : Node → Option TypeExpr
  | .root text => do
    let definition ← catalog.typeInScope? none text 0
    catalog.close? definition []
  | .child scope text => do
    let (outer, bound) ← catalog.resolveScope bindings scope
    let definition ← catalog.typeInScope? (some outer) text 0
    catalog.close? definition bound
  | .closed (.root text) arguments => do
    let own ← catalog.resolveAll bindings arguments
    let definition ← catalog.typeInScope? none text arguments.length
    catalog.close? definition own
  | .closed (.child scope text) arguments => do
    let own ← catalog.resolveAll bindings arguments
    let (outer, bound) ← catalog.resolveScope bindings scope
    let definition ← catalog.typeInScope? (some outer) text arguments.length
    catalog.close? definition (bound ++ own)
  | .closed _ _ => none
  | .array element rank => (catalog.resolveType bindings element).map (.array · rank)
  | .byRef target => (catalog.resolveType bindings target).map .byRef
  | .pointer target => (catalog.resolveType bindings target).map .pointer
  | .typeParam position => bindings.typeArgs[position]?
  | .methodParam position => bindings.methodArgs[position]?
  | .method .. => none

/-- The name that a scope spells, and the arguments bound in it, outer ones first. -/
def resolveScope (catalog : Catalog) (bindings : Bindings) : Node → Option (Text × List TypeExpr)
  | .root text => some (text, [])
  | .child scope text => do
    let (outer, bound) ← catalog.resolveScope bindings scope
    return (outer ++ '.' :: text, bound)
  | .closed generic arguments => do
    let (name, bound) ← catalog.resolveScope bindings generic
    let own ← catalog.resolveAll bindings arguments
    let name ← closedName? name arguments.length
    return (name, bound ++ own)
  | _ => none

def resolveAll (catalog : Catalog) (bindings : Bindings) : List Node → Option (List TypeExpr)
  | [] => some []
  | node :: nodes => do
    let type ← catalog.resolveType bindings node
    let types ← catalog.resolveAll bindings nodes
    return type :: types

end

def only? : List MemberId → Option MemberId
  | [member] => some member
  | _ => none

/-- The members of a type that a segment can mean: those with its name, of the kind that is asked
for, and with as many parameters of their own as its marker states. `#` in the segment stands for a
dot in the name. A segment with the marker of a type means no member. -/
def candidates (catalog : Catalog) (declaring : TypeId) (text : Text) (kind : Option SymbolKind) :
    List MemberId :=
  let (stem, marker) := splitArity text
  let named := catalog.membersNamed declaring (stem.exchange '#' '.')
  let fits (arity : Option Nat) := named.filter fun id =>
    (catalog.memberDef? id).any fun member =>
      (kind.all (member.kind.symbolKind = ·)) && arity.all (member.genericParams.length = ·)
  match marker with
  | .none => fits none
  | .method count => fits (some count)
  | .type _ => []

/-- The member that a segment means without a parameter list: the only one it can mean. -/
def resolveMember (catalog : Catalog) (bindings : Bindings) (scope : Node) (text : Text)
    (kind : Option SymbolKind) : Option MemberId := do
  let declaring ← catalog.resolveType bindings scope
  let definition ← declaring.definition?
  only? (catalog.candidates definition text kind)

/-- Whether a member has exactly the given parameters, and the given return type if one is asked
for. `typeArgs` is what the parameters of the declaring type stand for. Return types are compared as
far as there are any: one that means nothing agrees with a member that declares none. -/
def signatureFits (catalog : Catalog) (id : MemberId) (typeArgs : List TypeExpr)
    (parameters : List Node) (returns : Option Node) : Bool :=
  let bindings : Bindings := ⟨typeArgs, catalog.methodParams id⟩
  catalog.resolveAll bindings parameters = some (catalog.parametersOf id) &&
    match returns with
    | none => true
    | some node => catalog.resolveType bindings node = (catalog.memberDef? id).bind (·.returns)

/-- The member that a segment with a parameter list means: the only overload with exactly these
parameters. A generic method needs its marker here. The parameters of the declaring type may be
used only where it is written open. -/
def resolveMethod (catalog : Catalog) (bindings : Bindings) (member : Node)
    (parameters : List Node) (returns : Option Node) (kind : Option SymbolKind) :
    Option MemberId :=
  match member with
  | .child scope text => do
    let declaring ← catalog.resolveType bindings scope
    let definition ← declaring.definition?
    let typeArgs := match declaring with
      | .named id => catalog.typeParams id
      | _ => []
    let arity := match (splitArity text).2 with
      | .method count => count
      | _ => 0
    only? ((catalog.candidates definition text kind).filter fun id =>
      catalog.methodArity id = arity && catalog.signatureFits id typeArgs parameters returns)
  | _ => none

def memberSymbol : Option MemberId → Symbol
  | some id => .member id
  | none => .unresolved

def typeSymbol : Option TypeExpr → Symbol
  | some type => .type type
  | none => .unresolved

/-- The symbol that a tree means within an enclosing declaration. A dotted name is a type if there
is one of that name, and otherwise a member. -/
def resolve (catalog : Catalog) (bindings : Bindings) (node : Node) : Symbol :=
  match node with
  | .method member parameters returns =>
    memberSymbol (catalog.resolveMethod bindings member parameters returns none)
  | node =>
    match catalog.resolveType bindings node, node with
    | some type, _ => .type type
    | none, .child scope text => memberSymbol (catalog.resolveMember bindings scope text none)
    | none, _ => .unresolved

/-- The symbol that a reference means. The letter of a type admits only types, any other letter
only members of its kind. -/
def resolveReference (catalog : Catalog) (reference : Reference) : Symbol :=
  match reference.kind, reference.node with
  | none, node => catalog.resolve .none node
  | some .type, node => typeSymbol (catalog.resolveType .none node)
  | some kind, .method member parameters returns =>
    memberSymbol (catalog.resolveMethod .none member parameters returns (some kind))
  | some kind, .child scope text =>
    memberSymbol (catalog.resolveMember .none scope text (some kind))
  | some _, _ => .unresolved

end Catalog

end DocRef

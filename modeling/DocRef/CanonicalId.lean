import DocRef.Catalog
import DocRef.Substitution

/-!
Canonical IDs, such as `M:Demo.Box{T}.Map(System.Int32)` with ticks for the parameters: the kind's
letter, the declaring type, the member's name with `#` for dots, its arity and its parameter types.
The same text without the declaring type is a member's signature, by which members of a type and of
its ancestors are compared.
-/

namespace DocRef

/-- What keeps an entry from having an ID. -/
inductive Inconsistency
  | unknownMember
  | unknownType (id : TypeId)
  /-- A generic type stands closed over fewer arguments than its name's markers ask for. -/
  | tooFewArguments (name : Text) (given : Nat)
  | tooManyArguments (name : Text) (given : Nat)
  /-- A generic parameter of a declaration that is not in view. -/
  | strayParam (position : Nat)
deriving Repr, DecidableEq

def Inconsistency.message : Inconsistency → String
  | .unknownMember => "no such member"
  | .unknownType id => s!"no such type #{id.index}"
  | .tooFewArguments name given => s!"`{name.str}` is closed over only {given} arguments"
  | .tooManyArguments name given => s!"`{name.str}` is closed over {given} arguments, too many"
  | .strayParam position =>
    s!"generic parameter {position} belongs to neither the member nor its type"

/-- An inconsistency, and the entry that has no ID because of it. -/
structure Inconsistent where
  subject : Text
  cause : Inconsistency
deriving Repr, DecidableEq

/-- The text of a generic parameter by its place in its owner's list. -/
def GenericParam.positional (param : GenericParam) : Text :=
  match param.owner with
  | .type _ => tick :: Text.decimal param.position
  | .method _ => tick :: tick :: Text.decimal param.position

/-- The names of the members whose IDs end in their return type. -/
def conversionOperators : List Text :=
  ["op_Explicit".toList, "op_Implicit".toList]

namespace Catalog

def typeName (catalog : Catalog) (id : TypeId) : Except Inconsistency Text :=
  match catalog.typeDef? id with
  | some type => .ok type.name
  | none => .error (.unknownType id)

/-- All the texts, or the first cause for which one is missing. -/
def allTexts : List (Except Inconsistency Text) → Except Inconsistency (List Text)
  | [] => .ok []
  | text :: texts => do
    let text ← text
    let texts ← allTexts texts
    return text :: texts

/-- Spreads arguments over the segments of a generic type's name: in the place of each marker stand
as many arguments as it states. -/
def closeSegments (name : Text) (given : Nat) :
    List Text → List (Except Inconsistency Text) → Except Inconsistency (List Text)
  | [], [] => .ok []
  | [], _ :: _ => .error (.tooManyArguments name given)
  | segment :: segments, arguments =>
    match splitArity segment with
    | (stem, .type count) => do
      let own ← allTexts (arguments.take count)
      if own.length = count then
        let rest ← closeSegments name given segments (arguments.drop count)
        return (stem ++ '\x7b' :: Text.join ',' own ++ ['\x7d']) :: rest
      else
        throw (.tooFewArguments name given)
    | _ => do
      let rest ← closeSegments name given segments arguments
      return segment :: rest

mutual

/-- The text of a type, given the texts of generic parameters. The rank of an array is not
written. -/
def typeText (catalog : Catalog) (paramText : GenericParam → Except Inconsistency Text) :
    TypeExpr → Except Inconsistency Text
  | .named id => catalog.typeName id
  | .generic definition arguments => do
    let name ← catalog.typeName definition
    let segments ← closeSegments name arguments.length (name.split '.')
      (catalog.typeTexts paramText arguments)
    return Text.join '.' segments
  | .array element _ => return (← catalog.typeText paramText element) ++ ['[', ']']
  | .byRef target => return (← catalog.typeText paramText target) ++ ['@']
  | .pointer target => return (← catalog.typeText paramText target) ++ ['*']
  | .param param => paramText param

def typeTexts (catalog : Catalog) (paramText : GenericParam → Except Inconsistency Text) :
    List TypeExpr → List (Except Inconsistency Text)
  | [] => []
  | type :: types => catalog.typeText paramText type :: catalog.typeTexts paramText types

end

/-- The text of a parameter that must belong to one of the given declarations. -/
def ownParam (owners : List ParamOwner) (param : GenericParam) : Except Inconsistency Text :=
  if param.owner ∈ owners then .ok param.positional else .error (.strayParam param.position)

/-- The text of a parameter through a substitution: that of the type it stands for, in which bound
parameters are replaced in turn, and by its place if it is not bound. Without a circle among the
bindings, replacing goes no deeper than there are bindings, which is what `depth` begins with. -/
def substitutedParam (catalog : Catalog) (owners : List ParamOwner) (σ : Substitution) :
    Nat → GenericParam → Except Inconsistency Text
  | 0, param => ownParam owners param
  | depth + 1, param =>
    match σ.find? param with
    | some type => catalog.typeText (catalog.substitutedParam owners σ depth) type
    | none => ownParam owners param

/-- The end of a conversion's ID: its return type. Other members have no such end. -/
def returnsText (catalog : Catalog) (member : MemberDef)
    (paramText : GenericParam → Except Inconsistency Text) : Except Inconsistency Text :=
  match member.returns with
  | some type =>
    if member.name ∈ conversionOperators then
      (catalog.typeText paramText type).map ('~' :: ·)
    else .ok []
  | none => .ok []

/-- The name, the arity, the parameters and, for a conversion, the return type of a member. -/
def memberText (catalog : Catalog) (id : MemberId) (member : MemberDef)
    (paramText : GenericParam → Except Inconsistency Text) : Except Inconsistency Text := do
  let arity := if catalog.isGenericMethod id
    then tick :: tick :: Text.decimal member.genericParams.length else []
  let parameters ← allTexts (catalog.typeTexts paramText member.parameters)
  let list := if member.parameters = [] then [] else '(' :: Text.join ',' parameters ++ [')']
  let returns ← catalog.returnsText member paramText
  return member.name.exchange '.' '#' ++ arity ++ list ++ returns

def knownMember (catalog : Catalog) (id : MemberId) : Except Inconsistent MemberDef :=
  match catalog.memberDef? id with
  | some member => .ok member
  | none => .error ⟨'#' :: Text.decimal id.index, .unknownMember⟩

def encodeMember (catalog : Catalog) (id : MemberId) : Except Inconsistent Text := do
  let member ← catalog.knownMember id
  let paramText := ownParam [.type member.declaringType, .method id]
  let text := do
    let declaring ← catalog.typeName member.declaringType
    let text ← catalog.memberText id member paramText
    return declaring ++ '.' :: text
  match text with
  | .ok text => return member.kind.symbolKind.letter :: ':' :: text
  | .error cause => throw ⟨member.name, cause⟩

/-- The signature of a member as seen from the target of a substitution. -/
def encodeSignature (catalog : Catalog) (id : MemberId) (σ : Substitution) :
    Except Inconsistent Text := do
  let member ← catalog.knownMember id
  let paramText := catalog.substitutedParam [.type σ.target, .method id] σ σ.bindings.length
  match catalog.memberText id member paramText with
  | .ok text => return member.kind.symbolKind.letter :: ':' :: text
  | .error cause => throw ⟨member.name, cause⟩

/-- The ID of a type. A generic type keeps its markers. -/
def encodeType (catalog : Catalog) (id : TypeId) : Except Inconsistent Text :=
  match catalog.typeName id with
  | .ok name => .ok (SymbolKind.type.letter :: ':' :: name)
  | .error cause => .error ⟨"type".toList, cause⟩

/-- The ID of what a reference means, if it means anything. A constructed type has the ID that
spells its construction. -/
def encodeSymbol (catalog : Catalog) : Symbol → Except Inconsistent (Option Text)
  | .member id => return some (← catalog.encodeMember id)
  | .type type =>
    match catalog.typeText (ownParam []) type with
    | .ok text => .ok (some (SymbolKind.type.letter :: ':' :: text))
    | .error cause => .error ⟨"type reference".toList, cause⟩
  | .unresolved => .ok none

/-- The IDs of all types and members, in the order of their UTF-8 bytes. -/
def sortedIds (catalog : Catalog) : Except Inconsistent (List Text) := do
  let types ← catalog.typeIds.mapM catalog.encodeType
  let members ← catalog.memberIds.mapM catalog.encodeMember
  return (types ++ members).mergeSort Text.byteOrdered

end Catalog

end DocRef

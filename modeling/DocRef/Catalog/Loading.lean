import DocRef.Catalog.Listing
import DocRef.Failure
import DocRef.Node.Parsing
import DocRef.Resolution

/-!
Building a catalog from a listing. First all names are registered, and then the signatures are read
against them, so that a signature may use any type of the listing. Ids are given in the order of the
listing.
-/

namespace DocRef

inductive SignaturePlace
  | baseOf (type : Text)
  | memberOf (type member : Text)
deriving Repr, DecidableEq

def SignaturePlace.description : SignaturePlace → String
  | .baseOf type => s!"base of `{type.str}`"
  | .memberOf type member => s!"`{type.str}.{member.str}`"

/-- Why a listing is no catalog. -/
inductive ListingFault
  | duplicateType (name : Text)
  /-- The markers in a type's name do not add up to its parameters. -/
  | arityMismatch (name : Text) (declared listed : Nat)
  | malformedSignature (place : SignaturePlace) (text : Text) (malformed : Malformed)
  | unresolvedSignature (place : SignaturePlace) (text : Text)
  /-- A base is a generic type without arguments. -/
  | openBase (place : SignaturePlace) (text : Text) (arity : Nat)
deriving Repr, DecidableEq

def ListingFault.failure : ListingFault → Failure
  | .duplicateType name => .duplicateType name.str
  | .arityMismatch name declared listed => .catalogCorrupt
      s!"type `{name.str}` declares {declared} generic parameters in its name but lists {listed}"
  | .malformedSignature place text malformed => .catalogCorrupt
      s!"{place.description}: {(Failure.malformedReference text malformed).message}"
  | .unresolvedSignature place text => .catalogCorrupt
      s!"{place.description}: cannot resolve `{text.str}`"
  | .openBase place text arity => .catalogCorrupt
      (s!"{place.description}: `{text.str}` leaves {arity} generic parameters unbound; " ++
        "close it with `\x7b...\x7d`")

/-- The number of parameters that the markers in a full type name declare together. Sums above
`maxArity` count as `maxArity`. -/
def declaredArity (name : Text) : Nat :=
  (name.split '.').foldl (fun sum segment =>
    match (splitArity segment).2 with
    | .type count => min (sum + count) maxArity
    | _ => sum) 0

namespace Catalog

/-- Registers a type by its name, still without base and members. -/
def register (catalog : Catalog) (type : ListedType) : Except ListingFault Catalog :=
  let name := type.fullName
  let declared := declaredArity name
  let listed := type.genericParams.length
  if (catalog.typeNamed? name).isSome then .error (.duplicateType name)
  else if declared ≠ listed then .error (.arityMismatch name declared listed)
  else .ok { catalog with types := catalog.types ++ [⟨name, type.genericParams, none, []⟩] }

def registerAll (listing : Listing) : Except ListingFault Catalog :=
  listing.foldlM register ⟨[], []⟩

def readSignature (catalog : Catalog) (bindings : Bindings) (place : SignaturePlace)
    (text : Text) : Except ListingFault TypeExpr :=
  match Node.parseType text with
  | .error malformed => .error (.malformedSignature place text malformed)
  | .ok node =>
    match catalog.resolveType bindings node with
    | some type => .ok type
    | none => .error (.unresolvedSignature place text)

def readSignatures (catalog : Catalog) (bindings : Bindings) (place : SignaturePlace) :
    List Text → Except ListingFault (List TypeExpr)
  | [] => .ok []
  | text :: texts => do
    let type ← catalog.readSignature bindings place text
    let types ← catalog.readSignatures bindings place texts
    return type :: types

/-- A signature that may be absent. -/
def readOptional (catalog : Catalog) (bindings : Bindings) (place : SignaturePlace) :
    Option Text → Except ListingFault (Option TypeExpr)
  | none => .ok none
  | some text => return some (← catalog.readSignature bindings place text)

/-- The base of a listed type, in terms of the type's parameters. A base that is named without
arguments must have no parameters. -/
def readBase (catalog : Catalog) (id : TypeId) (type : ListedType) :
    Except ListingFault (Option TypeExpr) :=
  match type.base with
  | none => .ok none
  | some text => do
    let place := .baseOf type.name
    let base ← catalog.readSignature ⟨catalog.typeParams id, []⟩ place text
    match base with
    | .named definition =>
      let arity := catalog.genericArity definition
      if arity = 0 then return some base else throw (.openBase place text arity)
    | _ => return some base

/-- A listed member of a type, once it has its id. -/
def readMember (catalog : Catalog) (declaring : TypeId) (type : ListedType) (id : MemberId)
    (member : ListedMember) : Except ListingFault MemberDef := do
  let place := .memberOf type.name member.name
  let bindings : Bindings := ⟨catalog.typeParams declaring,
    ParamOwner.params (.method id) member.genericParams.length⟩
  let parameters ← catalog.readSignatures bindings place member.parameters
  let returns ← catalog.readOptional bindings place member.returns
  return ⟨declaring, member.genericParams, member.kind, member.name, parameters, returns⟩

/-- The listed members of a type, numbered from `first`. -/
def readMembers (catalog : Catalog) (declaring : TypeId) (type : ListedType) (first : Nat) :
    List ListedMember → Except ListingFault (List MemberDef)
  | [] => .ok []
  | member :: members => do
    let head ← catalog.readMember declaring type ⟨first⟩ member
    let tail ← catalog.readMembers declaring type (first + 1) members
    return head :: tail

/-- Reads the signatures of listed types into the tables. `index` is the id of the first of them,
`first` the id of its first member. -/
def complete (catalog : Catalog) (index first : Nat) : Listing → Except ListingFault Catalog
  | [] => .ok ⟨[], []⟩
  | type :: listing => do
    let base ← catalog.readBase ⟨index⟩ type
    let members ← catalog.readMembers ⟨index⟩ type first type.members
    let rest ← catalog.complete (index + 1) (first + members.length) listing
    let ids := (List.range' first members.length).map MemberId.mk
    return ⟨⟨type.fullName, type.genericParams, base, ids⟩ :: rest.types, members ++ rest.members⟩

def ofListing (listing : Listing) : Except ListingFault Catalog := do
  let names ← registerAll listing
  names.complete 0 0 listing

end Catalog

end DocRef

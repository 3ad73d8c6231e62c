import DocRef.Arity
import DocRef.Kind
import DocRef.TypeExpr

/-!
The catalog: the types and members that references can name, in tables that ids point into.
-/

namespace DocRef

/-- A member. Its types are in terms of the parameters of its declaring type and of its own. -/
structure MemberDef where
  declaringType : TypeId
  genericParams : List Text
  kind : MemberKind
  /-- The name in metadata, such as `.ctor` or `System.IDisposable.Dispose`. -/
  name : Text
  parameters : List TypeExpr
  /-- What a method returns, or the type of a field, property or event. -/
  returns : Option TypeExpr
deriving Repr, DecidableEq

/-- A type. A generic type stands in the catalog open. -/
structure TypeDef where
  /-- The full name, with dots also between nested types. -/
  name : Text
  /-- All parameters, those of the outer types first. -/
  genericParams : List Text
  base : Option TypeExpr
  /-- The members that the type itself declares. -/
  members : List MemberId
deriving Repr, DecidableEq

/-- The types and the members, each by its id. -/
structure Catalog where
  types : List TypeDef
  members : List MemberDef
deriving Repr, DecidableEq

/-- The parameters of a generic declaration with `count` of them. -/
def ParamOwner.params (owner : ParamOwner) (count : Nat) : List TypeExpr :=
  (List.range count).map fun position => .param ⟨owner, position⟩

namespace Catalog

def typeDef? (catalog : Catalog) (id : TypeId) : Option TypeDef :=
  catalog.types[id.index]?

def memberDef? (catalog : Catalog) (id : MemberId) : Option MemberDef :=
  catalog.members[id.index]?

def typeIds (catalog : Catalog) : List TypeId :=
  (List.range catalog.types.length).map TypeId.mk

def memberIds (catalog : Catalog) : List MemberId :=
  (List.range catalog.members.length).map MemberId.mk

def typeNamed? (catalog : Catalog) (name : Text) : Option TypeId :=
  (catalog.types.findIdx? (·.name = name)).map TypeId.mk

/-- The type with a given name, to which the marker of the arity is added. -/
def lookup? (catalog : Catalog) (name : Text) (arity : Nat) : Option TypeId :=
  catalog.typeNamed? (withArity name arity)

/-- The base of a type, in terms of the type's own parameters. -/
def baseType? (catalog : Catalog) (id : TypeId) : Option TypeExpr :=
  (catalog.typeDef? id).bind TypeDef.base

def genericArity (catalog : Catalog) (id : TypeId) : Nat :=
  ((catalog.typeDef? id).map (·.genericParams.length)).getD 0

def methodArity (catalog : Catalog) (id : MemberId) : Nat :=
  ((catalog.memberDef? id).map (·.genericParams.length)).getD 0

/-- A type's own parameters, outer ones first. -/
def typeParams (catalog : Catalog) (id : TypeId) : List TypeExpr :=
  ParamOwner.params (.type id) (catalog.genericArity id)

def methodParams (catalog : Catalog) (id : MemberId) : List TypeExpr :=
  ParamOwner.params (.method id) (catalog.methodArity id)

def parametersOf (catalog : Catalog) (id : MemberId) : List TypeExpr :=
  ((catalog.memberDef? id).map (·.parameters)).getD []

def isGenericMethod (catalog : Catalog) (id : MemberId) : Bool :=
  (catalog.memberDef? id).any fun member => member.kind = .method && !member.genericParams.isEmpty

def membersOf (catalog : Catalog) (id : TypeId) : List MemberId :=
  ((catalog.typeDef? id).map (·.members)).getD []

/-- Those of them with a given name in metadata. -/
def membersNamed (catalog : Catalog) (id : TypeId) (name : Text) : List MemberId :=
  (catalog.membersOf id).filter fun member => (catalog.memberDef? member).any (·.name = name)

end Catalog

end DocRef

/-! Types as signatures use them: catalog types, generic types closed over arguments, arrays,
references, pointers and generic parameters. -/

namespace DocRef

/-- A type of the catalog, by its place. -/
structure TypeId where
  index : Nat
deriving Repr, DecidableEq

/-- A member of the catalog, by its place among the members of all types. -/
structure MemberId where
  index : Nat
deriving Repr, DecidableEq

/-- Whose generic parameter it is. A nested type owns the parameters of the types around it as
well, outer ones first. -/
inductive ParamOwner
  | type (id : TypeId)
  | method (id : MemberId)
deriving Repr, DecidableEq

/-- A generic parameter: its owner and its place in the owner's list. -/
structure GenericParam where
  owner : ParamOwner
  position : Nat
deriving Repr, DecidableEq

/-- A type expression. Two overloads are told apart by the equality of their types. -/
inductive TypeExpr
  /-- A catalog type as it is; a generic one stays open. -/
  | named (id : TypeId)
  /-- A generic type closed over arguments for all its parameters. -/
  | generic (definition : TypeId) (arguments : List TypeExpr)
  | array (element : TypeExpr) (rank : Nat)
  | byRef (target : TypeExpr)
  | pointer (target : TypeExpr)
  | param (param : GenericParam)
deriving Repr

mutual

def TypeExpr.same : TypeExpr → TypeExpr → Bool
  | .named i, .named j => i == j
  | .generic i xs, .generic j ys => i == j && TypeExpr.sameAll xs ys
  | .array s i, .array t j => s.same t && i == j
  | .byRef s, .byRef t => s.same t
  | .pointer s, .pointer t => s.same t
  | .param p, .param q => p == q
  | _, _ => false

def TypeExpr.sameAll : List TypeExpr → List TypeExpr → Bool
  | [], [] => true
  | x :: xs, y :: ys => x.same y && TypeExpr.sameAll xs ys
  | _, _ => false

end

mutual

theorem TypeExpr.same_iff : (s t : TypeExpr) → (s.same t = true ↔ s = t)
  | .named _, t => by cases t <;> simp [TypeExpr.same]
  | .generic _ xs, t => by cases t <;> simp [TypeExpr.same, TypeExpr.sameAll_iff xs]
  | .array s _, t => by cases t <;> simp [TypeExpr.same, TypeExpr.same_iff s]
  | .byRef s, t => by cases t <;> simp [TypeExpr.same, TypeExpr.same_iff s]
  | .pointer s, t => by cases t <;> simp [TypeExpr.same, TypeExpr.same_iff s]
  | .param _, t => by cases t <;> simp [TypeExpr.same]

theorem TypeExpr.sameAll_iff : (xs ys : List TypeExpr) → (TypeExpr.sameAll xs ys = true ↔ xs = ys)
  | [], ys => by cases ys <;> simp [TypeExpr.sameAll]
  | x :: xs, ys => by
    cases ys <;> simp [TypeExpr.sameAll, TypeExpr.same_iff x, TypeExpr.sameAll_iff xs]

end

instance : DecidableEq TypeExpr := fun s t => decidable_of_iff _ (TypeExpr.same_iff s t)

/-- The catalog type that a type is, or closes over arguments. -/
def TypeExpr.definition? : TypeExpr → Option TypeId
  | .named id => some id
  | .generic definition _ => some definition
  | _ => none

inductive Symbol
  | member (id : MemberId)
  | type (type : TypeExpr)
  /-- Nothing, or more than one member. -/
  | unresolved
deriving Repr, DecidableEq

end DocRef

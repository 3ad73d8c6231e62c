import DocRef.TypeExpr

/-!
Substitutions. Seen from a derived type, the parameters of its ancestors stand for types in terms of
the derived type's own parameters.
-/

namespace DocRef

/-- What generic parameters stand for, as seen from the type `target`. -/
structure Substitution where
  target : TypeId
  bindings : List (GenericParam × TypeExpr)
deriving Repr, DecidableEq

namespace Substitution

/-- The view of a type on itself: nothing is bound. -/
def identity (target : TypeId) : Substitution := ⟨target, []⟩

def find? (σ : Substitution) (param : GenericParam) : Option TypeExpr :=
  (σ.bindings.find? (·.1 = param)).map (·.2)

/-- Binds a parameter; an earlier binding of it is given up. -/
def bind (σ : Substitution) (param : GenericParam) (type : TypeExpr) : Substitution :=
  { σ with bindings := (param, type) :: σ.bindings.filter (·.1 ≠ param) }

mutual

/-- Puts what they stand for in the place of the bound parameters. What is put in is not looked
through again. -/
def apply (σ : Substitution) : TypeExpr → TypeExpr
  | .named id => .named id
  | .generic definition arguments => .generic definition (σ.applyAll arguments)
  | .array element rank => .array (σ.apply element) rank
  | .byRef target => .byRef (σ.apply target)
  | .pointer target => .pointer (σ.apply target)
  | .param param => (σ.find? param).getD (.param param)

def applyAll (σ : Substitution) : List TypeExpr → List TypeExpr
  | [] => []
  | type :: types => σ.apply type :: σ.applyAll types

end

theorem applyAll_eq_map (σ : Substitution) (types : List TypeExpr) :
    σ.applyAll types = types.map σ.apply := by
  induction types with
  | nil => rfl
  | cons type types ih => simp [applyAll, ih]

theorem target_bind (σ : Substitution) (param : GenericParam) (type : TypeExpr) :
    (σ.bind param type).target = σ.target := rfl

theorem find?_identity (target : TypeId) (param : GenericParam) :
    (identity target).find? param = none := rfl

theorem find?_bind (σ : Substitution) (param other : GenericParam) (type : TypeExpr) :
    (σ.bind param type).find? other = if param = other then some type else σ.find? other := by
  by_cases h : param = other
  · simp [find?, bind, h]
  · have h' : ∀ b : GenericParam × TypeExpr,
        (!decide (b.1 = param) && decide (b.1 = other)) = decide (b.1 = other) := by
      intro b
      by_cases hb : b.1 = other
      · simp [hb, Ne.symm h]
      · simp [hb]
    simp [find?, bind, h, h']

end Substitution

end DocRef

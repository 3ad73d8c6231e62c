import DocRef.Failure

/-!
Inherited members and hiding. A member of an ancestor is hidden by a member of a type nearer to the
one that is asked about, if both have the same signature as seen from there. Members of one type
never hide each other, and the constructors of ancestors are not inherited.
-/

namespace DocRef

/-- A type on a chain of bases, and what its parameters stand for as seen from the chain's start. -/
structure Level where
  type : TypeId
  view : Substitution
deriving Repr, DecidableEq

/-- An inherited member, and the nearer one that hides it. -/
structure HiddenMember where
  hidden : MemberId
  hiddenBy : MemberId
deriving Repr, DecidableEq

/-- The members of a type with those of its ancestors: nearer types come first, and members of one
type stand in the order of their declaration. -/
structure MemberSet where
  visible : List MemberId
  hidden : List HiddenMember
deriving Repr, DecidableEq

/-- What a base's parameters stand for: the arguments it is closed over, as seen from the target. -/
def Substitution.ofBase (view : Substitution) (definition : TypeId) (arguments : List TypeExpr) :
    Substitution :=
  ⟨view.target, arguments.zipIdx.map fun (argument, position) =>
    (⟨.type definition, position⟩, view.apply argument)⟩

namespace Catalog

def baseLevel? (catalog : Catalog) (level : Level) : Option Level :=
  match catalog.baseType? level.type with
  | some (.generic definition arguments) =>
    some ⟨definition, level.view.ofBase definition arguments⟩
  | some (.named definition) => some ⟨definition, .identity level.view.target⟩
  | _ => none

/-- The levels from a given one upwards, up to the first type seen before. A chain without
repetition has at most one level for each type and one for a type outside the catalog, which bounds
`count`. -/
def levelsFrom (catalog : Catalog) : Nat → List TypeId → Level → List Level
  | 0, _, _ => []
  | count + 1, seen, level =>
    if level.type ∈ seen then []
    else level :: match catalog.baseLevel? level with
      | some base => catalog.levelsFrom count (level.type :: seen) base
      | none => []

def levels (catalog : Catalog) (id : TypeId) : List Level :=
  catalog.levelsFrom (catalog.types.length + 1) [] ⟨id, .identity id⟩

/-- The members that a level contributes: its own, but for the constructors of ancestors. -/
def contributed (catalog : Catalog) (level : Level) : List MemberId :=
  (catalog.membersOf level.type).filter fun id =>
    level.type = level.view.target || !(catalog.memberDef? id).any (·.kind = .constructor)

/-- The signatures of members as seen from the target of a view, each with its member. -/
def signatures (catalog : Catalog) (view : Substitution) :
    List MemberId → Except Inconsistent (List (Text × MemberId))
  | [] => .ok []
  | id :: ids => do
    let signature ← catalog.encodeSignature id view
    let rest ← catalog.signatures view ids
    return (signature, id) :: rest

/-- Adds levels to a member set. `nearer` holds the signatures of the visible members so far, the
nearest first. -/
def mergeLevels (catalog : Catalog) (nearer : List (Text × MemberId)) :
    List Level → Except Inconsistent MemberSet
  | [] => .ok ⟨[], []⟩
  | level :: levels => do
    let signed ← catalog.signatures level.view (catalog.contributed level)
    let shown := signed.filter fun (signature, _) => (nearer.lookup signature).isNone
    let hidden := signed.filterMap fun (signature, id) =>
      (nearer.lookup signature).map fun hiddenBy => ⟨id, hiddenBy⟩
    let rest ← catalog.mergeLevels (nearer ++ shown) levels
    return ⟨shown.map (·.2) ++ rest.visible, hidden ++ rest.hidden⟩

/-- The members that a type has or inherits, and those that are hidden. -/
def mergedMembers (catalog : Catalog) (id : TypeId) : Except Failure MemberSet :=
  match catalog.typeDef? id with
  | none => .error (.unknownType s!"#{id.index}")
  | some _ =>
    match catalog.mergeLevels [] (catalog.levels id) with
    | .ok set => .ok set
    | .error inconsistent => .error inconsistent.failure

end Catalog

end DocRef

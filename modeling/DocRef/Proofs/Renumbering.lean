import DocRef.Inheritance
import DocRef.Proofs.Catalog.Tables
import DocRef.Resolution
import Mathlib.Data.List.Perm.Subperm

/-!
Ids under other numbers. A renumbering gives each type and each member a new id of its own, and carries
over everything that ids stand in. A catalog is found in another one under new numbers (`Embeds`) if
each of its types and members has its new place there: so it is when the same types are listed in
another order, and when more types are added.
-/

namespace DocRef

/-- New ids for types and members, different ones for different entries. -/
structure Renumbering where
  type : TypeId → TypeId
  member : MemberId → MemberId
  type_injective : Function.Injective type
  member_injective : Function.Injective member

/-- The renumbering that leaves all ids as they are. -/
def Renumbering.identity : Renumbering :=
  ⟨id, id, Function.injective_id, Function.injective_id⟩

/-! ### Parameters and types -/

def ParamOwner.renumber (ρ : Renumbering) : ParamOwner → ParamOwner
  | .type id => .type (ρ.type id)
  | .method id => .method (ρ.member id)

def GenericParam.renumber (ρ : Renumbering) (p : GenericParam) : GenericParam :=
  ⟨p.owner.renumber ρ, p.position⟩

mutual

def TypeExpr.renumber (ρ : Renumbering) : TypeExpr → TypeExpr
  | .named id => .named (ρ.type id)
  | .generic definition arguments => .generic (ρ.type definition) (TypeExpr.renumberAll ρ arguments)
  | .array element rank => .array (element.renumber ρ) rank
  | .byRef target => .byRef (target.renumber ρ)
  | .pointer target => .pointer (target.renumber ρ)
  | .param p => .param (p.renumber ρ)

def TypeExpr.renumberAll (ρ : Renumbering) : List TypeExpr → List TypeExpr
  | [] => []
  | type :: types => type.renumber ρ :: TypeExpr.renumberAll ρ types

end

section

variable (ρ : Renumbering)

theorem TypeExpr.renumberAll_eq_map (types : List TypeExpr) :
    TypeExpr.renumberAll ρ types = types.map (TypeExpr.renumber ρ) := by
  induction types with
  | nil => rfl
  | cons type types ih => rw [renumberAll, ih, List.map_cons]

/-- Different owners stay different. -/
theorem ParamOwner.renumber_inj {owner other : ParamOwner} :
    owner.renumber ρ = other.renumber ρ ↔ owner = other := by
  cases owner <;> cases other <;>
    simp [renumber, ρ.type_injective.eq_iff, ρ.member_injective.eq_iff]

theorem GenericParam.renumber_inj {p q : GenericParam} : p.renumber ρ = q.renumber ρ ↔ p = q := by
  obtain ⟨owner, position⟩ := p
  obtain ⟨otherOwner, otherPosition⟩ := q
  simp [renumber, ParamOwner.renumber_inj]

mutual

/-- Different types stay different. -/
theorem TypeExpr.renumber_inj : (s t : TypeExpr) → (s.renumber ρ = t.renumber ρ ↔ s = t)
  | .named _, t => by cases t <;> simp [renumber, ρ.type_injective.eq_iff]
  | .generic _ xs, t => by
    cases t <;> simp [renumber, ρ.type_injective.eq_iff, TypeExpr.renumberAll_inj xs]
  | .array s _, t => by cases t <;> simp [renumber, TypeExpr.renumber_inj s]
  | .byRef s, t => by cases t <;> simp [renumber, TypeExpr.renumber_inj s]
  | .pointer s, t => by cases t <;> simp [renumber, TypeExpr.renumber_inj s]
  | .param _, t => by cases t <;> simp [renumber, GenericParam.renumber_inj]

theorem TypeExpr.renumberAll_inj : (xs ys : List TypeExpr) →
    (TypeExpr.renumberAll ρ xs = TypeExpr.renumberAll ρ ys ↔ xs = ys)
  | [], ys => by cases ys <;> simp [renumberAll]
  | x :: xs, ys => by
    cases ys <;> simp [renumberAll, TypeExpr.renumber_inj x, TypeExpr.renumberAll_inj xs]

end

theorem TypeExpr.renumber_injective : Function.Injective (TypeExpr.renumber ρ) :=
  fun s t => (TypeExpr.renumber_inj ρ s t).mp

theorem TypeExpr.definition?_renumber (type : TypeExpr) :
    (type.renumber ρ).definition? = type.definition?.map ρ.type := by
  cases type <;> rfl

/-- The parameters of a declaration are those of the renumbered declaration. -/
theorem ParamOwner.params_renumber (owner : ParamOwner) (count : Nat) :
    (owner.params count).map (TypeExpr.renumber ρ) = (owner.renumber ρ).params count := by
  rw [params, params, List.map_map]
  rfl

/-! ### What ids stand in -/

def MemberDef.renumber (member : MemberDef) : MemberDef :=
  { member with
    declaringType := ρ.type member.declaringType
    parameters := member.parameters.map (TypeExpr.renumber ρ)
    returns := member.returns.map (TypeExpr.renumber ρ) }

def TypeDef.renumber (type : TypeDef) : TypeDef :=
  { type with
    base := type.base.map (TypeExpr.renumber ρ)
    members := type.members.map ρ.member }

def Symbol.renumber : Symbol → Symbol
  | .member id => .member (ρ.member id)
  | .type t => .type (t.renumber ρ)
  | .unresolved => .unresolved

def Bindings.renumber (bindings : Bindings) : Bindings :=
  ⟨bindings.typeArgs.map (TypeExpr.renumber ρ), bindings.methodArgs.map (TypeExpr.renumber ρ)⟩

def Substitution.renumber (σ : Substitution) : Substitution :=
  ⟨ρ.type σ.target, σ.bindings.map fun binding => (binding.1.renumber ρ, binding.2.renumber ρ)⟩

def Level.renumber (level : Level) : Level :=
  ⟨ρ.type level.type, level.view.renumber ρ⟩

def HiddenMember.renumber (entry : HiddenMember) : HiddenMember :=
  ⟨ρ.member entry.hidden, ρ.member entry.hiddenBy⟩

def MemberSet.renumber (set : MemberSet) : MemberSet :=
  ⟨set.visible.map ρ.member, set.hidden.map (HiddenMember.renumber ρ)⟩

end

/-! ### Ids that stay -/

section Identity

theorem GenericParam.renumber_identity (param : GenericParam) :
    param.renumber .identity = param := by
  obtain ⟨owner, position⟩ := param
  cases owner <;> rfl

mutual

theorem TypeExpr.renumber_identity : (type : TypeExpr) → type.renumber .identity = type
  | .named _ => rfl
  | .generic _ arguments => by rw [renumber, TypeExpr.renumberAll_identity arguments]; rfl
  | .array element _ => by rw [renumber, TypeExpr.renumber_identity element]
  | .byRef target => by rw [renumber, TypeExpr.renumber_identity target]
  | .pointer target => by rw [renumber, TypeExpr.renumber_identity target]
  | .param _ => by rw [renumber, GenericParam.renumber_identity]

theorem TypeExpr.renumberAll_identity : (types : List TypeExpr) →
    TypeExpr.renumberAll .identity types = types
  | [] => rfl
  | type :: types => by
    rw [renumberAll, TypeExpr.renumber_identity type, TypeExpr.renumberAll_identity types]

end

theorem TypeExpr.renumber_identity_eq : TypeExpr.renumber .identity = id :=
  funext TypeExpr.renumber_identity

theorem MemberDef.renumber_identity (member : MemberDef) : member.renumber .identity = member := by
  rw [renumber, TypeExpr.renumber_identity_eq, List.map_id, Option.map_id]
  rfl

theorem TypeDef.renumber_identity (type : TypeDef) : type.renumber .identity = type := by
  rw [renumber, TypeExpr.renumber_identity_eq, Option.map_id]
  show { type with members := type.members.map id } = type
  rw [List.map_id]

theorem Symbol.renumber_identity (symbol : Symbol) : symbol.renumber .identity = symbol := by
  cases symbol with
  | type t => rw [renumber, TypeExpr.renumber_identity]
  | member id => rfl
  | unresolved => rfl

theorem MemberSet.renumber_identity (set : MemberSet) : set.renumber .identity = set := by
  show (⟨set.visible.map id, set.hidden.map id⟩ : MemberSet) = set
  rw [List.map_id, List.map_id]

end Identity

/-! ### A catalog within another -/

namespace Catalog

/-- Whether every type and every member of a catalog stands in another one under its new id. -/
structure Embeds (ρ : Renumbering) (catalog other : Catalog) : Prop where
  names_nodup : (catalog.types.map (·.name)).Nodup
  other_names_nodup : (other.types.map (·.name)).Nodup
  typeDef? : ∀ {id : TypeId} {type : TypeDef}, catalog.typeDef? id = some type →
    other.typeDef? (ρ.type id) = some (type.renumber ρ)
  memberDef? : ∀ {id : MemberId} {member : MemberDef}, catalog.memberDef? id = some member →
    other.memberDef? (ρ.member id) = some (member.renumber ρ)

section Embeds

variable {ρ : Renumbering} {catalog other : Catalog}

theorem Embeds.arity? (h : catalog.Embeds ρ other) {id : TypeId} {count : Nat}
    (harity : catalog.arity? id = some count) : other.arity? (ρ.type id) = some count := by
  obtain ⟨type, htype, rfl⟩ := typeDef?_of_arity? harity
  rw [Catalog.arity?, h.typeDef? htype]
  rfl

theorem Embeds.genericArity (h : catalog.Embeds ρ other) {id : TypeId} {count : Nat}
    (harity : catalog.arity? id = some count) :
    other.genericArity (ρ.type id) = catalog.genericArity id := by
  rw [genericArity_eq harity, genericArity_eq (h.arity? harity)]

theorem Embeds.typeParams (h : catalog.Embeds ρ other) {id : TypeId} {count : Nat}
    (harity : catalog.arity? id = some count) :
    other.typeParams (ρ.type id) = (catalog.typeParams id).map (TypeExpr.renumber ρ) := by
  rw [Catalog.typeParams, Catalog.typeParams, h.genericArity harity, ParamOwner.params_renumber]
  rfl

theorem Embeds.typeNamed? (h : catalog.Embeds ρ other) {name : Text} {id : TypeId}
    (hname : catalog.typeNamed? name = some id) : other.typeNamed? name = some (ρ.type id) := by
  obtain ⟨type, htype, rfl⟩ := typeDef?_of_typeNamed? hname
  have hname : (type.renumber ρ).name = type.name := rfl
  rw [← hname]
  exact typeNamed?_name h.other_names_nodup (h.typeDef? htype)

/-- A name that means a type of the catalog elsewhere means it in the catalog. -/
theorem Embeds.typeNamed?_reflects (h : catalog.Embeds ρ other) {name : Text} {id : TypeId}
    {count : Nat} (hid : catalog.arity? id = some count)
    (hname : other.typeNamed? name = some (ρ.type id)) : catalog.typeNamed? name = some id := by
  obtain ⟨type, htype, -⟩ := typeDef?_of_arity? hid
  obtain ⟨found, hfound, rfl⟩ := typeDef?_of_typeNamed? hname
  rw [h.typeDef? htype, Option.some.injEq] at hfound
  rw [← hfound]
  show catalog.typeNamed? type.name = some id
  exact typeNamed?_name h.names_nodup htype

theorem Embeds.membersOf (h : catalog.Embeds ρ other) {id : TypeId} {count : Nat}
    (harity : catalog.arity? id = some count) :
    other.membersOf (ρ.type id) = (catalog.membersOf id).map ρ.member := by
  obtain ⟨type, htype, -⟩ := typeDef?_of_arity? harity
  rw [Catalog.membersOf, Catalog.membersOf, htype, h.typeDef? htype]
  rfl

theorem Embeds.baseType? (h : catalog.Embeds ρ other) {id : TypeId} {count : Nat}
    (harity : catalog.arity? id = some count) :
    other.baseType? (ρ.type id) = (catalog.baseType? id).map (TypeExpr.renumber ρ) := by
  obtain ⟨type, htype, -⟩ := typeDef?_of_arity? harity
  rw [Catalog.baseType?, Catalog.baseType?, htype, h.typeDef? htype]
  rfl

theorem Embeds.methodParams (h : catalog.Embeds ρ other) {id : MemberId} {member : MemberDef}
    (hmember : catalog.memberDef? id = some member) :
    other.methodParams (ρ.member id) = (catalog.methodParams id).map (TypeExpr.renumber ρ) := by
  have harity : other.methodArity (ρ.member id) = catalog.methodArity id := by
    rw [methodArity, methodArity, hmember, h.memberDef? hmember]
    rfl
  rw [Catalog.methodParams, Catalog.methodParams, harity, ParamOwner.params_renumber]
  rfl

theorem typeIds_nodup (catalog : Catalog) : catalog.typeIds.Nodup :=
  List.Nodup.map (fun _ _ heq => congrArg TypeId.index heq) List.nodup_range

theorem memberIds_nodup (catalog : Catalog) : catalog.memberIds.Nodup :=
  List.Nodup.map (fun _ _ heq => congrArg MemberId.index heq) List.nodup_range

theorem mem_typeIds {id : TypeId} :
    id ∈ catalog.typeIds ↔ ∃ type, catalog.typeDef? id = some type := by
  rw [typeDef?, ← Option.isSome_iff_exists, isSome_getElem?, typeIds, List.mem_map]
  constructor
  · rintro ⟨index, hindex, rfl⟩
    exact List.mem_range.mp hindex
  · exact fun hindex => ⟨id.index, List.mem_range.mpr hindex, rfl⟩

theorem mem_memberIds {id : MemberId} :
    id ∈ catalog.memberIds ↔ ∃ member, catalog.memberDef? id = some member := by
  rw [memberDef?, ← Option.isSome_iff_exists, isSome_getElem?, memberIds, List.mem_map]
  constructor
  · rintro ⟨index, hindex, rfl⟩
    exact List.mem_range.mp hindex
  · exact fun hindex => ⟨id.index, List.mem_range.mpr hindex, rfl⟩

/-- The types of the catalog are among those of the larger one. -/
theorem Embeds.typeIds_subperm (h : catalog.Embeds ρ other) :
    (catalog.typeIds.map ρ.type).Subperm other.typeIds := by
  apply ((typeIds_nodup catalog).map ρ.type_injective).subperm
  intro id hid
  obtain ⟨inner, hinner, rfl⟩ := List.mem_map.mp hid
  obtain ⟨type, htype⟩ := mem_typeIds.mp hinner
  exact mem_typeIds.mpr ⟨_, h.typeDef? htype⟩

theorem Embeds.memberIds_subperm (h : catalog.Embeds ρ other) :
    (catalog.memberIds.map ρ.member).Subperm other.memberIds := by
  apply ((memberIds_nodup catalog).map ρ.member_injective).subperm
  intro id hid
  obtain ⟨inner, hinner, rfl⟩ := List.mem_map.mp hid
  obtain ⟨member, hmember⟩ := mem_memberIds.mp hinner
  exact mem_memberIds.mpr ⟨_, h.memberDef? hmember⟩

end Embeds

end Catalog

end DocRef

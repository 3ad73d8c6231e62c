import DocRef.Proofs.CanonicalId.Spelling
import DocRef.Proofs.Resolution.Candidates

/-!
When two members have the same ID (`encodeMember_eq_iff`). An ID tells the tree of each type that it
spells (`parts_eq_iff`), and a tree tells its type but for the ranks of arrays and for whose
parameters a method's are (`typeNode_eq_iff`). So members collide only if they have the same kind, type
and name and signatures that differ in nothing else.
-/

namespace DocRef

/-- A parameter of a method as one of the first method; the place is kept. -/
def GenericParam.byPlace (param : GenericParam) : GenericParam :=
  match param.owner with
  | .type _ => param
  | .method _ => ⟨.method ⟨0⟩, param.position⟩

/-- A type with arrays of one dimension, and with parameters of methods by their places. -/
def TypeExpr.comparable : TypeExpr → TypeExpr :=
  TypeExpr.map GenericParam.byPlace TypeExpr.readRank

theorem GenericParam.node_byPlace (param : GenericParam) : param.byPlace.node = param.node := by
  obtain ⟨owner, position⟩ := param
  cases owner <;> rfl

/-- Whether two members are spelled alike: they have the same declaring type, kind, name and stated
arity and, but for the ranks of arrays and for whose parameters those of a method are, the same
parameters and, for conversions, the same return type. -/
structure MemberDef.SpelledAlike (member other : MemberDef) : Prop where
  declaringType : member.declaringType = other.declaringType
  kind : member.kind.symbolKind = other.kind.symbolKind
  name : member.name = other.name
  arity : member.statedArity = other.statedArity
  parameters : member.parameters.map TypeExpr.comparable = other.parameters.map TypeExpr.comparable
  returns : member.name ∈ conversionOperators →
    member.returns.map TypeExpr.comparable = other.returns.map TypeExpr.comparable

namespace Catalog

/-! ### Trees tell types apart -/

section Trees

variable (catalog : Catalog)

mutual

/-- A tree tells no rank, and of a parameter no more than its own tree does. -/
theorem typeNode_comparable : (type : TypeExpr) →
    catalog.typeNode type.comparable = catalog.typeNode type
  | .named _ => rfl
  | .generic definition arguments => by
    show catalog.typeNode (.generic definition (TypeExpr.mapAll _ _ arguments)) = _
    rw [typeNode, typeNode, typeNodes_comparable arguments]
  | .array element _ => congrArg (Node.array · 1) (typeNode_comparable element)
  | .byRef target => congrArg Node.byRef (typeNode_comparable target)
  | .pointer target => congrArg Node.pointer (typeNode_comparable target)
  | .param param => param.node_byPlace

theorem typeNodes_comparable : (types : List TypeExpr) →
    catalog.typeNodes (TypeExpr.mapAll GenericParam.byPlace TypeExpr.readRank types) =
      catalog.typeNodes types
  | [] => rfl
  | type :: types => congrArg₂ List.cons (typeNode_comparable type) (typeNodes_comparable types)

end

end Trees

section Collisions

variable {catalog : Catalog} {id otherId : MemberId} {member other : MemberDef}

/-- What the parameters in the types of a declaring type's members are read as: those of a method with
`count` parameters as those of the first method. -/
def placeBindings (catalog : Catalog) (declaring : TypeId) (count : Nat) : Bindings :=
  ⟨catalog.typeParams declaring, ParamOwner.params (.method ⟨0⟩) count⟩

/-- The tree of a type in a member's signature tells what can be compared of the type. -/
theorem resolveType_comparable (hloaded : catalog.Loaded) (hspellable : catalog.Spellable)
    (hmember : catalog.memberDef? id = some member) {count : Nat}
    (hcount : member.genericParams.length ≤ count) :
    ∀ type ∈ member.types,
      catalog.resolveType (catalog.placeBindings member.declaringType count)
        (catalog.typeNode type) = some type.comparable := by
  intro type htype
  refine resolveType_typeNode hloaded hspellable.listsBounded hspellable.typeNames ?_
    ((hloaded.member hmember).scope type htype)
  rintro ⟨owner, position⟩ (⟨howner, hposition⟩ | ⟨howner, hposition⟩)
  · cases howner
    exact getElem?_params hposition
  · cases howner
    exact getElem?_params (Nat.lt_of_lt_of_le hposition hcount)

/-- Types in the signatures of two members of a type have the same tree if and only if they are the
same as far as they can be compared. -/
theorem typeNode_eq_iff (hloaded : catalog.Loaded) (hspellable : catalog.Spellable)
    (hmember : catalog.memberDef? id = some member)
    (hother : catalog.memberDef? otherId = some other)
    (hdeclaring : member.declaringType = other.declaringType) :
    ∀ type ∈ member.types, ∀ otherType ∈ other.types,
      (catalog.typeNode type = catalog.typeNode otherType ↔
        type.comparable = otherType.comparable) := by
  intro type htype otherType hotherType
  constructor
  · intro hnode
    -- Both trees are read as in a method with the parameters of the one that has more of them.
    have hmeans := resolveType_comparable hloaded hspellable hmember
      (Nat.le_max_left _ other.genericParams.length) type htype
    have hotherMeans := resolveType_comparable hloaded hspellable hother
      (Nat.le_max_right member.genericParams.length _) otherType hotherType
    rw [hnode, hdeclaring, hotherMeans] at hmeans
    exact (Option.some.inj hmeans).symm
  · intro hsame
    rw [← typeNode_comparable, hsame, typeNode_comparable]

theorem map_eq_map_iff_of_forall {α β γ : Type} {f : α → β} {g : α → γ} {items others : List α}
    (h : ∀ item ∈ items, ∀ other ∈ others, (f item = f other ↔ g item = g other)) :
    items.map f = others.map f ↔ items.map g = others.map g := by
  induction items generalizing others with
  | nil => cases others <;> simp
  | cons item items ih =>
    cases others with
    | nil => simp
    | cons other others =>
      rw [List.map_cons, List.map_cons, List.map_cons, List.map_cons, List.cons.injEq,
        List.cons.injEq, h item List.mem_cons_self other List.mem_cons_self,
        ih fun later hlater next hnext =>
          h later (List.mem_cons_of_mem _ hlater) next (List.mem_cons_of_mem _ hnext)]

/-- Return types are spelled only in the IDs of conversions. -/
theorem returnsNode_eq_iff (hname : member.name = other.name)
    (htypes : ∀ type ∈ member.types, ∀ otherType ∈ other.types,
      (catalog.typeNode type = catalog.typeNode otherType ↔
        type.comparable = otherType.comparable)) :
    catalog.returnsNode member = catalog.returnsNode other ↔
      (member.name ∈ conversionOperators →
        member.returns.map TypeExpr.comparable = other.returns.map TypeExpr.comparable) := by
  by_cases hconversion : member.name ∈ conversionOperators
  · have hmem : ∀ {found : MemberDef} {type : TypeExpr}, found.returns = some type →
        type ∈ found.types := fun hreturns =>
      List.mem_append_right _ (Option.mem_toList.mpr hreturns)
    rw [returnsNode_of_mem hconversion, returnsNode_of_mem (hname ▸ hconversion)]
    simp only [hconversion, forall_const]
    cases hreturns : member.returns with
    | none => cases other.returns <;> simp
    | some type =>
      cases hotherReturns : other.returns with
      | none => simp
      | some otherType => simpa using htypes type (hmem hreturns) otherType (hmem hotherReturns)
  · rw [returnsNode_of_notMem hconversion, returnsNode_of_notMem (hname ▸ hconversion)]
    simp [hconversion]

/-! ### Equal IDs -/

theorem nameNode_eq_iff (hloaded : catalog.Loaded) (hspellable : catalog.Spellable)
    (hmember : catalog.memberDef? id = some member)
    (hother : catalog.memberDef? otherId = some other) :
    catalog.nameNode member.declaringType = catalog.nameNode other.declaringType ↔
      member.declaringType = other.declaringType := by
  refine ⟨fun hnode => ?_, fun hdeclaring => by rw [hdeclaring]⟩
  obtain ⟨declaring, hdeclaring⟩ := typeDef?_declaringType hloaded hmember
  obtain ⟨otherDeclaring, hotherDeclaring⟩ := typeDef?_declaringType hloaded hother
  have hmeans := @resolveType_nameNode _ .none hloaded hspellable.typeNames _ _ hdeclaring
  rw [hnode, resolveType_nameNode hloaded hspellable.typeNames hotherDeclaring] at hmeans
  exact (TypeExpr.named.inj (Option.some.inj hmeans)).symm

/-- A segment tells the name and the arity that is stated. -/
theorem statedSegment_eq_iff (hspellable : catalog.Spellable) (hmem : member ∈ catalog.members)
    (hotherMem : other ∈ catalog.members) :
    member.statedSegment = other.statedSegment ↔
      member.name = other.name ∧ member.statedArity = other.statedArity := by
  constructor
  · intro hsegment
    have hsplit := splitArity_statedSegment hspellable hmem
    rw [hsegment, splitArity_statedSegment hspellable hotherMem, Prod.mk.injEq] at hsplit
    obtain ⟨hname, harity⟩ := hsplit
    refine ⟨?_, harity.symm⟩
    rw [← Text.exchange_exchange (hspellable.memberNames member hmem).1, ← hname,
      Text.exchange_exchange (hspellable.memberNames other hotherMem).1]
  · rintro ⟨hname, harity⟩
    rw [MemberDef.statedSegment, hname, harity, MemberDef.statedSegment]

/-- Two members stand for the same reference with a list if and only if they are spelled alike. -/
theorem listReference_eq_iff (hloaded : catalog.Loaded) (hspellable : catalog.Spellable)
    (hmember : catalog.memberDef? id = some member)
    (hother : catalog.memberDef? otherId = some other) :
    catalog.listReference member = catalog.listReference other ↔ member.SpelledAlike other := by
  have htypes := typeNode_eq_iff hloaded hspellable hmember hother
  have hparameters : member.declaringType = other.declaringType →
      (catalog.typeNodes member.parameters = catalog.typeNodes other.parameters ↔
        member.parameters.map TypeExpr.comparable = other.parameters.map TypeExpr.comparable) := by
    intro hdeclaring
    rw [typeNodes_eq_map, typeNodes_eq_map]
    exact map_eq_map_iff_of_forall fun type htype otherType hotherType =>
      htypes hdeclaring type (List.mem_append_left _ htype) otherType
        (List.mem_append_left _ hotherType)
  rw [listReference, listReference, Reference.mk.injEq, Option.some.injEq, Node.method.injEq,
    Node.child.injEq, nameNode_eq_iff hloaded hspellable hmember hother,
    statedSegment_eq_iff hspellable (mem_members hmember) (mem_members hother)]
  constructor
  · rintro ⟨hkind, ⟨hdeclaring, hname, harity⟩, hlist, hreturns⟩
    exact ⟨hdeclaring, hkind, hname, harity, (hparameters hdeclaring).mp hlist,
      (returnsNode_eq_iff hname (htypes hdeclaring)).mp hreturns⟩
  · rintro ⟨hdeclaring, hkind, hname, harity, hlist, hreturns⟩
    exact ⟨hkind, ⟨hdeclaring, hname, harity⟩, (hparameters hdeclaring).mpr hlist,
      (returnsNode_eq_iff hname (htypes hdeclaring)).mpr hreturns⟩

/-- Two members have the same ID if and only if they are spelled alike. -/
theorem encodeMember_eq_iff {document : Text} (h : ofText document = .ok catalog)
    (hspellable : catalog.Spellable) (hmember : catalog.memberDef? id = some member)
    (hother : catalog.memberDef? otherId = some other) :
    ∃ text otherText, catalog.encodeMember id = .ok text ∧
      catalog.encodeMember otherId = .ok otherText ∧
        (text = otherText ↔ member.SpelledAlike other) := by
  have hloaded := ofText_loaded h
  exact ⟨_, _, encodeMember_eq_parts hloaded hspellable.listsBounded hmember,
    encodeMember_eq_parts hloaded hspellable.listsBounded hother,
    (parts_eq_iff hloaded hspellable hmember hother).trans
      (listReference_eq_iff hloaded hspellable hmember hother)⟩

/-- Two generic methods that differ in the rank of an array. -/
def ranks : Catalog :=
  ⟨[⟨['A'], [], none, [⟨0⟩, ⟨1⟩]⟩],
    [⟨⟨0⟩, [['T']], .method, ['F'], [.array (.param ⟨.method ⟨0⟩, 0⟩) 1], none⟩,
      ⟨⟨0⟩, [['U']], .method, ['F'], [.array (.param ⟨.method ⟨1⟩, 0⟩) 2], none⟩]⟩

theorem ofText_ranks :
    ofText (("[[types]]\nname='A'\n" ++
      "[[types.members]]\nname='F'\nkind='method'\ngeneric_params=['T']\nparameters=['``0[]']\n" ++
      "[[types.members]]\nname='F'\nkind='method'\ngeneric_params=['U']\n" ++
      "parameters=['``0[0:,0:]']\n").toList) = .ok ranks :=
  eq_ok_of_toOption (by decide +kernel)

/-- The rank of an array and the names of parameters do not keep IDs apart. -/
theorem encodeMember_eq_ranks :
    ∃ text, ranks.encodeMember ⟨0⟩ = .ok text ∧ ranks.encodeMember ⟨1⟩ = .ok text := by
  have hA : Text.IsIdentifier ['A'] := ⟨'A', [], rfl, by decide +kernel, by simp⟩
  have hF : Text.IsIdentifier ['F'] := ⟨'F', [], rfl, by decide +kernel, by simp⟩
  have hspellable : ranks.Spellable := by
    refine ⟨?_, ?_, by decide +kernel, by decide +kernel⟩
    · exact List.forall_mem_singleton.mpr (List.forall_mem_singleton.mpr (.inl hA))
    · exact List.forall_mem_cons.mpr ⟨⟨by decide, hF⟩, List.forall_mem_singleton.mpr ⟨by decide, hF⟩⟩
  obtain ⟨text, otherText, htext, hotherText, hiff⟩ :=
    @encodeMember_eq_iff ranks ⟨0⟩ ⟨1⟩ _ _ _ ofText_ranks hspellable rfl rfl
  have hsame : text = otherText := hiff.mpr ⟨rfl, rfl, rfl, rfl, rfl, fun _ => rfl⟩
  exact ⟨text, htext, hsame ▸ hotherText⟩

end Collisions

end Catalog

end DocRef

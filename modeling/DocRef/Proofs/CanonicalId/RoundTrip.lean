import DocRef.Proofs.CanonicalId.Members
import DocRef.Proofs.Resolution.Candidates

/-!
The IDs of members, read and resolved again (`encodeMember_resolves_iff`). Which members the reference
can mean is told by the name and the marker (`mem_candidates_memberSegment`); which of these fit the
parameter list, by the types as they are read back (`signatureFits_memberReference`). So the ID of a
member means that member unless something that it does not tell stands in the way: the rank of an
array, or a member that differs only in what is not written.
-/

namespace DocRef

/-- A parameter of one member as the parameter of another one at the same place. -/
def GenericParam.rebind (source target : MemberId) (param : GenericParam) : GenericParam :=
  if param.owner = .method source then ⟨.method target, param.position⟩ else param

/-- A type with the parameters of one member exchanged for those of another one. -/
def TypeExpr.rebind (source target : MemberId) : TypeExpr → TypeExpr :=
  TypeExpr.map (GenericParam.rebind source target) id

theorem GenericParam.rebind_self (source : MemberId) (param : GenericParam) :
    param.rebind source source = param := by
  obtain ⟨owner, position⟩ := param
  rw [rebind]
  split
  · next howner =>
    cases howner
    rfl
  · rfl

theorem TypeExpr.rebind_self (source : MemberId) (type : TypeExpr) :
    type.rebind source source = type := by
  have hparam : GenericParam.rebind source source = id := funext (GenericParam.rebind_self source)
  rw [rebind, hparam, map_id]

/-- Whether the ID of a member spells a type: that of a parameter or, for a conversion, of its result. -/
def MemberDef.Spells (member : MemberDef) (type : TypeExpr) : Prop :=
  type ∈ member.parameters ∨ member.name ∈ conversionOperators ∧ type ∈ member.returns

/-- Whether two members of a type have the same name and kind. -/
structure MemberDef.SharesName (member other : MemberDef) : Prop where
  declaringType : other.declaringType = member.declaringType
  name : other.name = member.name
  kind : other.kind.symbolKind = member.kind.symbolKind

/-- Whether two members have the same signature: name, kind, number of parameters of their own, types
of their parameters and, for conversions, return type. Their own parameters are the same where their
places are. -/
structure MemberDef.SharesSignature (id otherId : MemberId) (member other : MemberDef) : Prop
    extends MemberDef.SharesName member other where
  arity : other.genericParams.length = member.genericParams.length
  parameters : other.parameters = member.parameters.map (TypeExpr.rebind id otherId)
  returns : member.name ∈ conversionOperators →
    other.returns = member.returns.map (TypeExpr.rebind id otherId)

namespace Catalog

section Resolution

variable {catalog : Catalog} {id otherId : MemberId} {member other : MemberDef}

/-- The marker of a member, as it is split off. -/
def arityOf (member : MemberDef) : Arity :=
  if member.genericParams = [] then .none else .method member.genericParams.length

theorem arityOf_eq_stated (hregular : catalog.Regular) (hmem : member ∈ catalog.members) :
    arityOf member = member.statedArity := by
  rw [arityOf, MemberDef.statedArity]
  by_cases hgeneric : member.genericParams = []
  · simp [hgeneric]
  · simp [hgeneric, hregular.generics member hmem hgeneric]

theorem splitArity_memberSegment (hregular : catalog.Regular) (hmem : member ∈ catalog.members) :
    splitArity (memberSegment member) = (member.name.exchange '.' '#', arityOf member) := by
  rw [memberSegment_eq_stated hregular hmem, arityOf_eq_stated hregular hmem]
  exact splitArity_statedSegment hregular.spellable hmem

theorem arityOf_eq_method {count : Nat} :
    arityOf member = .method count ↔ member.genericParams ≠ [] ∧ member.genericParams.length = count := by
  rw [arityOf]
  by_cases hgeneric : member.genericParams = []
  · simp [hgeneric]
  · simp [hgeneric]

theorem arityOf_ne_type (member : MemberDef) (count : Nat) : arityOf member ≠ .type count := by
  rw [arityOf]
  split
  · exact nofun
  · exact nofun

theorem mem_candidates_memberSegment (hloaded : catalog.Loaded) (hregular : catalog.Regular)
    (hmem : member ∈ catalog.members) (otherId : MemberId) :
    otherId ∈ catalog.candidates member.declaringType (memberSegment member)
        (some member.kind.symbolKind) ↔
      ∃ other, catalog.memberDef? otherId = some other ∧ member.SharesName other ∧
        (member.genericParams ≠ [] →
          other.genericParams.length = member.genericParams.length) := by
  rw [mem_candidates hloaded (splitArity_memberSegment hregular hmem),
    Text.exchange_exchange (hregular.memberNames member hmem).1]
  refine exists_congr fun other => and_congr_right fun _ => ?_
  constructor
  · rintro ⟨hdeclaring, hname, hkind, hcount, -⟩
    refine ⟨⟨hdeclaring, hname, hkind _ rfl⟩, fun hgeneric => ?_⟩
    exact hcount _ (arityOf_eq_method.mpr ⟨hgeneric, rfl⟩)
  · rintro ⟨⟨hdeclaring, hname, hkind⟩, hcount⟩
    refine ⟨hdeclaring, hname, fun demanded hdemanded => ?_, fun count heq => ?_,
      arityOf_ne_type member⟩
    · cases hdemanded
      exact hkind
    · obtain ⟨hgeneric, rfl⟩ := arityOf_eq_method.mp heq
      exact hcount hgeneric

/-- A type of one member, read within another one. -/
def readBack (id otherId : MemberId) : TypeExpr → TypeExpr :=
  TypeExpr.map (GenericParam.rebind id otherId) TypeExpr.readRank

/-- Within a member with as many parameters of its own, the parameters of another one are read as
those at the same places. -/
theorem resolveType_node_of_owns (harity : other.genericParams.length = member.genericParams.length)
    (hother : catalog.memberDef? otherId = some other) {declaring : TypeId} {param : GenericParam}
    (h : Owns declaring (catalog.genericArity declaring) id member.genericParams.length param) :
    catalog.resolveType ⟨catalog.typeParams declaring, catalog.methodParams otherId⟩ param.node =
      some (.param (param.rebind id otherId)) := by
  obtain ⟨owner, position⟩ := param
  rcases h with ⟨howner, hposition⟩ | ⟨howner, hposition⟩
  · cases howner
    exact getElem?_params hposition
  · cases howner
    have hlt : position < catalog.methodArity otherId := by
      rw [methodArity_eq hother, harity]
      exact hposition
    rw [GenericParam.rebind, if_pos rfl]
    exact getElem?_params hlt

/-- Whether a member fits the parameters and the return type that another one is written with. -/
theorem signatureFits_memberReference (hloaded : catalog.Loaded) (hregular : catalog.Regular)
    (hmember : catalog.memberDef? id = some member)
    (hother : catalog.memberDef? otherId = some other)
    (harity : other.genericParams.length = member.genericParams.length) :
    catalog.signatureFits otherId (catalog.typeParams member.declaringType)
        (catalog.typeNodes member.parameters) (catalog.returnsNode member) = true ↔
      other.parameters = member.parameters.map (readBack id otherId) ∧
        (member.name ∈ conversionOperators →
          other.returns = member.returns.map (readBack id otherId)) := by
  have hscope := hloaded.member hmember
  have hresolve : ∀ type ∈ member.types,
      catalog.resolveType ⟨catalog.typeParams member.declaringType, catalog.methodParams otherId⟩
        (catalog.typeNode type) = some (readBack id otherId type) := fun type htype =>
    resolveType_typeNode hloaded hregular.listsBounded hregular.typeNames
      (fun _ => resolveType_node_of_owns harity hother) (hscope.scope type htype)
  rw [signatureFits_iff hother, resolveAll_map fun type htype =>
    hresolve type (List.mem_append_left _ htype), Option.some.injEq, eq_comm]
  refine and_congr_right fun _ => ?_
  by_cases hconversion : member.name ∈ conversionOperators
  · obtain ⟨type, htype⟩ := Option.ne_none_iff_exists'.mp
      (hregular.conversions member (mem_members hmember) hconversion).1
    have hmem : type ∈ member.types := List.mem_append_right _ (by rw [htype]; simp)
    rw [returnsNode_of_mem hconversion, htype, Option.map_some, Option.map_some]
    constructor
    · intro h _
      rw [← h _ rfl, hresolve type hmem]
    · intro h node hnode
      cases hnode
      rw [h hconversion, hresolve type hmem]
  · rw [returnsNode_of_notMem hconversion]
    exact ⟨fun _ hname => absurd hname hconversion, fun _ _ hnode => nomatch hnode⟩

/-- Types are read back within their own member without loss if and only if they are flat. -/
theorem readBack_self_iff {type : TypeExpr} {owns : GenericParam → Prop}
    (hscope : type.WellScoped catalog.arity? owns) (hshaped : type.Shaped) :
    readBack id id type = type ↔ type.IsFlat := by
  constructor
  · intro heq
    rw [← heq]
    exact TypeExpr.map_readRank_isFlat hscope _
  · intro hflat
    rw [readBack, hflat.map_readRank hshaped]
    exact TypeExpr.rebind_self id type

/-- A member fits what it is written with if and only if the types that are written are flat. -/
theorem readBack_types_iff (hloaded : catalog.Loaded) (hmember : catalog.memberDef? id = some member) :
    member.parameters = member.parameters.map (readBack id id) ∧
        (member.name ∈ conversionOperators → member.returns = member.returns.map (readBack id id)) ↔
      ∀ type, member.Spells type → type.IsFlat := by
  have hscope := hloaded.member hmember
  have hself : ∀ type ∈ member.types, (readBack id id type = type ↔ type.IsFlat) :=
    fun type htype => readBack_self_iff (hscope.scope type htype) (hscope.shape type htype)
  have hparameters : member.parameters = member.parameters.map (readBack id id) ↔
      ∀ type ∈ member.parameters, type.IsFlat := by
    have hfixed : member.parameters.map (readBack id id) = member.parameters.map (fun type => type) ↔
        ∀ type ∈ member.parameters, readBack id id type = type := List.map_inj_left
    rw [List.map_id'] at hfixed
    rw [eq_comm, hfixed]
    exact forall₂_congr fun type htype => hself type (List.mem_append_left _ htype)
  have hreturns : member.returns = member.returns.map (readBack id id) ↔
      ∀ type ∈ member.returns, type.IsFlat := by
    cases hreturns : member.returns with
    | none => simp
    | some type =>
      have htype : type ∈ member.types := List.mem_append_right _ (by rw [hreturns]; simp)
      simp [← hself type htype, eq_comm]
  rw [hparameters, hreturns]
  constructor
  · rintro ⟨hparameter, hreturn⟩ type (htype | ⟨hconversion, htype⟩)
    · exact hparameter type htype
    · exact hreturn hconversion type htype
  · intro h
    exact ⟨fun type htype => h type (.inl htype),
      fun hconversion type htype => h type (.inr ⟨hconversion, htype⟩)⟩

/-- A name without parameters means the only member that has it, and the number of parameters of its
own if that is written. -/
theorem resolveMember_memberSegment (hloaded : catalog.Loaded) (hregular : catalog.Regular)
    (hmember : catalog.memberDef? id = some member) :
    catalog.resolveMember .none (catalog.nameNode member.declaringType) (memberSegment member)
        (some member.kind.symbolKind) = some id ↔
      ∀ otherId other, catalog.memberDef? otherId = some other → member.SharesName other →
        (member.genericParams ≠ [] → other.genericParams.length = member.genericParams.length) →
        otherId = id := by
  obtain ⟨declaring, hdeclaring⟩ := typeDef?_declaringType hloaded hmember
  have hcandidates := mem_candidates_memberSegment hloaded hregular (mem_members hmember)
  show (catalog.resolveType .none (catalog.nameNode member.declaringType)).bind _ = some id ↔ _
  rw [resolveType_nameNode hloaded hregular.typeNames hdeclaring]
  show only? (catalog.candidates member.declaringType _ _) = some id ↔ _
  rw [only?_eq_some_iff (candidates_nodup hloaded _ _ _)]
  constructor
  · rintro ⟨-, hall⟩ otherId other hother hname harity
    exact hall otherId ((hcandidates otherId).mpr ⟨other, hother, hname, harity⟩)
  · intro hall
    refine ⟨(hcandidates id).mpr ⟨member, hmember, ⟨rfl, rfl, rfl⟩, fun _ => rfl⟩, ?_⟩
    intro otherId hcandidate
    obtain ⟨other, hother, hname, harity⟩ := (hcandidates otherId).mp hcandidate
    exact hall otherId other hother hname harity

/-- Before a parameter list, a name means the members that have it, as many parameters of their own
and these parameters. -/
theorem resolveMethod_eq (hloaded : catalog.Loaded) (hregular : catalog.Regular)
    (hmember : catalog.memberDef? id = some member) (parameters : List Node) (returns : Option Node)
    (kind : Option SymbolKind) :
    catalog.resolveMethod .none
        (.child (catalog.nameNode member.declaringType) (memberSegment member)) parameters returns
        kind =
      only? ((catalog.candidates member.declaringType (memberSegment member) kind).filter
        fun otherId => catalog.methodArity otherId = member.genericParams.length &&
          catalog.signatureFits otherId (catalog.typeParams member.declaringType) parameters
            returns) := by
  obtain ⟨declaring, hdeclaring⟩ := typeDef?_declaringType hloaded hmember
  have hsplit := splitArity_memberSegment hregular (mem_members hmember)
  show (catalog.resolveType .none (catalog.nameNode member.declaringType)).bind _ = _
  rw [resolveType_nameNode hloaded hregular.typeNames hdeclaring, Option.bind_some]
  rw [arityOf] at hsplit
  by_cases hgeneric : member.genericParams = []
  · rw [if_pos hgeneric] at hsplit
    rw [hsplit, hgeneric]
    rfl
  · rw [if_neg hgeneric] at hsplit
    rw [hsplit]
    rfl

/-- Whether a member has the signature of another one is whether it fits what that is written with. -/
theorem sharesSignature_iff (hloaded : catalog.Loaded) (hregular : catalog.Regular)
    (hmember : catalog.memberDef? id = some member)
    (hother : catalog.memberDef? otherId = some other)
    (hflat : ∀ type, member.Spells type → type.IsFlat) :
    member.SharesSignature id otherId other ↔ member.SharesName other ∧
      other.genericParams.length = member.genericParams.length ∧
      catalog.signatureFits otherId (catalog.typeParams member.declaringType)
        (catalog.typeNodes member.parameters) (catalog.returnsNode member) = true := by
  have hshape := (hloaded.member hmember).shape
  have hparameters : member.parameters.map (readBack id otherId) =
      member.parameters.map (TypeExpr.rebind id otherId) :=
    List.map_congr_left fun type htype =>
      (hflat type (.inl htype)).map_readRank (hshape type (List.mem_append_left _ htype)) _
  have hreturns : member.name ∈ conversionOperators →
      member.returns.map (readBack id otherId) = member.returns.map (TypeExpr.rebind id otherId) := by
    intro hconversion
    refine Option.map_congr fun type htype => ?_
    have hmem : type ∈ member.types := List.mem_append_right _ (Option.mem_toList.mpr htype)
    exact (hflat type (.inr ⟨hconversion, htype⟩)).map_readRank (hshape type hmem) _
  constructor
  · rintro ⟨hname, harity, hsame, hsameReturns⟩
    refine ⟨hname, harity,
      (signatureFits_memberReference hloaded hregular hmember hother harity).mpr ⟨?_, ?_⟩⟩
    · rw [hparameters, hsame]
    · intro hconversion
      rw [hreturns hconversion, hsameReturns hconversion]
  · rintro ⟨hname, harity, hfits⟩
    obtain ⟨hsame, hsameReturns⟩ :=
      (signatureFits_memberReference hloaded hregular hmember hother harity).mp hfits
    refine ⟨hname, harity, ?_, ?_⟩
    · rw [hsame, hparameters]
    · intro hconversion
      rw [hsameReturns hconversion, hreturns hconversion]

/-- What the parameter list of a member leaves of the members with its name. -/
theorem resolveMethod_memberSegment (hloaded : catalog.Loaded) (hregular : catalog.Regular)
    (hmember : catalog.memberDef? id = some member) :
    catalog.resolveMethod .none
        (.child (catalog.nameNode member.declaringType) (memberSegment member))
        (catalog.typeNodes member.parameters) (catalog.returnsNode member)
        (some member.kind.symbolKind) = some id ↔
      (∀ type, member.Spells type → type.IsFlat) ∧
        ∀ otherId other, catalog.memberDef? otherId = some other →
          member.SharesSignature id otherId other → otherId = id := by
  have hcandidates := mem_candidates_memberSegment hloaded hregular (mem_members hmember)
  have hself : catalog.signatureFits id (catalog.typeParams member.declaringType)
      (catalog.typeNodes member.parameters) (catalog.returnsNode member) = true ↔
        ∀ type, member.Spells type → type.IsFlat :=
    (signatureFits_memberReference hloaded hregular hmember hmember rfl).trans
      (readBack_types_iff hloaded hmember)
  rw [resolveMethod_eq hloaded hregular hmember,
    only?_eq_some_iff ((candidates_nodup hloaded _ _ _).filter _)]
  simp only [List.mem_filter, Bool.and_eq_true, decide_eq_true_eq]
  constructor
  · rintro ⟨⟨-, -, hfits⟩, hall⟩
    have hflat := hself.mp hfits
    refine ⟨hflat, fun otherId other hother hshares => ?_⟩
    obtain ⟨hname, harity, hfitsOther⟩ :=
      (sharesSignature_iff hloaded hregular hmember hother hflat).mp hshares
    refine hall otherId ⟨(hcandidates otherId).mpr ⟨other, hother, hname, fun _ => harity⟩, ?_,
      hfitsOther⟩
    rw [methodArity_eq hother, harity]
  · rintro ⟨hflat, hall⟩
    refine ⟨⟨(hcandidates id).mpr ⟨member, hmember, ⟨rfl, rfl, rfl⟩, fun _ => rfl⟩,
      methodArity_eq hmember, hself.mpr hflat⟩, ?_⟩
    rintro otherId ⟨hcandidate, harity, hfits⟩
    obtain ⟨other, hother, hname, -⟩ := (hcandidates otherId).mp hcandidate
    rw [methodArity_eq hother] at harity
    exact hall otherId other hother
      ((sharesSignature_iff hloaded hregular hmember hother hflat).mpr ⟨hname, harity, hfits⟩)

/-- A member's reference is resolved among the members of its kind, by its parameter list if it has
one. -/
theorem resolveReference_memberReference (catalog : Catalog) (member : MemberDef) :
    catalog.resolveReference (catalog.memberReference member) = memberSymbol
      (if member.parameters = [] then
        catalog.resolveMember .none (catalog.nameNode member.declaringType) (memberSegment member)
          (some member.kind.symbolKind)
      else catalog.resolveMethod .none
        (.child (catalog.nameNode member.declaringType) (memberSegment member))
        (catalog.typeNodes member.parameters) (catalog.returnsNode member)
        (some member.kind.symbolKind)) := by
  rw [memberReference, memberNode]
  by_cases hnil : member.parameters = []
  · rw [if_pos hnil, if_pos hnil, resolveReference]
    cases member.kind <;> rfl
  · rw [if_neg hnil, if_neg hnil, resolveReference]
    cases member.kind <;> rfl

/-- The ID of a member is read as a reference, and the reference means the member exactly when what is
written tells it from all others. With parameters, what is written are the types of the signature, but
for the ranks of arrays. Without parameters, it is no more than the name, the kind and the number of the
member's own parameters if there are any. -/
theorem encodeMember_resolves_iff {document : Text} (h : ofText document = .ok catalog)
    (hregular : catalog.Regular) (hmember : catalog.memberDef? id = some member) :
    ∃ text reference, catalog.encodeMember id = .ok text ∧ Reference.parse text = .ok reference ∧
      (catalog.resolveReference reference = .member id ↔
        (member.parameters ≠ [] ∧ (∀ type, member.Spells type → type.IsFlat) ∧
          ∀ otherId other, catalog.memberDef? otherId = some other →
            member.SharesSignature id otherId other → otherId = id) ∨
        (member.parameters = [] ∧
          ∀ otherId other, catalog.memberDef? otherId = some other → member.SharesName other →
            (member.genericParams ≠ [] →
              other.genericParams.length = member.genericParams.length) → otherId = id)) := by
  have hloaded := ofText_loaded h
  refine ⟨_, _, encodeMember_eq_written hloaded hregular hmember,
    Reference.parse_written (memberReference_wellFormed hloaded hregular hmember), ?_⟩
  rw [resolveReference_memberReference, memberSymbol_eq_member_iff]
  by_cases hnil : member.parameters = []
  · rw [if_pos hnil, resolveMember_memberSegment hloaded hregular hmember]
    simp only [hnil, ne_eq, not_true_eq_false, false_and, true_and, false_or]
  · rw [if_neg hnil, resolveMethod_memberSegment hloaded hregular hmember]
    simp only [hnil, ne_eq, not_false_eq_true, false_and, true_and, or_false]

/-- A generic type with two overloads. -/
def overloads : Catalog :=
  ⟨[⟨['A', tick, '1'], [['T']], none, [⟨0⟩, ⟨1⟩]⟩],
    [⟨⟨0⟩, [], .method, ['B'], [.param ⟨.type ⟨0⟩, 0⟩], none⟩,
      ⟨⟨0⟩, [], .method, ['B'], [.array (.param ⟨.type ⟨0⟩, 0⟩) 1], none⟩]⟩

theorem ofText_overloads :
    ofText (("[[types]]\nname='A`1'\ngeneric_params=['T']\n" ++
      "[[types.members]]\nname='B'\nkind='method'\nparameters=['`0']\n" ++
      "[[types.members]]\nname='B'\nkind='method'\nparameters=['`0[]']\n").toList) =
        .ok overloads :=
  eq_ok_of_toOption (by decide +kernel)

/-- The ID of an overload means the overload. -/
theorem encodeMember_resolves_overload :
    ∃ text reference, overloads.encodeMember ⟨1⟩ = .ok text ∧
      Reference.parse text = .ok reference ∧
      overloads.resolveReference reference = .member ⟨1⟩ := by
  have hA : Text.IsIdentifier ['A'] := ⟨'A', [], rfl, by decide +kernel, by simp⟩
  have hB : Text.IsIdentifier ['B'] := ⟨'B', [], rfl, by decide +kernel, by simp⟩
  have hregular : overloads.Regular := by
    refine ⟨?_, ?_, ?_, ?_, ?_⟩
    · refine List.forall_mem_singleton.mpr (List.forall_mem_singleton.mpr ?_)
      exact .inr ⟨['A'], 1, hA, by decide, by decide, rfl⟩
    · refine List.forall_mem_cons.mpr ⟨⟨by decide, hB⟩, List.forall_mem_singleton.mpr ⟨by decide, hB⟩⟩
    · decide +kernel
    · exact ⟨by decide +kernel, by decide +kernel⟩
    · decide +kernel
  have hmember : overloads.memberDef? ⟨1⟩ =
      some ⟨⟨0⟩, [], .method, ['B'], [.array (.param ⟨.type ⟨0⟩, 0⟩) 1], none⟩ := rfl
  obtain ⟨text, reference, hencode, hparse, hiff⟩ :=
    encodeMember_resolves_iff ofText_overloads hregular hmember
  refine ⟨text, reference, hencode, hparse, hiff.mpr (.inl ⟨nofun, ?_, ?_⟩)⟩
  · rintro type (htype | ⟨-, htype⟩)
    · rw [List.mem_singleton.mp htype]
      exact .array .param (Nat.le_refl 1)
    · cases htype
  · rintro ⟨_ | _ | place⟩ other hother hshares
    · cases hother
      exact absurd hshares.parameters (by decide +kernel)
    · rfl
    · cases hother

end Resolution

end Catalog

end DocRef

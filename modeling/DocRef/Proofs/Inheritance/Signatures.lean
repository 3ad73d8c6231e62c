import DocRef.Proofs.Inheritance.Levels
import DocRef.Proofs.TypeExpr.Parameters

/-!
Signatures through a substitution. A parameter in a signature is looked through again and again, while
`Substitution.apply` replaces it once; but where nothing that is put in is bound again, that comes to
the same (`substitutedParam_eq`). So a signature through such a substitution is the signature of the
member with its types replaced (`encodeSignature_substituted`), also in what keeps it from being
written. The views along a chain of bases are of this kind (`LevelInScope.captureFree`). A type's view
on itself binds nothing, and through it a member's signature is its ID without the type's name
(`encodeMember_of_ownSignature`).
-/

namespace DocRef

/-- Whether no parameter that stands in a bound type is bound itself. -/
def Substitution.CaptureFree (σ : Substitution) : Prop :=
  ∀ param type, σ.find? param = some type → ∀ mentioned ∈ type.params, σ.find? mentioned = none

/-- A member with a substitution applied to its parameters and to its return type. -/
def MemberDef.substituted (σ : Substitution) (member : MemberDef) : MemberDef :=
  { member with parameters := member.parameters.map σ.apply, returns := member.returns.map σ.apply }

namespace Catalog

/-- A catalog in which a substitution is applied to the types of one member. -/
def substituted (catalog : Catalog) (σ : Substitution) (id : MemberId) : Catalog :=
  { catalog with members := catalog.members.modify id.index (MemberDef.substituted σ) }

section Texts

variable {catalog : Catalog} {paramText otherText : GenericParam → Except Inconsistency Text}

/-- The text of a type depends on the texts of no other parameters. -/
theorem typeText_congr {type : TypeExpr}
    (h : ∀ param ∈ type.params, paramText param = otherText param) :
    catalog.typeText paramText type = catalog.typeText otherText type := by
  induction type using TypeExpr.inductionOn with
  | named id => rfl
  | generic definition arguments ih =>
    have htexts : catalog.typeTexts paramText arguments = catalog.typeTexts otherText arguments := by
      rw [typeTexts_eq_map, typeTexts_eq_map]
      refine List.map_congr_left fun type htype => ih type htype fun param hparam => ?_
      exact h param (TypeExpr.mem_allParams.mpr ⟨type, htype, hparam⟩)
    rw [typeText, typeText, htexts]
  | array element rank ih => rw [typeText, typeText, ih h]
  | byRef target ih => rw [typeText, typeText, ih h]
  | pointer target ih => rw [typeText, typeText, ih h]
  | param param => exact h param List.mem_cons_self

/-- A type with parameters replaced is written as the type with the texts of what was put in. -/
theorem typeText_replace (meaning : GenericParam → TypeExpr) (type : TypeExpr) :
    catalog.typeText paramText (type.replace meaning) =
      catalog.typeText (fun param => catalog.typeText paramText (meaning param)) type := by
  induction type using TypeExpr.inductionOn with
  | named id => rfl
  | generic definition arguments ih =>
    have htexts : catalog.typeTexts paramText (arguments.map (TypeExpr.replace meaning)) =
        catalog.typeTexts (fun param => catalog.typeText paramText (meaning param)) arguments := by
      rw [typeTexts_eq_map, typeTexts_eq_map, List.map_map]
      exact List.map_congr_left ih
    rw [TypeExpr.replace, TypeExpr.replaceAll_eq_map, typeText, typeText, htexts, List.length_map]
  | array element rank ih => rw [TypeExpr.replace, typeText, typeText, ih]
  | byRef target ih => rw [TypeExpr.replace, typeText, typeText, ih]
  | pointer target ih => rw [TypeExpr.replace, typeText, typeText, ih]
  | param param => rfl

/-- Only the table of types takes part in the text of a type. -/
theorem typeText_substituted (σ : Substitution) (id : MemberId) (type : TypeExpr) :
    (catalog.substituted σ id).typeText paramText type = catalog.typeText paramText type := by
  have hname : (catalog.substituted σ id).typeName = catalog.typeName := rfl
  induction type using TypeExpr.inductionOn with
  | named id => rfl
  | generic definition arguments ih =>
    have htexts : (catalog.substituted σ id).typeTexts paramText arguments =
        catalog.typeTexts paramText arguments := by
      rw [typeTexts_eq_map, typeTexts_eq_map]
      exact List.map_congr_left ih
    rw [typeText, typeText, htexts, hname]
  | array element rank ih => rw [typeText, typeText, ih]
  | byRef target ih => rw [typeText, typeText, ih]
  | pointer target ih => rw [typeText, typeText, ih]
  | param param => rfl

/-- What a bound parameter stands for has no bound parameters, so looking through it ends there. -/
theorem substitutedParam_eq {σ : Substitution} (h : σ.CaptureFree) (owners : List ParamOwner)
    (param : GenericParam) :
    catalog.substitutedParam owners σ σ.bindings.length param =
      catalog.typeText (ownParam owners) (σ.meaning param) := by
  cases hfind : σ.find? param with
  | none =>
    rw [substitutedParam_of_unbound hfind, Substitution.meaning_of_find?_eq_none hfind, typeText]
  | some type =>
    have hlength := List.length_pos_of_mem (Substitution.mem_of_find? hfind)
    obtain ⟨depth, hdepth⟩ := Nat.exists_eq_succ_of_ne_zero hlength.ne'
    rw [hdepth, substitutedParam, hfind, Substitution.meaning_of_find? hfind]
    exact typeText_congr fun mentioned hmentioned =>
      substitutedParam_of_unbound (h param type hfind mentioned hmentioned) depth

/-- A type through a substitution is written as the type that the substitution makes of it. -/
theorem typeText_substitutedParam {σ : Substitution} (h : σ.CaptureFree) (owners : List ParamOwner)
    (type : TypeExpr) :
    catalog.typeText (catalog.substitutedParam owners σ σ.bindings.length) type =
      catalog.typeText (ownParam owners) (σ.apply type) := by
  rw [Substitution.apply_eq_replace, typeText_replace]
  exact typeText_congr fun param _ => substitutedParam_eq h owners param

end Texts

section Members

variable {catalog : Catalog} {σ : Substitution} {id : MemberId}

theorem memberDef?_substituted :
    (catalog.substituted σ id).memberDef? id = (catalog.memberDef? id).map (MemberDef.substituted σ) :=
  List.getElem?_modify_eq ..

theorem isGenericMethod_substituted :
    (catalog.substituted σ id).isGenericMethod id = catalog.isGenericMethod id := by
  rw [isGenericMethod, isGenericMethod, memberDef?_substituted]
  cases catalog.memberDef? id <;> rfl

/-- A member through a substitution is written as the member with its types replaced. -/
theorem memberText_substituted (h : σ.CaptureFree) (owners : List ParamOwner) (member : MemberDef) :
    catalog.memberText id member (catalog.substitutedParam owners σ σ.bindings.length) =
      (catalog.substituted σ id).memberText id (member.substituted σ) (ownParam owners) := by
  have htexts : catalog.typeTexts (catalog.substitutedParam owners σ σ.bindings.length)
      member.parameters =
        (catalog.substituted σ id).typeTexts (ownParam owners) (member.substituted σ).parameters := by
    rw [typeTexts_eq_map, typeTexts_eq_map, MemberDef.substituted, List.map_map]
    refine List.map_congr_left fun type _ => ?_
    rw [Function.comp_apply, typeText_substituted, typeText_substitutedParam h]
  have hreturns : catalog.returnsText member
      (catalog.substitutedParam owners σ σ.bindings.length) =
        (catalog.substituted σ id).returnsText (member.substituted σ) (ownParam owners) := by
    rw [returnsText, returnsText, MemberDef.substituted]
    cases member.returns with
    | none => rfl
    | some type =>
      simp only [Option.map_some, typeText_substituted, typeText_substitutedParam h]
  have hnil : (member.substituted σ).parameters = [] ↔ member.parameters = [] :=
    List.map_eq_nil_iff
  simp only [memberText, isGenericMethod_substituted, htexts, hreturns, hnil]
  rfl

/-- A type's own view on itself binds nothing. -/
theorem encodeSignature_identity {member : MemberDef} (hmember : catalog.memberDef? id = some member)
    (target : TypeId) :
    catalog.encodeSignature id (.identity target) =
      match catalog.memberText id member (ownParam [.type target, .method id]) with
      | .ok text => .ok (member.kind.symbolKind.letter :: ':' :: text)
      | .error cause => .error ⟨member.name, cause⟩ :=
  encodeSignature_of_memberDef? hmember (.identity target)

/-- What a level sees has parameters of the chain's first type only, and on no other level are these
bound. -/
theorem LevelInScope.captureFree {target : TypeId} {level : Level}
    (h : catalog.LevelInScope target level) : level.view.CaptureFree := by
  intro param type hfind mentioned hmentioned
  obtain ⟨-, hne, hscope⟩ := h.bound param type (Substitution.mem_of_find? hfind)
  have howner := (hscope.owns_of_mem_params mentioned hmentioned).1
  apply h.find?_eq_none
  rw [howner]
  exact fun heq => hne (ParamOwner.type.inj heq).symm

/-- The signature of a member through a substitution is that of the member with its types replaced, or
there is neither, for the same reason, as long as nothing that is put in is bound again. So it is on
every level that is reached from a type. -/
theorem encodeSignature_substituted (catalog : Catalog) :
    (∀ σ : Substitution, σ.CaptureFree → ∀ id, catalog.encodeSignature id σ =
      (catalog.substituted σ id).encodeSignature id (.identity σ.target)) ∧
    ∀ document, ofText document = .ok catalog →
      ∀ id, ∀ level ∈ catalog.levels id, level.view.CaptureFree := by
  constructor
  · intro σ h id
    cases hmember : catalog.memberDef? id with
    | none =>
      rw [encodeSignature, encodeSignature, knownMember, knownMember, memberDef?_substituted, hmember]
      rfl
    | some member =>
      have hsubstituted : (catalog.substituted σ id).memberDef? id = some (member.substituted σ) := by
        rw [memberDef?_substituted, hmember, Option.map_some]
      rw [encodeSignature_of_memberDef? hmember, encodeSignature_identity hsubstituted,
        memberText_substituted h]
      rfl
  · intro document h id level hlevel
    have hloaded := ofText_loaded h
    exact ((chainOf_levels hloaded id).levelInScope hloaded level hlevel).captureFree

/-- A generic type, and another one whose base closes it over arrays. -/
def arrayed : Catalog :=
  ⟨[⟨['A', tick, '1'], [['T']], none, [⟨0⟩]⟩,
      ⟨['B', tick, '1'], [['U']], some (.generic ⟨0⟩ [.array (.param ⟨.type ⟨1⟩, 0⟩) 1]), []⟩],
    [⟨⟨0⟩, [], .method, ['M'],
      [.generic ⟨0⟩ [.param ⟨.type ⟨0⟩, 0⟩], .pointer (.param ⟨.type ⟨0⟩, 0⟩)], none⟩]⟩

theorem ofText_arrayed :
    ofText (("[[types]]\nname='A`1'\ngeneric_params=['T']\n" ++
      "[[types.members]]\nname='M'\nkind='method'\nparameters=['A\x7b`0\x7d','`0*']\n" ++
      "[[types]]\nname='B`1'\ngeneric_params=['U']\nbase='A\x7b`0[]\x7d'\n").toList) =
        .ok arrayed :=
  eq_ok_of_toOption (by decide +kernel)

/-- The method of the base takes arrays of the derived type's parameter, inside a generic type too. -/
theorem encodeSignature_substituted_arrayed :
    ∃ view : Substitution, ⟨⟨0⟩, view⟩ ∈ arrayed.levels ⟨1⟩ ∧ view.CaptureFree ∧
      arrayed.encodeSignature ⟨0⟩ view = .ok "M:M(A\x7b`0[]\x7d,`0[]*)".toList ∧
      (arrayed.substituted view ⟨0⟩).encodeSignature ⟨0⟩ (.identity ⟨1⟩) =
        .ok "M:M(A\x7b`0[]\x7d,`0[]*)".toList := by
  have hlevel : ⟨⟨0⟩, ⟨⟨1⟩, [(⟨.type ⟨0⟩, 0⟩, .array (.param ⟨.type ⟨1⟩, 0⟩) 1)]⟩⟩ ∈
      arrayed.levels ⟨1⟩ := by decide +kernel
  have hfree := (encodeSignature_substituted arrayed).2 _ ofText_arrayed _ _ hlevel
  refine ⟨_, hlevel, hfree, eq_ok_of_toOption (by decide +kernel), ?_⟩
  rw [← (encodeSignature_substituted arrayed).1 _ hfree]
  exact eq_ok_of_toOption (by decide +kernel)

/-- Every member has a signature as its own type sees it, and the ID of the member is this signature
with the name of the type and a dot put behind the letter and the colon. -/
theorem encodeMember_of_ownSignature {document : Text} {catalog : Catalog}
    (h : ofText document = .ok catalog) (hbounded : catalog.ListsBounded) {id : MemberId}
    {member : MemberDef} (hmember : catalog.memberDef? id = some member) :
    ∃ (declaring : TypeDef) (text : Text),
      catalog.typeDef? member.declaringType = some declaring ∧
      catalog.encodeSignature id (.identity member.declaringType) =
        .ok (member.kind.symbolKind.letter :: ':' :: text) ∧
      catalog.encodeMember id =
        .ok (member.kind.symbolKind.letter :: ':' :: (declaring.name ++ '.' :: text)) := by
  have hloaded := ofText_loaded h
  obtain ⟨count, hcount⟩ := (hloaded.member hmember).declaring
  obtain ⟨declaring, hdeclaring, -⟩ := typeDef?_of_arity? hcount
  have hown : id ∈ catalog.membersOf member.declaringType :=
    (hloaded.mem_membersOf _ _).mpr ⟨member, hmember, rfl⟩
  obtain ⟨signature, hsignature⟩ :=
    encodeSignature_ok hloaded hbounded (levelInScope_identity member.declaringType) hown
  -- The two texts are made with the same texts of parameters, so there is one if there is the other.
  have hidentity := encodeSignature_identity hmember member.declaringType
  cases htext : catalog.memberText id member
      (ownParam [.type member.declaringType, .method id]) with
  | error cause =>
    rw [htext, hsignature] at hidentity
    cases hidentity
  | ok text =>
    rw [htext] at hidentity
    exact ⟨declaring, text, hdeclaring, hidentity,
      encodeMember_of_memberText hmember hdeclaring htext⟩

/-- The method of `arrayed` takes its own type closed over the type's parameter. -/
theorem encodeMember_of_ownSignature_arrayed :
    arrayed.encodeSignature ⟨0⟩ (.identity ⟨0⟩) = .ok "M:M(A\x7b`0\x7d,`0*)".toList ∧
      arrayed.encodeMember ⟨0⟩ = .ok "M:A`1.M(A\x7b`0\x7d,`0*)".toList := by
  have hbounded : arrayed.ListsBounded := ⟨by decide +kernel, by decide +kernel⟩
  have hsignature : arrayed.encodeSignature ⟨0⟩ (.identity ⟨0⟩) =
      .ok "M:M(A\x7b`0\x7d,`0*)".toList := eq_ok_of_toOption (by decide +kernel)
  obtain ⟨declaring, text, hdeclaring, hown, hid⟩ :=
    @encodeMember_of_ownSignature _ _ ofText_arrayed hbounded ⟨0⟩ _ rfl
  rw [hsignature] at hown
  cases hdeclaring
  cases hown
  exact ⟨hsignature, hid⟩

end Members

end Catalog

end DocRef

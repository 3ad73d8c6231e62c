import DocRef.Proofs.CanonicalId.Totality
import DocRef.Proofs.Inheritance.Levels
import DocRef.Proofs.Renumbering

/-!
Texts know no ids. What is in scope of a catalog is written alike wherever the catalog is found: types
(`Embeds.typeText`), members and their signatures, and so the IDs of all that references mean. This
holds of failures as well: what has no ID has none for the same cause.
-/

namespace DocRef

variable {ρ : Renumbering}

/-! ### Parameters -/

theorem GenericParam.positional_renumber (p : GenericParam) :
    (p.renumber ρ).positional = p.positional := by
  obtain ⟨owner, position⟩ := p
  cases owner <;> rfl

theorem Substitution.find?_renumber (σ : Substitution) (p : GenericParam) :
    (σ.renumber ρ).find? (p.renumber ρ) = (σ.find? p).map (TypeExpr.renumber ρ) := by
  have hsame : ∀ binding : GenericParam × TypeExpr,
      decide (binding.1.renumber ρ = p.renumber ρ) = decide (binding.1 = p) :=
    fun binding => decide_eq_decide.mpr (GenericParam.renumber_inj ρ)
  rw [find?, find?, renumber, List.find?_map, Option.map_map, Option.map_map]
  simp only [Function.comp_def, hsame]

namespace Catalog

variable {catalog other : Catalog}

theorem ownParam_renumber (owners : List ParamOwner) (p : GenericParam) :
    ownParam (owners.map (ParamOwner.renumber ρ)) (p.renumber ρ) = ownParam owners p := by
  have hmem : (p.renumber ρ).owner ∈ owners.map (ParamOwner.renumber ρ) ↔ p.owner ∈ owners :=
    List.mem_map_of_injective fun _ _ => (ParamOwner.renumber_inj ρ).mp
  rw [ownParam, ownParam, GenericParam.positional_renumber]
  exact if_congr hmem rfl rfl

/-! ### Types -/

theorem Embeds.typeName (h : catalog.Embeds ρ other) {id : TypeId} {count : Nat}
    (harity : catalog.arity? id = some count) :
    other.typeName (ρ.type id) = catalog.typeName id := by
  obtain ⟨type, htype, -⟩ := typeDef?_of_arity? harity
  rw [typeName_eq htype, typeName_eq (h.typeDef? htype)]
  rfl

theorem Embeds.encodeType (h : catalog.Embeds ρ other) {id : TypeId} {count : Nat}
    (harity : catalog.arity? id = some count) :
    other.encodeType (ρ.type id) = catalog.encodeType id := by
  rw [Catalog.encodeType, Catalog.encodeType, h.typeName harity]

section Types

variable {paramText otherText : GenericParam → Except Inconsistency Text}
  {owns : GenericParam → Prop}

/-- A type in scope is written alike if its parameters are. -/
theorem Embeds.typeText (h : catalog.Embeds ρ other)
    (hparams : ∀ p, owns p → otherText (p.renumber ρ) = paramText p) {type : TypeExpr}
    (htype : type.WellScoped catalog.arity? owns) :
    other.typeText otherText (type.renumber ρ) = catalog.typeText paramText type := by
  induction htype with
  | named harity => exact h.typeName harity
  | @generic definition arguments _ harity _ ih =>
    have htexts : other.typeTexts otherText (arguments.map (TypeExpr.renumber ρ)) =
        catalog.typeTexts paramText arguments := by
      rw [typeTexts_eq_map, typeTexts_eq_map, List.map_map]
      exact List.map_congr_left ih
    rw [TypeExpr.renumber, TypeExpr.renumberAll_eq_map, Catalog.typeText, Catalog.typeText,
      h.typeName harity, htexts, List.length_map]
  | array _ ih => rw [TypeExpr.renumber, Catalog.typeText, Catalog.typeText, ih]
  | byRef _ ih => rw [TypeExpr.renumber, Catalog.typeText, Catalog.typeText, ih]
  | pointer _ ih => rw [TypeExpr.renumber, Catalog.typeText, Catalog.typeText, ih]
  | param howns => exact hparams _ howns

theorem Embeds.typeTexts (h : catalog.Embeds ρ other)
    (hparams : ∀ p, owns p → otherText (p.renumber ρ) = paramText p) {types : List TypeExpr}
    (htypes : ∀ type ∈ types, type.WellScoped catalog.arity? owns) :
    other.typeTexts otherText (types.map (TypeExpr.renumber ρ)) =
      catalog.typeTexts paramText types := by
  rw [typeTexts_eq_map, typeTexts_eq_map, List.map_map]
  exact List.map_congr_left fun type htype => h.typeText hparams (htypes type htype)

end Types

/-! ### Members -/

section Members

variable {paramText otherText : GenericParam → Except Inconsistency Text} {id : MemberId}
  {member : MemberDef}

theorem Embeds.isGenericMethod (h : catalog.Embeds ρ other)
    (hmember : catalog.memberDef? id = some member) :
    other.isGenericMethod (ρ.member id) = catalog.isGenericMethod id := by
  rw [Catalog.isGenericMethod, Catalog.isGenericMethod, hmember, h.memberDef? hmember]
  rfl

theorem Embeds.knownMember (h : catalog.Embeds ρ other)
    (hmember : catalog.memberDef? id = some member) :
    other.knownMember (ρ.member id) = .ok (member.renumber ρ) := by
  rw [Catalog.knownMember, h.memberDef? hmember]

theorem Embeds.memberText (h : catalog.Embeds ρ other) (hloaded : catalog.Loaded)
    (hmember : catalog.memberDef? id = some member)
    (hparams : ∀ p, Owns member.declaringType (catalog.genericArity member.declaringType) id
      member.genericParams.length p → otherText (p.renumber ρ) = paramText p) :
    other.memberText (ρ.member id) (member.renumber ρ) otherText =
      catalog.memberText id member paramText := by
  have hscope := (hloaded.member hmember).scope
  have hparameters : other.typeTexts otherText (member.renumber ρ).parameters =
      catalog.typeTexts paramText member.parameters :=
    h.typeTexts hparams fun type htype => hscope type (List.mem_append_left _ htype)
  have hreturns : other.returnsText (member.renumber ρ) otherText =
      catalog.returnsText member paramText := by
    rw [returnsText, returnsText, MemberDef.renumber]
    cases hdeclared : member.returns with
    | none => rfl
    | some type =>
      have htype : type ∈ member.types :=
        List.mem_append_right _ (by rw [hdeclared]; exact List.mem_singleton_self type)
      simp only [Option.map_some, h.typeText hparams (hscope type htype)]
  have hnil : (member.renumber ρ).parameters = [] ↔ member.parameters = [] := List.map_eq_nil_iff
  simp only [Catalog.memberText, h.isGenericMethod hmember, hparameters, hreturns, hnil]
  rfl

/-- Every member has the same ID elsewhere. -/
theorem Embeds.encodeMember (h : catalog.Embeds ρ other) (hloaded : catalog.Loaded)
    (hmember : catalog.memberDef? id = some member) :
    other.encodeMember (ρ.member id) = catalog.encodeMember id := by
  obtain ⟨count, harity⟩ := (hloaded.member hmember).declaring
  have hname : other.typeName (member.renumber ρ).declaringType =
      catalog.typeName member.declaringType := h.typeName harity
  have htext : other.memberText (ρ.member id) (member.renumber ρ)
        (ownParam [.type (member.renumber ρ).declaringType, .method (ρ.member id)]) =
      catalog.memberText id member (ownParam [.type member.declaringType, .method id]) := by
    apply h.memberText hloaded hmember
    exact fun p _ => ownParam_renumber [.type member.declaringType, .method id] p
  rw [encodeMember_of_memberDef? (h.memberDef? hmember), encodeMember_of_memberDef? hmember, hname, htext]
  rfl

/-- What a parameter stands for is written alike, however deep it is looked through. -/
theorem Embeds.substitutedParam (h : catalog.Embeds ρ other) (owners : List ParamOwner)
    {σ : Substitution} {owns : GenericParam → Prop}
    (hbound : ∀ p type, (p, type) ∈ σ.bindings → type.WellScoped catalog.arity? owns)
    (depth : Nat) (p : GenericParam) :
    other.substitutedParam (owners.map (ParamOwner.renumber ρ)) (σ.renumber ρ) depth (p.renumber ρ) =
      catalog.substitutedParam owners σ depth p := by
  induction depth generalizing p with
  | zero => exact ownParam_renumber owners p
  | succ depth ih =>
    rw [Catalog.substitutedParam, Catalog.substitutedParam, Substitution.find?_renumber]
    cases hfind : σ.find? p with
    | none => exact ownParam_renumber owners p
    | some type =>
      exact h.typeText (fun q _ => ih q) (hbound p type (Substitution.mem_of_find? hfind))

/-- Every member has the same signature as seen from the same level elsewhere. -/
theorem Embeds.encodeSignature (h : catalog.Embeds ρ other) (hloaded : catalog.Loaded)
    (hmember : catalog.memberDef? id = some member) {target : TypeId} {level : Level}
    (hlevel : catalog.LevelInScope target level) :
    other.encodeSignature (ρ.member id) (level.view.renumber ρ) =
      catalog.encodeSignature id level.view := by
  have hlength : (level.view.renumber ρ).bindings.length = level.view.bindings.length :=
    List.length_map _
  have htext : other.memberText (ρ.member id) (member.renumber ρ) (other.substitutedParam
        [.type (level.view.renumber ρ).target, .method (ρ.member id)] (level.view.renumber ρ)
        level.view.bindings.length) =
      catalog.memberText id member (catalog.substitutedParam
        [.type level.view.target, .method id] level.view level.view.bindings.length) := by
    apply h.memberText hloaded hmember
    intro p _
    exact h.substitutedParam [.type level.view.target, .method id]
      (fun q type hmem => (hlevel.bound q type hmem).2.2) _ p
  rw [encodeSignature_of_memberDef? (h.memberDef? hmember), encodeSignature_of_memberDef? hmember,
    hlength, htext]
  rfl

end Members

/-! ### Symbols -/

/-- What a reference means has the same ID elsewhere. -/
theorem Embeds.encodeSymbol (h : catalog.Embeds ρ other) (hloaded : catalog.Loaded)
    {symbol : Symbol} (hsymbol : catalog.Holds symbol) :
    other.encodeSymbol (symbol.renumber ρ) = catalog.encodeSymbol symbol := by
  cases symbol with
  | member id =>
    obtain ⟨member, hmember⟩ := hsymbol
    rw [Symbol.renumber, Catalog.encodeSymbol, Catalog.encodeSymbol,
      h.encodeMember hloaded hmember]
  | type type =>
    have htext : other.typeText (ownParam []) (type.renumber ρ) =
        catalog.typeText (ownParam []) type :=
      h.typeText (fun p _ => ownParam_renumber [] p) hsymbol
    rw [Symbol.renumber, Catalog.encodeSymbol, Catalog.encodeSymbol, htext]
  | unresolved => rfl

end Catalog

end DocRef

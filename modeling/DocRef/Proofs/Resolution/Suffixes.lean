import DocRef.Catalog.File
import DocRef.Proofs.Resolution.Candidates

/-!
Return types in references. The suffix of a parameter list and the return type of a member are compared
as far as there are any, so a suffix is matched (`Matched`) only by a member that declares a return
type. A member without one is found by every suffix that means nothing (`resolveReference_suffix`).
-/

namespace DocRef.Catalog

/-- Whether a suffix and a return type are there and the same. -/
def Matched (catalog : Catalog) (bindings : Bindings) (suffix : Node) (returns : Option TypeExpr) :
    Prop :=
  ∃ type, catalog.resolveType bindings suffix = some type ∧ returns = some type

/-- Whether neither a suffix means a type nor a return type is there. -/
def BothAbsent (catalog : Catalog) (bindings : Bindings) (suffix : Node)
    (returns : Option TypeExpr) : Prop :=
  catalog.resolveType bindings suffix = none ∧ returns = none

variable {catalog : Catalog}

theorem matched_or_bothAbsent {bindings : Bindings} {suffix : Node} {returns : Option TypeExpr}
    (h : catalog.resolveType bindings suffix = returns) :
    catalog.Matched bindings suffix returns ∨ catalog.BothAbsent bindings suffix returns := by
  cases returns with
  | none => exact .inr ⟨h, rfl⟩
  | some type => exact .inl ⟨type, h, rfl⟩

/-- Whatever the kind that is asked for, a parameter list is resolved among the members. -/
theorem exists_resolveMethod {reference : Reference} {head : Node} {parameters : List Node}
    {returns : Option Node} {id : MemberId} (hnode : reference.node = .method head parameters returns)
    (h : catalog.resolveReference reference = .member id) :
    ∃ kind, catalog.resolveMethod .none head parameters returns kind = some id := by
  obtain ⟨kind, node⟩ := reference
  cases hnode
  cases kind with
  | none => exact ⟨none, memberSymbol_eq_member_iff.mp h⟩
  | some kind =>
    cases kind with
    | type => cases h
    | _ => exact ⟨_, memberSymbol_eq_member_iff.mp h⟩

/-- The member that a reference with a suffix means has the parameters of the list; and the suffix is
its return type, unless it declares none, when the suffix means nothing. -/
theorem resolveReference_suffix {document : Text} (h : ofText document = .ok catalog)
    {reference : Reference} {head suffix : Node} {parameters : List Node} {id : MemberId}
    (hnode : reference.node = .method head parameters (some suffix))
    (hmeans : catalog.resolveReference reference = .member id) :
    ∃ scope text declaring member, head = .child scope text ∧
      catalog.resolveType .none scope = some declaring ∧
      declaring.definition? = some member.declaringType ∧ catalog.memberDef? id = some member ∧
      catalog.resolveAll (catalog.listBindings declaring id) parameters = some member.parameters ∧
      (catalog.Matched (catalog.listBindings declaring id) suffix member.returns ∨
        catalog.BothAbsent (catalog.listBindings declaring id) suffix member.returns) := by
  obtain ⟨kind, hmethod⟩ := exists_resolveMethod hnode hmeans
  obtain ⟨scope, text, declaring, definition, rfl, hdeclaring, hdefinition, hcandidate, hfits⟩ :=
    exists_of_resolveMethod hmethod
  obtain ⟨member, hmember, rfl, -⟩ :=
    (mem_candidates (ofText_loaded h) rfl definition kind id).mp hcandidate
  obtain ⟨hparameters, hreturns⟩ := (signatureFits_iff hmember _ _ _).mp hfits
  exact ⟨scope, text, declaring, member, rfl, hdeclaring, hdefinition, hmember, hparameters,
    matched_or_bothAbsent (hreturns suffix rfl)⟩

/-- A type with a method that declares no return type and one that declares one. -/
def partlyReturning : Catalog :=
  ⟨[⟨['A'], [], none, [⟨0⟩, ⟨1⟩]⟩],
    [⟨⟨0⟩, [], .method, ['F'], [], none⟩, ⟨⟨0⟩, [], .method, ['G'], [], some (.named ⟨0⟩)⟩]⟩

theorem ofText_partlyReturning :
    ofText (("[[types]]\nname='A'\n[[types.members]]\nname='F'\nkind='method'\n" ++
      "[[types.members]]\nname='G'\nkind='method'\nreturns='A'\n").toList) = .ok partlyReturning :=
  eq_ok_of_toOption (by decide +kernel)

/-- A suffix that is the return type of the member is matched. -/
theorem resolveReference_matchedSuffix : ∃ scope text declaring member,
    Node.child (.root ['A']) ['G'] = .child scope text ∧
      partlyReturning.resolveType .none scope = some declaring ∧
      declaring.definition? = some member.declaringType ∧
      partlyReturning.memberDef? ⟨1⟩ = some member ∧
      partlyReturning.resolveAll (partlyReturning.listBindings declaring ⟨1⟩) [] =
        some member.parameters ∧
      partlyReturning.Matched (partlyReturning.listBindings declaring ⟨1⟩) (.root ['A'])
        member.returns := by
  have hmeans : partlyReturning.resolveReference
      ⟨none, .method (.child (.root ['A']) ['G']) [] (some (.root ['A']))⟩ = .member ⟨1⟩ := by
    decide +kernel
  obtain ⟨scope, text, declaring, member, hhead, hdeclaring, hdefinition, hmember, hparameters,
    hmatched | ⟨-, habsent⟩⟩ := resolveReference_suffix ofText_partlyReturning rfl hmeans
  · exact ⟨scope, text, declaring, member, hhead, hdeclaring, hdefinition, hmember, hparameters,
      hmatched⟩
  · cases hmember
    cases habsent

/-- A suffix that names no type finds a member that declares no return type. -/
theorem resolveReference_unmatchedSuffix :
    ∃ reference, Reference.parse "A.F()~Missing".toList = .ok reference ∧
      reference.node =
        .method (.child (.root ['A']) ['F']) [] (some (.root "Missing".toList)) ∧
      partlyReturning.resolveReference reference = .member ⟨0⟩ ∧
      ∀ bindings, partlyReturning.BothAbsent bindings (.root "Missing".toList)
        ((partlyReturning.memberDef? ⟨0⟩).bind MemberDef.returns) := by
  refine ⟨⟨none, .method (.child (.root ['A']) ['F']) [] (some (.root "Missing".toList))⟩,
    eq_ok_of_toOption (by decide +kernel), rfl, by decide +kernel, fun bindings => ⟨?_, rfl⟩⟩
  show partlyReturning.resolveType .none (.root "Missing".toList) = none
  decide +kernel

end DocRef.Catalog

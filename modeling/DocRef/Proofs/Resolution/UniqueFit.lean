import DocRef.Catalog.File
import DocRef.Proofs.Resolution.Candidates

/-!
Which member a reference means. Among the members that a type declares, those fit that have the name,
the kind and the number of parameters of their own that the reference states, and the parameters of its
list if it has one. The reference means the only one that fits, and nothing if none or several do
(`resolveReference_picks`).
-/

namespace DocRef

/-- Whether a symbol is the member that has a property, and stands for nothing if none has it. -/
structure Symbol.Picks (symbol : Symbol) (p : MemberId → Prop) : Prop where
  member_iff : ∀ id, symbol = .member id ↔ p id
  unresolved : (∀ id, ¬ p id) → symbol = .unresolved

/-- Whether a member has the name that a stem stands for, and the kind that is asked for if one is. -/
structure MemberDef.HasName (stem : Text) (kind : Option SymbolKind) (member : MemberDef) : Prop where
  name : member.name = stem.exchange '#' '.'
  kind : ∀ demanded ∈ kind, member.kind.symbolKind = demanded

namespace Catalog

/-- Whether a member fits a segment alone: of its own parameters, it need have no certain number unless
the segment states one. -/
def FitsSegment (stem : Text) (kind : Option SymbolKind) (count : Option Nat) (member : MemberDef) :
    Prop :=
  member.HasName stem kind ∧ ∀ stated ∈ count, member.genericParams.length = stated

/-- Whether a member fits a segment with a parameter list behind it. The list means exactly the types of
the member's parameters, in order, and without a marker the member has no parameters of its own. -/
def FitsList (catalog : Catalog) (stem : Text) (kind : Option SymbolKind) (count : Option Nat)
    (parameters : List Node) (declaring : TypeExpr) (id : MemberId) (member : MemberDef) : Prop :=
  member.HasName stem kind ∧ member.genericParams.length = count.getD 0 ∧
    List.Forall₂ (fun node type =>
      catalog.resolveType (catalog.listBindings declaring id) node = some type)
      parameters member.parameters

/-- Whether a scope means a type, open or closed, that declares exactly one member that fits, and what
member that is. -/
def OnlyFit (catalog : Catalog) (scope : Node) (fits : TypeExpr → MemberId → MemberDef → Prop)
    (id : MemberId) : Prop :=
  ∃ declaring definition, catalog.resolveType .none scope = some declaring ∧
    declaring.definition? = some definition ∧ id ∈ catalog.membersOf definition ∧
    (∃ member, catalog.memberDef? id = some member ∧ fits declaring id member) ∧
    ∀ otherId ∈ catalog.membersOf definition, ∀ other, catalog.memberDef? otherId = some other →
      fits declaring otherId other → otherId = id

variable {catalog : Catalog}

theorem resolveAll_eq_some_iff {bindings : Bindings} {nodes : List Node} {types : List TypeExpr} :
    catalog.resolveAll bindings nodes = some types ↔
      List.Forall₂ (fun node type => catalog.resolveType bindings node = some type) nodes types := by
  induction nodes generalizing types with
  | nil => rw [List.forall₂_nil_left_iff, resolveAll, Option.some.injEq, eq_comm]
  | cons node nodes ih =>
    simp only [resolveAll, Option.bind_eq_bind, Option.bind_eq_some_iff, List.forall₂_cons_left_iff,
      ← ih]
    constructor
    · rintro ⟨type, htype, rest, hrest, heq⟩
      cases heq
      exact ⟨type, rest, htype, hrest, rfl⟩
    · rintro ⟨type, rest, htype, hrest, rfl⟩
      exact ⟨type, htype, rest, hrest, rfl⟩

section Fits

variable {kind : Option SymbolKind} {text stem : Text} {count : Option Nat}

/-- The members that a segment can mean are those that its type declares and that fit it. -/
theorem mem_candidates_iff (hloaded : catalog.Loaded)
    (hsplit : splitArity text = (stem, count.elim .none .method)) (definition : TypeId)
    (id : MemberId) :
    id ∈ catalog.candidates definition text kind ↔ id ∈ catalog.membersOf definition ∧
      ∃ member, catalog.memberDef? id = some member ∧ FitsSegment stem kind count member := by
  have hcount : ∀ member : MemberDef,
      ((∀ stated, count.elim Arity.none .method = .method stated →
          member.genericParams.length = stated) ∧
        ∀ stated, count.elim Arity.none .method ≠ .type stated) ↔
      ∀ stated ∈ count, member.genericParams.length = stated := by
    intro member
    cases count with
    | none => simp
    | some stated => simp
  rw [mem_candidates hloaded hsplit, hloaded.mem_membersOf]
  constructor
  · rintro ⟨member, hmember, hdeclaring, hname, hkind, hstated⟩
    exact ⟨⟨member, hmember, hdeclaring⟩, member, hmember, ⟨hname, hkind⟩,
      (hcount member).mp hstated⟩
  · rintro ⟨⟨member, hmember, hdeclaring⟩, other, hother, ⟨hname, hkind⟩, hstated⟩
    rw [hmember] at hother
    cases hother
    exact ⟨member, hmember, hdeclaring, hname, hkind, (hcount member).mpr hstated⟩

/-- A search among the members of the type that a scope means finds the only one that fits. -/
theorem bind_only?_eq_some_iff {scope : Node} {fits : TypeExpr → MemberId → MemberDef → Prop}
    {ids : TypeExpr → TypeId → List MemberId}
    (hnodup : ∀ declaring definition, (ids declaring definition).Nodup)
    (hids : ∀ declaring definition id, id ∈ ids declaring definition ↔
      id ∈ catalog.membersOf definition ∧
        ∃ member, catalog.memberDef? id = some member ∧ fits declaring id member) (id : MemberId) :
    ((catalog.resolveType .none scope).bind fun declaring =>
        declaring.definition?.bind fun definition => only? (ids declaring definition)) = some id ↔
      catalog.OnlyFit scope fits id := by
  simp only [Option.bind_eq_some_iff]
  constructor
  · rintro ⟨declaring, hscope, definition, hdefinition, honly⟩
    obtain ⟨hid, hall⟩ := (only?_eq_some_iff (hnodup declaring definition) id).mp honly
    obtain ⟨hmem, hfits⟩ := (hids declaring definition id).mp hid
    refine ⟨declaring, definition, hscope, hdefinition, hmem, hfits, ?_⟩
    intro otherId hotherMem other hother hotherFits
    exact hall otherId ((hids _ _ otherId).mpr ⟨hotherMem, other, hother, hotherFits⟩)
  · rintro ⟨declaring, definition, hscope, hdefinition, hmem, hfits, hall⟩
    refine ⟨declaring, hscope, definition, hdefinition, ?_⟩
    refine (only?_eq_some_iff (hnodup declaring definition) id).mpr ⟨?_, ?_⟩
    · exact (hids declaring definition id).mpr ⟨hmem, hfits⟩
    · intro otherId hotherId
      obtain ⟨hotherMem, other, hother, hotherFits⟩ := (hids _ _ otherId).mp hotherId
      exact hall otherId hotherMem other hother hotherFits

/-- Without a parameter list, a segment means the only member that fits it. -/
theorem resolveMember_eq_some_iff (hloaded : catalog.Loaded)
    (hsplit : splitArity text = (stem, count.elim .none .method)) (scope : Node) (id : MemberId) :
    catalog.resolveMember .none scope text kind = some id ↔
      catalog.OnlyFit scope (fun _ _ => FitsSegment stem kind count) id := by
  apply bind_only?_eq_some_iff
  · exact fun _ definition => candidates_nodup hloaded definition text kind
  · exact fun _ definition => mem_candidates_iff hloaded hsplit definition

/-- A candidate for a segment stays one with a list behind it if it fits that too. -/
theorem mem_fitting_iff (hloaded : catalog.Loaded)
    (hsplit : splitArity text = (stem, count.elim .none .method)) {declaring : TypeExpr}
    (definition : TypeId) (parameters : List Node) (id : MemberId) :
    id ∈ (catalog.candidates definition text kind).filter (fun id =>
        catalog.methodArity id = count.getD 0 && catalog.signatureFits id
          (catalog.listBindings declaring id).typeArgs parameters none) ↔
      id ∈ catalog.membersOf definition ∧ ∃ member, catalog.memberDef? id = some member ∧
        catalog.FitsList stem kind count parameters declaring id member := by
  rw [List.mem_filter, Bool.and_eq_true, decide_eq_true_eq, mem_candidates_iff hloaded hsplit]
  constructor
  · rintro ⟨⟨hmem, member, hmember, hname, -⟩, harity, hfits⟩
    rw [methodArity_eq hmember] at harity
    have hparameters := ((signatureFits_iff hmember _ _ _).mp hfits).1
    exact ⟨hmem, member, hmember, hname, harity, resolveAll_eq_some_iff.mp hparameters⟩
  · rintro ⟨hmem, member, hmember, hname, harity, hparameters⟩
    refine ⟨⟨hmem, member, hmember, hname, ?_⟩, ?_, ?_⟩
    · intro stated hstated
      rw [harity, Option.mem_def.mp hstated, Option.getD_some]
    · rw [methodArity_eq hmember, harity]
    · exact (signatureFits_iff hmember _ _ _).mpr ⟨resolveAll_eq_some_iff.mpr hparameters, nofun⟩

/-- With a parameter list, a segment means the only member that fits it and the list. -/
theorem resolveMethod_eq_some_iff (hloaded : catalog.Loaded)
    (hsplit : splitArity text = (stem, count.elim .none .method)) (scope : Node)
    (parameters : List Node) (id : MemberId) :
    catalog.resolveMethod .none (.child scope text) parameters none kind = some id ↔
      catalog.OnlyFit scope (catalog.FitsList stem kind count parameters) id := by
  have hcount : markedCount text = count.getD 0 := by
    rw [markedCount, hsplit]
    cases count <;> rfl
  rw [resolveMethod_child, hcount]
  apply bind_only?_eq_some_iff
  · exact fun _ definition => (candidates_nodup hloaded definition text kind).filter _
  · exact fun _ definition => mem_fitting_iff hloaded hsplit definition parameters

theorem memberSymbol_picks {found : Option MemberId} {p : MemberId → Prop}
    (h : ∀ id, found = some id ↔ p id) : (memberSymbol found).Picks p := by
  refine ⟨fun id => memberSymbol_eq_member_iff.trans (h id), ?_⟩
  intro hnone
  cases hfound : found with
  | none => rfl
  | some id => exact absurd ((h id).mp hfound) (hnone id)

/-- A reference with the letter of members, or without a letter if it is no type, means the only member
that its segment fits, and with a parameter list the only one that fits that as well. If none or several
fit, it means nothing. -/
theorem resolveReference_picks {document : Text} (h : ofText document = .ok catalog)
    (hkind : kind ≠ some .type) (hsplit : splitArity text = (stem, count.elim .none .method))
    (scope : Node) :
    ((kind = none → catalog.resolveType .none (.child scope text) = none) →
      (catalog.resolveReference ⟨kind, .child scope text⟩).Picks
        (catalog.OnlyFit scope fun _ _ => FitsSegment stem kind count)) ∧
    ∀ parameters,
      (catalog.resolveReference ⟨kind, .method (.child scope text) parameters none⟩).Picks
        (catalog.OnlyFit scope (catalog.FitsList stem kind count parameters)) := by
  have hloaded := ofText_loaded h
  constructor
  · intro htype
    have hmember : catalog.resolveReference ⟨kind, .child scope text⟩ =
        memberSymbol (catalog.resolveMember .none scope text kind) := by
      cases kind with
      | none => simp only [resolveReference, resolve, htype rfl]
      | some kind =>
        cases kind with
        | type => exact absurd rfl hkind
        | _ => rfl
    rw [hmember]
    exact memberSymbol_picks (resolveMember_eq_some_iff hloaded hsplit scope)
  · intro parameters
    have hmethod : catalog.resolveReference ⟨kind, .method (.child scope text) parameters none⟩ =
        memberSymbol
          (catalog.resolveMethod .none (.child scope text) parameters none kind) := by
      cases kind with
      | none => rfl
      | some kind =>
        cases kind with
        | type => exact absurd rfl hkind
        | _ => rfl
    rw [hmethod]
    exact memberSymbol_picks (resolveMethod_eq_some_iff hloaded hsplit scope parameters)

end Fits

/-- A generic type with two overloads, the second of them generic. -/
def genericOverload : Catalog :=
  ⟨[⟨['A', tick, '1'], [['T']], none, [⟨0⟩, ⟨1⟩]⟩],
    [⟨⟨0⟩, [], .method, ['B'], [.param ⟨.type ⟨0⟩, 0⟩], none⟩,
      ⟨⟨0⟩, [['U']], .method, ['B'], [.param ⟨.method ⟨1⟩, 0⟩], none⟩]⟩

theorem ofText_genericOverload :
    ofText (("[[types]]\nname='A`1'\ngeneric_params=['T']\n" ++
      "[[types.members]]\nname='B'\nkind='method'\nparameters=['`0']\n" ++
      "[[types.members]]\nname='B'\nkind='method'\ngeneric_params=['U']\nparameters=['``0']\n").toList) =
        .ok genericOverload :=
  eq_ok_of_toOption (by decide +kernel)

/-- Without a list both overloads fit, so none is meant; a list leaves the one that is not generic. -/
theorem resolveReference_picks_overload :
    genericOverload.resolveReference ⟨none, .child (.root ['A', tick, '1']) ['B']⟩ = .unresolved ∧
      (∀ id, ¬ genericOverload.OnlyFit (.root ['A', tick, '1'])
        (fun _ _ => FitsSegment ['B'] none none) id) ∧
      genericOverload.OnlyFit (.root ['A', tick, '1'])
        (genericOverload.FitsList ['B'] none none [.typeParam 0]) ⟨0⟩ := by
  have hsplit : splitArity ['B'] = (['B'], (none : Option Nat).elim .none .method) := by decide
  have hbare : genericOverload.resolveReference ⟨none, .child (.root ['A', tick, '1']) ['B']⟩ =
      .unresolved := by decide +kernel
  have hlist : genericOverload.resolveReference
      ⟨none, .method (.child (.root ['A', tick, '1']) ['B']) [.typeParam 0] none⟩ = .member ⟨0⟩ := by
    decide +kernel
  obtain ⟨hsegment, hparameters⟩ := @resolveReference_picks genericOverload none ['B'] ['B'] none _
    ofText_genericOverload nofun hsplit (.root ['A', tick, '1'])
  have htype : genericOverload.resolveType .none (.child (.root ['A', tick, '1']) ['B']) = none := by
    decide +kernel
  refine ⟨hbare, ?_, ((hparameters [.typeParam 0]).member_iff ⟨0⟩).mp hlist⟩
  intro id hid
  have hmember := ((hsegment fun _ => htype).member_iff id).mpr hid
  rw [hbare] at hmember
  cases hmember

end Catalog

end DocRef

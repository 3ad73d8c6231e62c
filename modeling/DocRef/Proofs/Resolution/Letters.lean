import DocRef.Proofs.Resolution.Candidates

/-!
What the letter of a reference changes. A letter leaves the search for a member as it is, but for the
candidates of other kinds, which it takes out before one is chosen (`candidates_kind`). So it gives a
reference no other meaning than the one without it: what means a type or a member without a letter means
the same with the letter of that, and nothing with any other (`lettersRefine`).
-/

namespace DocRef

theorem MemberKind.symbolKind_ne_type (kind : MemberKind) : kind.symbolKind ≠ .type := by
  cases kind <;> exact nofun

namespace Catalog

variable {catalog : Catalog}

/-! ### Types and members apart -/

/-- The member that a tree means, if it is no type. -/
def memberOf? (catalog : Catalog) (kind : Option SymbolKind) : Node → Option MemberId
  | .method member parameters returns =>
    catalog.resolveMethod .none member parameters returns kind
  | .child scope text => catalog.resolveMember .none scope text kind
  | _ => none

theorem resolveReference_of_member {kind : SymbolKind} (hkind : kind ≠ .type) (node : Node) :
    catalog.resolveReference ⟨some kind, node⟩ = memberSymbol (catalog.memberOf? (some kind) node) := by
  cases kind with
  | type => exact absurd rfl hkind
  | _ => cases node <;> rfl

theorem resolveReference_of_type (node : Node) :
    catalog.resolveReference ⟨some .type, node⟩ = typeSymbol (catalog.resolveType .none node) := by
  cases node <;> rfl

theorem resolveReference_of_none (node : Node) :
    catalog.resolveReference ⟨none, node⟩ =
      (catalog.resolveType .none node).elim (memberSymbol (catalog.memberOf? none node)) .type := by
  cases htype : catalog.resolveType .none node with
  | some type =>
    cases node with
    | method => cases htype
    | _ => simp only [resolveReference, resolve, htype, Option.elim]
  | none =>
    cases node with
    | method => rfl
    | _ => simp only [resolveReference, resolve, htype, Option.elim, memberOf?, memberSymbol]

/-! ### Kinds of candidates -/

/-- Whether a member is there and has a kind. -/
def hasKind (catalog : Catalog) (kind : SymbolKind) (id : MemberId) : Bool :=
  (catalog.memberDef? id).any (·.kind.symbolKind = kind)

theorem hasKind_eq {id : MemberId} {member : MemberDef} (h : catalog.memberDef? id = some member)
    (kind : SymbolKind) : catalog.hasKind kind id = decide (member.kind.symbolKind = kind) := by
  rw [hasKind, h, Option.any_some]

/-- A letter takes out the candidates of other kinds. -/
theorem candidates_kind (declaring : TypeId) (text : Text) (kind : SymbolKind) :
    catalog.candidates declaring text (some kind) =
      (catalog.candidates declaring text none).filter (catalog.hasKind kind) := by
  simp only [candidates]
  split
  · rw [List.filter_filter]
    refine List.filter_congr fun id _ => ?_
    rw [hasKind]
    cases catalog.memberDef? id <;> simp
  · rw [List.filter_filter]
    refine List.filter_congr fun id _ => ?_
    rw [hasKind]
    cases catalog.memberDef? id <;> simp
  · rfl

theorem only?_filter {ids : List MemberId} {id : MemberId} (h : only? ids = some id)
    (p : MemberId → Bool) : only? (ids.filter p) = if p id then some id else none := by
  match ids with
  | [single] =>
    cases h
    by_cases hp : p id <;> simp [hp, only?]
  | [] | _ :: _ :: _ => cases h

/-- A tree that can mean a member is searched among the candidates for a segment, of which those are
kept that fit what stands behind it. The letter is asked for nowhere else. -/
theorem memberOf?_cases (catalog : Catalog) (node : Node) :
    (∀ kind, catalog.memberOf? kind node = none) ∨
    ∃ (scope : Node) (text : Text) (keep : TypeExpr → MemberId → Bool), ∀ kind,
      catalog.memberOf? kind node = (catalog.resolveType .none scope).bind fun declaring =>
        declaring.definition?.bind fun definition =>
          only? ((catalog.candidates definition text kind).filter (keep declaring)) := by
  cases node with
  | child scope text =>
    refine .inr ⟨scope, text, fun _ _ => true, fun kind => ?_⟩
    simp only [List.filter_true]
    rfl
  | method member parameters returns =>
    cases member with
    | child scope text =>
      exact .inr ⟨scope, text, _, resolveMethod_child .none scope text parameters returns⟩
    | _ => exact .inl fun _ => rfl
  | _ => exact .inl fun _ => rfl

/-- What a tree means as a member it means with the letter of that, and with no other letter. -/
theorem memberOf?_kind {node : Node} {id : MemberId} (h : catalog.memberOf? none node = some id) :
    ∃ member, catalog.memberDef? id = some member ∧ ∀ kind,
      catalog.memberOf? (some kind) node =
        if member.kind.symbolKind = kind then some id else none := by
  rcases catalog.memberOf?_cases node with hnone | ⟨scope, text, keep, hsearch⟩
  · rw [hnone] at h
    cases h
  · rw [hsearch] at h
    obtain ⟨declaring, hscope, hfound⟩ := Option.bind_eq_some_iff.mp h
    obtain ⟨definition, hdefinition, honly⟩ := Option.bind_eq_some_iff.mp hfound
    obtain ⟨member, hmember⟩ :=
      memberDef?_of_mem_candidates (List.mem_of_mem_filter (mem_of_only? honly))
    refine ⟨member, hmember, fun kind => ?_⟩
    rw [hsearch, hscope, Option.bind_some, hdefinition, Option.bind_some, candidates_kind,
      List.filter_comm, only?_filter honly, hasKind_eq hmember]
    simp only [decide_eq_true_eq]

/-- A letter gives no member of another kind. -/
theorem kind_of_memberOf? {node : Node} {kind : SymbolKind} {id : MemberId}
    (h : catalog.memberOf? (some kind) node = some id) :
    ∃ member, catalog.memberDef? id = some member ∧ member.kind.symbolKind = kind := by
  rcases catalog.memberOf?_cases node with hnone | ⟨scope, text, keep, hsearch⟩
  · rw [hnone] at h
    cases h
  · rw [hsearch] at h
    obtain ⟨declaring, -, hfound⟩ := Option.bind_eq_some_iff.mp h
    obtain ⟨definition, -, honly⟩ := Option.bind_eq_some_iff.mp hfound
    have hcandidate := List.mem_of_mem_filter (mem_of_only? honly)
    obtain ⟨member, hmember⟩ := memberDef?_of_mem_candidates hcandidate
    rw [candidates_kind, List.mem_filter, hasKind_eq hmember, decide_eq_true_eq] at hcandidate
    exact ⟨member, hmember, hcandidate.2⟩

/-! ### References -/

/-- Whether letters only refine what a tree means without one. -/
structure LettersRefine (catalog : Catalog) (node : Node) : Prop where
  /-- A type keeps its meaning with the letter of types. -/
  type : ∀ type, catalog.resolveReference ⟨none, node⟩ = .type type →
    catalog.resolveReference ⟨some .type, node⟩ = .type type
  /-- A member keeps its meaning with the letter of its kind, and loses it with any other letter. -/
  member : ∀ id, catalog.resolveReference ⟨none, node⟩ = .member id →
    ∃ member, catalog.memberDef? id = some member ∧ ∀ kind,
      catalog.resolveReference ⟨some kind, node⟩ =
        if member.kind.symbolKind = kind then .member id else .unresolved
  /-- What means nothing is no type with the letter of types either. -/
  unresolved : catalog.resolveReference ⟨none, node⟩ = .unresolved →
    catalog.resolveReference ⟨some .type, node⟩ = .unresolved
  /-- With the letter of types there is a type or nothing. -/
  typeOrNothing : (∃ type, catalog.resolveReference ⟨some .type, node⟩ = .type type) ∨
    catalog.resolveReference ⟨some .type, node⟩ = .unresolved
  /-- With any other letter there is a member of its kind or nothing. -/
  memberOrNothing : ∀ kind ≠ .type, (∃ id member,
      catalog.resolveReference ⟨some kind, node⟩ = .member id ∧
        catalog.memberDef? id = some member ∧ member.kind.symbolKind = kind) ∨
    catalog.resolveReference ⟨some kind, node⟩ = .unresolved

theorem resolveReference_of_isSome {node : Node} {type : TypeExpr}
    (h : catalog.resolveType .none node = some type) :
    catalog.resolveReference ⟨none, node⟩ = .type type ∧
      catalog.resolveReference ⟨some .type, node⟩ = .type type := by
  rw [resolveReference_of_none, resolveReference_of_type, h]
  exact ⟨rfl, rfl⟩

theorem resolveReference_of_eq_none {node : Node} (h : catalog.resolveType .none node = none) :
    catalog.resolveReference ⟨none, node⟩ = memberSymbol (catalog.memberOf? none node) ∧
      catalog.resolveReference ⟨some .type, node⟩ = .unresolved := by
  rw [resolveReference_of_none, resolveReference_of_type, h]
  exact ⟨rfl, rfl⟩

/-- Letters only refine, whatever the catalog and the tree. -/
theorem lettersRefine (catalog : Catalog) (node : Node) : catalog.LettersRefine node where
  type type hmeans := by
    cases htype : catalog.resolveType .none node with
    | some found =>
      rw [(resolveReference_of_isSome htype).1] at hmeans
      rw [(resolveReference_of_isSome htype).2, hmeans]
    | none =>
      rw [(resolveReference_of_eq_none htype).1] at hmeans
      cases hmember : catalog.memberOf? none node <;> rw [hmember] at hmeans <;> cases hmeans
  member id hmeans := by
    cases htype : catalog.resolveType .none node with
    | some found =>
      rw [(resolveReference_of_isSome htype).1] at hmeans
      cases hmeans
    | none =>
      rw [(resolveReference_of_eq_none htype).1, memberSymbol_eq_member_iff] at hmeans
      obtain ⟨member, hmember, hkind⟩ := memberOf?_kind hmeans
      refine ⟨member, hmember, fun kind => ?_⟩
      by_cases hletter : kind = .type
      · rw [hletter, (resolveReference_of_eq_none htype).2, if_neg member.kind.symbolKind_ne_type]
      · rw [resolveReference_of_member hletter, hkind]
        split <;> rfl
  unresolved hmeans := by
    cases htype : catalog.resolveType .none node with
    | some found =>
      rw [(resolveReference_of_isSome htype).1] at hmeans
      cases hmeans
    | none => exact (resolveReference_of_eq_none htype).2
  typeOrNothing := by
    cases htype : catalog.resolveType .none node with
    | some found => exact .inl ⟨found, (resolveReference_of_isSome htype).2⟩
    | none => exact .inr (resolveReference_of_eq_none htype).2
  memberOrNothing kind hletter := by
    rw [resolveReference_of_member hletter]
    cases hfound : catalog.memberOf? (some kind) node with
    | none => exact .inr rfl
    | some id =>
      obtain ⟨member, hmember, hkind⟩ := kind_of_memberOf? hfound
      exact .inl ⟨id, member, rfl, hmember, hkind⟩

end Catalog

end DocRef

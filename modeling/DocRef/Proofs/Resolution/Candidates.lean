import DocRef.Proofs.Arity
import DocRef.Proofs.Catalog.Loading

/-!
Which members a segment can mean, and when it means a single one. A search that must find exactly one
member finds a given one if and only if that is among the candidates and no other is
(`only?_eq_some_iff`).
-/

namespace DocRef.Catalog

variable {catalog : Catalog}

/-- The only member of a list without repetition. -/
theorem only?_eq_some_iff {ids : List MemberId} (h : ids.Nodup) (id : MemberId) :
    only? ids = some id ↔ id ∈ ids ∧ ∀ other ∈ ids, other = id := by
  match ids with
  | [] => simp [only?]
  | [single] =>
    simp only [only?, Option.some.injEq, List.mem_singleton, forall_eq]
    exact ⟨fun heq => ⟨heq.symm, heq⟩, fun heq => heq.2⟩
  | first :: second :: rest =>
    refine ⟨nofun, ?_⟩
    rintro ⟨-, hall⟩
    have hfirst := hall first List.mem_cons_self
    have hsecond := hall second (List.mem_cons_of_mem _ List.mem_cons_self)
    rw [hfirst, hsecond] at h
    exact absurd List.mem_cons_self (List.nodup_cons.mp h).1

theorem memberDef?_of_mem_candidates {declaring : TypeId} {text : Text} {kind : Option SymbolKind}
    {id : MemberId} (h : id ∈ catalog.candidates declaring text kind) :
    ∃ member, catalog.memberDef? id = some member := by
  have hany : ∃ p : MemberDef → Bool, (catalog.memberDef? id).any p = true := by
    simp only [candidates] at h
    split at h
    · exact ⟨_, (List.mem_filter.mp h).2⟩
    · exact ⟨_, (List.mem_filter.mp h).2⟩
    · cases h
  obtain ⟨p, hany⟩ := hany
  obtain ⟨member, hmember, -⟩ := (Option.any_eq_true p _).mp hany
  exact ⟨member, hmember⟩

theorem mem_candidates (hloaded : catalog.Loaded) {text stem : Text} {marker : Arity}
    (hsplit : splitArity text = (stem, marker)) (declaring : TypeId) (kind : Option SymbolKind)
    (id : MemberId) :
    id ∈ catalog.candidates declaring text kind ↔ ∃ member, catalog.memberDef? id = some member ∧
      member.declaringType = declaring ∧ member.name = stem.exchange '#' '.' ∧
      (∀ demanded ∈ kind, member.kind.symbolKind = demanded) ∧
      (∀ count, marker = .method count → member.genericParams.length = count) ∧
      ∀ count, marker ≠ .type count := by
  have hnamed : ∀ p : MemberId → Bool, id ∈ (catalog.membersNamed declaring
      (stem.exchange '#' '.')).filter p ↔ ∃ member, catalog.memberDef? id = some member ∧
        member.declaringType = declaring ∧ member.name = stem.exchange '#' '.' ∧ p id = true := by
    intro p
    rw [List.mem_filter, membersNamed, List.mem_filter, hloaded.mem_membersOf]
    constructor
    · rintro ⟨⟨⟨member, hmember, hdeclaring⟩, hname⟩, hp⟩
      rw [hmember, Option.any_some, decide_eq_true_eq] at hname
      exact ⟨member, hmember, hdeclaring, hname, hp⟩
    · rintro ⟨member, hmember, hdeclaring, hname, hp⟩
      refine ⟨⟨⟨member, hmember, hdeclaring⟩, ?_⟩, hp⟩
      rw [hmember, Option.any_some, decide_eq_true hname]
  rw [candidates, hsplit]
  cases marker with
  | none =>
    rw [hnamed]
    refine exists_congr fun member => and_congr_right fun hmember => ?_
    cases kind <;> simp [hmember]
  | method count =>
    rw [hnamed]
    refine exists_congr fun member => and_congr_right fun hmember => ?_
    cases kind <;> simp [hmember]
  | type count => simp

theorem candidates_nodup (hloaded : catalog.Loaded) (declaring : TypeId) (text : Text)
    (kind : Option SymbolKind) : (catalog.candidates declaring text kind).Nodup := by
  have hnamed : ∀ (name : Text) (p : MemberId → Bool),
      ((catalog.membersNamed declaring name).filter p).Nodup := fun name p =>
    ((hloaded.membersOf_nodup declaring).filter _).filter _
  simp only [candidates]
  split
  · exact hnamed _ _
  · exact hnamed _ _
  · exact List.nodup_nil

theorem signatureFits_iff {id : MemberId} {member : MemberDef}
    (hmember : catalog.memberDef? id = some member) (typeArgs : List TypeExpr)
    (parameters : List Node) (returns : Option Node) :
    catalog.signatureFits id typeArgs parameters returns = true ↔
      catalog.resolveAll ⟨typeArgs, catalog.methodParams id⟩ parameters = some member.parameters ∧
      ∀ node ∈ returns, catalog.resolveType ⟨typeArgs, catalog.methodParams id⟩ node =
        member.returns := by
  have hparameters : catalog.parametersOf id = member.parameters := by
    rw [parametersOf, hmember, Option.map_some, Option.getD_some]
  cases returns with
  | none => simp [signatureFits, hparameters]
  | some node => simp [signatureFits, hparameters, hmember]

theorem mem_of_only? {ids : List MemberId} {id : MemberId} (h : only? ids = some id) : id ∈ ids := by
  match ids with
  | [single] =>
    cases h
    exact List.mem_cons_self
  | [] | _ :: _ :: _ => cases h

/-- What the parameter list of a member is read against: the parameters of the declaring type, if that
is written open, and those of the member. -/
def listBindings (catalog : Catalog) (declaring : TypeExpr) (id : MemberId) : Bindings :=
  ⟨match declaring with
    | .named definition => catalog.typeParams definition
    | _ => [],
    catalog.methodParams id⟩

/-- How many parameters of its own a segment asks of a member before a parameter list. -/
def markedCount (text : Text) : Nat :=
  match (splitArity text).2 with
  | .method count => count
  | _ => 0

/-- Before a parameter list, a segment means the only candidate that has as many parameters of its own
as are marked and that fits the list. -/
theorem resolveMethod_child (bindings : Bindings) (scope : Node) (text : Text)
    (parameters : List Node) (returns : Option Node) (kind : Option SymbolKind) :
    catalog.resolveMethod bindings (.child scope text) parameters returns kind =
      (catalog.resolveType bindings scope).bind fun declaring =>
        declaring.definition?.bind fun definition =>
          only? ((catalog.candidates definition text kind).filter fun id =>
            catalog.methodArity id = markedCount text && catalog.signatureFits id
              (catalog.listBindings declaring id).typeArgs parameters returns) := by
  rw [resolveMethod]
  rfl

/-- A member with a parameter list is a candidate whose signature fits the list. -/
theorem exists_of_resolveMethod {bindings : Bindings} {head : Node} {parameters : List Node}
    {returns : Option Node} {kind : Option SymbolKind} {id : MemberId}
    (h : catalog.resolveMethod bindings head parameters returns kind = some id) :
    ∃ scope text declaring definition, head = .child scope text ∧
      catalog.resolveType bindings scope = some declaring ∧
      declaring.definition? = some definition ∧ id ∈ catalog.candidates definition text kind ∧
      catalog.signatureFits id (catalog.listBindings declaring id).typeArgs parameters returns =
        true := by
  cases head with
  | child scope text =>
    simp only [resolveMethod_child, Option.bind_eq_some_iff] at h
    obtain ⟨declaring, hdeclaring, definition, hdefinition, honly⟩ := h
    obtain ⟨hcandidate, hfits⟩ := List.mem_filter.mp (mem_of_only? honly)
    rw [Bool.and_eq_true] at hfits
    exact ⟨scope, text, declaring, definition, rfl, hdeclaring, hdefinition, hcandidate, hfits.2⟩
  | _ => cases h

theorem memberSymbol_eq_member_iff {found : Option MemberId} {id : MemberId} :
    memberSymbol found = .member id ↔ found = some id := by
  cases found with
  | none => exact ⟨nofun, nofun⟩
  | some other =>
    rw [memberSymbol, Symbol.member.injEq, Option.some.injEq]

theorem getElem?_params {owner : ParamOwner} {count position : Nat} (h : position < count) :
    (owner.params count)[position]? = some (.param ⟨owner, position⟩) := by
  rw [ParamOwner.params, List.getElem?_map, List.getElem?_range h, Option.map_some]

theorem methodArity_eq {id : MemberId} {member : MemberDef}
    (h : catalog.memberDef? id = some member) :
    catalog.methodArity id = member.genericParams.length := by
  rw [methodArity, h, Option.map_some, Option.getD_some]

end DocRef.Catalog

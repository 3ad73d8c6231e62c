import DocRef.Proofs.Renumbering
import DocRef.Proofs.Resolution.Letters
import DocRef.Proofs.Resolution.Parameters

/-!
References in a catalog that is found within another one. What a tree means there it means in the larger
catalog under the new numbers (`Embeds.resolveType`), and a tree that means a type of the smaller one
there means it in the smaller one already (`Embeds.resolveType_reflects`). So overloads are told apart
in the same way, and a reference that means a member or a type keeps its meaning.
-/

namespace DocRef.Catalog

variable {ρ : Renumbering} {catalog other : Catalog}

/-! ### Names -/

/-- The name that is looked up for a last segment depends on no catalog. -/
theorem exists_typeInScope?_eq (scope : Option Text) (text : Text) (given : Nat) :
    ∃ name : Option Text, ∀ catalog : Catalog,
      catalog.typeInScope? scope text given = name.bind catalog.typeNamed? := by
  simp only [typeInScope?]
  rcases hmarker : segmentArity? (splitArity text).2 given with _ | arity
  · exact ⟨none, fun _ => rfl⟩
  · cases scope with
    | none => exact ⟨some (withArity (splitArity text).1 arity), fun _ => rfl⟩
    | some outer =>
      exact ⟨some (withArity (outer ++ '.' :: (splitArity text).1) arity), fun _ => rfl⟩

theorem Embeds.typeInScope? (h : catalog.Embeds ρ other) {scope : Option Text} {text : Text}
    {given : Nat} {id : TypeId} (hid : catalog.typeInScope? scope text given = some id) :
    other.typeInScope? scope text given = some (ρ.type id) := by
  obtain ⟨name, hname⟩ := exists_typeInScope?_eq scope text given
  rw [hname, Option.bind_eq_some_iff] at hid
  obtain ⟨name, rfl, hid⟩ := hid
  rw [hname, Option.bind_some]
  exact h.typeNamed? hid

theorem Embeds.typeInScope?_reflects (h : catalog.Embeds ρ other) {scope : Option Text}
    {text : Text} {given count : Nat} {id : TypeId} (harity : catalog.arity? id = some count)
    (hid : other.typeInScope? scope text given = some (ρ.type id)) :
    catalog.typeInScope? scope text given = some id := by
  obtain ⟨name, hname⟩ := exists_typeInScope?_eq scope text given
  rw [hname, Option.bind_eq_some_iff] at hid
  obtain ⟨name, rfl, hid⟩ := hid
  rw [hname, Option.bind_some]
  exact h.typeNamed?_reflects harity hid

/-! ### Types -/

theorem Embeds.close? (h : catalog.Embeds ρ other) {definition : TypeId} {count : Nat}
    (harity : catalog.arity? definition = some count) (arguments : List TypeExpr) :
    other.close? (ρ.type definition) (arguments.map (TypeExpr.renumber ρ)) =
      (catalog.close? definition arguments).map (TypeExpr.renumber ρ) := by
  rw [Catalog.close?, Catalog.close?, h.genericArity harity, List.length_map]
  by_cases hnil : arguments = []
  · rw [if_pos hnil, if_pos (List.map_eq_nil_iff.mpr hnil)]
    rfl
  · rw [if_neg hnil, if_neg fun heq => hnil (List.map_eq_nil_iff.mp heq)]
    split
    · rw [Option.map_some, TypeExpr.renumber, TypeExpr.renumberAll_eq_map]
    · rfl

section Types

variable {owns : GenericParam → Prop} {bindings : Bindings}

/-- A type of the catalog is closed elsewhere as it is closed in the catalog. -/
theorem Embeds.close?_reflects (h : catalog.Embeds ρ other) {definition : TypeId}
    {arguments : List TypeExpr} {type : TypeExpr} (htype : type.WellScoped catalog.arity? owns)
    (hclose : other.close? definition arguments = some (type.renumber ρ)) :
    ∃ (inner : TypeId) (count : Nat) (own : List TypeExpr), definition = ρ.type inner ∧
      arguments = own.map (TypeExpr.renumber ρ) ∧ catalog.arity? inner = some count ∧
      (∀ argument ∈ own, argument.WellScoped catalog.arity? owns) ∧
      catalog.close? inner own = some type := by
  have hinner : ∀ {inner : TypeId} {count : Nat} {own : List TypeExpr},
      catalog.arity? inner = some count → definition = ρ.type inner →
      arguments = own.map (TypeExpr.renumber ρ) → catalog.close? inner own = some type := by
    rintro inner count own harity rfl rfl
    rw [h.close? harity] at hclose
    exact Option.map_injective (TypeExpr.renumber_injective ρ) hclose
  have hcopy := hclose
  rw [Catalog.close?] at hcopy
  split at hcopy
  · next hnil =>
    cases htype with
    | @named id count harity =>
      rw [TypeExpr.renumber, Option.some.injEq, TypeExpr.named.injEq] at hcopy
      exact ⟨id, count, [], hcopy, hnil, harity, List.forall_mem_nil _, hinner harity hcopy hnil⟩
    | _ => cases hcopy
  · split at hcopy
    · cases htype with
      | @generic inner own _ harity hown =>
        rw [TypeExpr.renumber, TypeExpr.renumberAll_eq_map, Option.some.injEq,
          TypeExpr.generic.injEq] at hcopy
        obtain ⟨hdefinition, harguments⟩ := hcopy
        exact ⟨inner, _, own, hdefinition, harguments, harity, hown,
          hinner harity hdefinition harguments⟩
      | _ => cases hcopy
    · cases hcopy

mutual

/-- What a tree means, it means in the larger catalog. -/
theorem Embeds.resolveType (h : catalog.Embeds ρ other) : (node : Node) → ∀ {type : TypeExpr},
    catalog.resolveType bindings node = some type →
      other.resolveType (bindings.renumber ρ) node = some (type.renumber ρ)
  | .root _, type, hnode => by
    simp only [Catalog.resolveType, Option.bind_eq_bind, Option.bind_eq_some_iff] at hnode ⊢
    obtain ⟨definition, hdefinition, hclose⟩ := hnode
    obtain ⟨count, hcount⟩ := arity?_of_typeInScope? hdefinition
    refine ⟨ρ.type definition, h.typeInScope? hdefinition, ?_⟩
    exact (h.close? hcount []).trans (by rw [hclose, Option.map_some])
  | .child scope _, type, hnode => by
    simp only [Catalog.resolveType, Option.bind_eq_bind, Option.bind_eq_some_iff] at hnode ⊢
    obtain ⟨⟨outer, bound⟩, hscope, definition, hdefinition, hclose⟩ := hnode
    obtain ⟨count, hcount⟩ := arity?_of_typeInScope? hdefinition
    refine ⟨_, Embeds.resolveScope h scope hscope, ρ.type definition, h.typeInScope? hdefinition, ?_⟩
    exact (h.close? hcount bound).trans (by rw [hclose, Option.map_some])
  | .closed (.root _) arguments, type, hnode => by
    simp only [Catalog.resolveType, Option.bind_eq_bind, Option.bind_eq_some_iff] at hnode ⊢
    obtain ⟨own, hown, definition, hdefinition, hclose⟩ := hnode
    obtain ⟨count, hcount⟩ := arity?_of_typeInScope? hdefinition
    refine ⟨_, Embeds.resolveAll h arguments hown, ρ.type definition, h.typeInScope? hdefinition, ?_⟩
    exact (h.close? hcount own).trans (by rw [hclose, Option.map_some])
  | .closed (.child scope _) arguments, type, hnode => by
    simp only [Catalog.resolveType, Option.bind_eq_bind, Option.bind_eq_some_iff] at hnode ⊢
    obtain ⟨own, hown, ⟨outer, bound⟩, hscope, definition, hdefinition, hclose⟩ := hnode
    obtain ⟨count, hcount⟩ := arity?_of_typeInScope? hdefinition
    refine ⟨_, Embeds.resolveAll h arguments hown, _, Embeds.resolveScope h scope hscope,
      ρ.type definition, h.typeInScope? hdefinition, ?_⟩
    show other.close? _ (bound.map _ ++ own.map _) = _
    rw [← List.map_append, h.close? hcount, hclose, Option.map_some]
  | .closed (.closed ..) _, _, hnode | .closed (.array ..) _, _, hnode
  | .closed (.byRef _) _, _, hnode | .closed (.pointer _) _, _, hnode
  | .closed (.typeParam _) _, _, hnode | .closed (.methodParam _) _, _, hnode
  | .closed (.method ..) _, _, hnode | .method .., _, hnode => by
    cases hnode
  | .array element _, _, hnode => by
    obtain ⟨_, helement, rfl⟩ := Option.map_eq_some_iff.mp hnode
    exact Option.map_eq_some_iff.mpr ⟨_, Embeds.resolveType h element helement, rfl⟩
  | .byRef target, _, hnode | .pointer target, _, hnode => by
    obtain ⟨_, htarget, rfl⟩ := Option.map_eq_some_iff.mp hnode
    exact Option.map_eq_some_iff.mpr ⟨_, Embeds.resolveType h target htarget, rfl⟩
  | .typeParam _, _, hnode | .methodParam _, _, hnode => by
    exact (List.getElem?_map ..).trans (congrArg _ hnode)

theorem Embeds.resolveScope (h : catalog.Embeds ρ other) : (node : Node) →
    ∀ {name : Text} {bound : List TypeExpr}, catalog.resolveScope bindings node = some (name, bound) →
      other.resolveScope (bindings.renumber ρ) node =
        some (name, bound.map (TypeExpr.renumber ρ))
  | .root _, _, _, hnode => by
    cases hnode
    rfl
  | .child scope _, _, _, hnode => by
    simp only [Catalog.resolveScope, Option.bind_eq_bind, Option.bind_eq_some_iff] at hnode
    obtain ⟨⟨outer, bound⟩, hscope, heq⟩ := hnode
    cases heq
    rw [Catalog.resolveScope, Embeds.resolveScope h scope hscope]
    rfl
  | .closed generic arguments, _, _, hnode => by
    simp only [Catalog.resolveScope, Option.bind_eq_bind, Option.bind_eq_some_iff] at hnode
    obtain ⟨⟨name, bound⟩, hgeneric, own, hown, closed, hclosed, heq⟩ := hnode
    cases heq
    simp only [Catalog.resolveScope, Embeds.resolveScope h generic hgeneric,
      Embeds.resolveAll h arguments hown, Option.bind_eq_bind, Option.bind_some, hclosed,
      List.map_append]
    rfl

theorem Embeds.resolveAll (h : catalog.Embeds ρ other) : (nodes : List Node) →
    ∀ {types : List TypeExpr}, catalog.resolveAll bindings nodes = some types →
      other.resolveAll (bindings.renumber ρ) nodes = some (types.map (TypeExpr.renumber ρ))
  | [], _, hnodes => by
    cases hnodes
    rfl
  | node :: nodes, _, hnodes => by
    simp only [Catalog.resolveAll, Option.bind_eq_bind, Option.bind_eq_some_iff] at hnodes
    obtain ⟨head, hhead, tail, htail, heq⟩ := hnodes
    cases heq
    rw [Catalog.resolveAll, Embeds.resolveType h node hhead, Embeds.resolveAll h nodes htail]
    rfl

end

theorem getElem?_map_renumber {types : List TypeExpr} {position : Nat} {type : TypeExpr}
    (h : (types.map (TypeExpr.renumber ρ))[position]? = some (type.renumber ρ)) :
    types[position]? = some type := by
  rw [List.getElem?_map] at h
  exact Option.map_injective (TypeExpr.renumber_injective ρ) h

mutual

/-- A tree that means a type of the catalog elsewhere means it in the catalog. -/
theorem Embeds.resolveType_reflects (h : catalog.Embeds ρ other) : (node : Node) →
    ∀ {type : TypeExpr}, type.WellScoped catalog.arity? owns →
      other.resolveType (bindings.renumber ρ) node = some (type.renumber ρ) →
        catalog.resolveType bindings node = some type
  | .root _, type, htype, hnode => by
    simp only [Catalog.resolveType, Option.bind_eq_bind, Option.bind_eq_some_iff] at hnode ⊢
    obtain ⟨definition, hdefinition, hclose⟩ := hnode
    obtain ⟨inner, count, own, rfl, hnil, harity, -, hinner⟩ := h.close?_reflects htype hclose
    obtain rfl := List.map_eq_nil_iff.mp hnil.symm
    exact ⟨inner, h.typeInScope?_reflects harity hdefinition, hinner⟩
  | .child scope _, type, htype, hnode => by
    simp only [Catalog.resolveType, Option.bind_eq_bind, Option.bind_eq_some_iff] at hnode ⊢
    obtain ⟨⟨outer, bound⟩, hscope, definition, hdefinition, hclose⟩ := hnode
    obtain ⟨inner, count, arguments, rfl, rfl, harity, harguments, hinner⟩ :=
      h.close?_reflects htype hclose
    exact ⟨(outer, arguments), Embeds.resolveScope_reflects h scope harguments hscope, inner,
      h.typeInScope?_reflects harity hdefinition, hinner⟩
  | .closed (.root _) arguments, type, htype, hnode => by
    simp only [Catalog.resolveType, Option.bind_eq_bind, Option.bind_eq_some_iff] at hnode ⊢
    obtain ⟨own, hown, definition, hdefinition, hclose⟩ := hnode
    obtain ⟨inner, count, innerArguments, rfl, rfl, harity, harguments, hinner⟩ :=
      h.close?_reflects htype hclose
    exact ⟨innerArguments, Embeds.resolveAll_reflects h arguments harguments hown, inner,
      h.typeInScope?_reflects harity hdefinition, hinner⟩
  | .closed (.child scope _) arguments, type, htype, hnode => by
    simp only [Catalog.resolveType, Option.bind_eq_bind, Option.bind_eq_some_iff] at hnode ⊢
    obtain ⟨own, hown, ⟨outer, bound⟩, hscope, definition, hdefinition, hclose⟩ := hnode
    obtain ⟨inner, count, innerArguments, rfl, hsplit, harity, harguments, hinner⟩ :=
      h.close?_reflects htype hclose
    -- The arguments are those of the scope and then those of the segment, here as there.
    obtain ⟨innerBound, innerOwn, rfl, rfl, rfl⟩ := List.map_eq_append_iff.mp hsplit.symm
    exact ⟨innerOwn, Embeds.resolveAll_reflects h arguments
        (fun type htype => harguments type (List.mem_append_right _ htype)) hown,
      (outer, innerBound), Embeds.resolveScope_reflects h scope
        (fun type htype => harguments type (List.mem_append_left _ htype)) hscope,
      inner, h.typeInScope?_reflects harity hdefinition, hinner⟩
  | .closed (.closed ..) _, _, _, hnode | .closed (.array ..) _, _, _, hnode
  | .closed (.byRef _) _, _, _, hnode | .closed (.pointer _) _, _, _, hnode
  | .closed (.typeParam _) _, _, _, hnode | .closed (.methodParam _) _, _, _, hnode
  | .closed (.method ..) _, _, _, hnode | .method .., _, _, hnode => by
    cases hnode
  | .array element rank, type, htype, hnode => by
    obtain ⟨found, helement, heq⟩ := Option.map_eq_some_iff.mp hnode
    cases htype with
    | array hinner =>
      rw [TypeExpr.renumber, TypeExpr.array.injEq] at heq
      obtain ⟨rfl, rfl⟩ := heq
      exact Option.map_eq_some_iff.mpr
        ⟨_, Embeds.resolveType_reflects h element hinner helement, rfl⟩
    | _ => cases heq
  | .byRef target, type, htype, hnode => by
    obtain ⟨found, htarget, heq⟩ := Option.map_eq_some_iff.mp hnode
    cases htype with
    | byRef hinner =>
      rw [TypeExpr.renumber, TypeExpr.byRef.injEq] at heq
      obtain rfl := heq
      exact Option.map_eq_some_iff.mpr
        ⟨_, Embeds.resolveType_reflects h target hinner htarget, rfl⟩
    | _ => cases heq
  | .pointer target, type, htype, hnode => by
    obtain ⟨found, htarget, heq⟩ := Option.map_eq_some_iff.mp hnode
    cases htype with
    | pointer hinner =>
      rw [TypeExpr.renumber, TypeExpr.pointer.injEq] at heq
      obtain rfl := heq
      exact Option.map_eq_some_iff.mpr
        ⟨_, Embeds.resolveType_reflects h target hinner htarget, rfl⟩
    | _ => cases heq
  | .typeParam _, _, _, hnode | .methodParam _, _, _, hnode => getElem?_map_renumber hnode

theorem Embeds.resolveScope_reflects (h : catalog.Embeds ρ other) : (node : Node) →
    ∀ {name : Text} {bound : List TypeExpr},
      (∀ type ∈ bound, type.WellScoped catalog.arity? owns) →
      other.resolveScope (bindings.renumber ρ) node =
        some (name, bound.map (TypeExpr.renumber ρ)) →
        catalog.resolveScope bindings node = some (name, bound)
  | .root _, _, bound, _, hnode => by
    rw [Catalog.resolveScope, Option.some.injEq, Prod.mk.injEq] at hnode
    obtain ⟨rfl, hnil⟩ := hnode
    rw [List.map_eq_nil_iff.mp hnil.symm]
    rfl
  | .child scope _, _, _, hbound, hnode => by
    simp only [Catalog.resolveScope, Option.bind_eq_bind, Option.bind_eq_some_iff] at hnode
    obtain ⟨⟨outer, found⟩, hscope, heq⟩ := hnode
    cases heq
    rw [Catalog.resolveScope, Embeds.resolveScope_reflects h scope hbound hscope]
    rfl
  | .closed generic arguments, _, _, hbound, hnode => by
    simp only [Catalog.resolveScope, Option.bind_eq_bind, Option.bind_eq_some_iff] at hnode
    obtain ⟨⟨name, found⟩, hgeneric, own, hown, closed, hclosed, heq⟩ := hnode
    simp only [Option.pure_def, Option.some.injEq, Prod.mk.injEq] at heq
    obtain ⟨rfl, hsplit⟩ := heq
    obtain ⟨innerBound, innerOwn, rfl, rfl, rfl⟩ := List.map_eq_append_iff.mp hsplit.symm
    have hinner := Embeds.resolveScope_reflects h generic
      (fun type htype => hbound type (List.mem_append_left _ htype)) hgeneric
    have hinnerOwn := Embeds.resolveAll_reflects h arguments
      (fun type htype => hbound type (List.mem_append_right _ htype)) hown
    simp only [Catalog.resolveScope, hinner, hinnerOwn, Option.bind_eq_bind, Option.bind_some,
      hclosed]
    rfl

theorem Embeds.resolveAll_reflects (h : catalog.Embeds ρ other) : (nodes : List Node) →
    ∀ {types : List TypeExpr}, (∀ type ∈ types, type.WellScoped catalog.arity? owns) →
      other.resolveAll (bindings.renumber ρ) nodes = some (types.map (TypeExpr.renumber ρ)) →
        catalog.resolveAll bindings nodes = some types
  | [], types, _, hnodes => by
    rw [Catalog.resolveAll, Option.some.injEq] at hnodes
    rw [List.map_eq_nil_iff.mp hnodes.symm]
    rfl
  | node :: nodes, types, htypes, hnodes => by
    simp only [Catalog.resolveAll, Option.bind_eq_bind, Option.bind_eq_some_iff] at hnodes
    obtain ⟨head, hhead, tail, htail, heq⟩ := hnodes
    simp only [Option.pure_def, Option.some.injEq] at heq
    obtain ⟨type, rest, rfl, rfl, rfl⟩ := List.map_eq_cons_iff.mp heq.symm
    obtain ⟨htype, hrest⟩ := List.forall_mem_cons.mp htypes
    rw [Catalog.resolveAll, Embeds.resolveType_reflects h node htype hhead,
      Embeds.resolveAll_reflects h nodes hrest htail]
    rfl

end

end Types

/-! ### Members -/

theorem only?_map (f : MemberId → MemberId) (ids : List MemberId) :
    only? (ids.map f) = (only? ids).map f := by
  match ids with
  | [] | [_] | _ :: _ :: _ => rfl

/-- What is asked of members apart from their ids is true of the same members. -/
theorem Embeds.filter_members (h : catalog.Embeds ρ other) {p : MemberDef → Bool}
    (hp : ∀ member : MemberDef, p (member.renumber ρ) = p member) {ids : List MemberId}
    (hids : ∀ id ∈ ids, ∃ member, catalog.memberDef? id = some member) :
    (ids.map ρ.member).filter (fun id => (other.memberDef? id).any p) =
      (ids.filter fun id => (catalog.memberDef? id).any p).map ρ.member := by
  rw [List.filter_map]
  refine congrArg (List.map ρ.member) (List.filter_congr fun id hid => ?_)
  obtain ⟨member, hmember⟩ := hids id hid
  show (other.memberDef? (ρ.member id)).any p = _
  rw [h.memberDef? hmember, hmember, Option.any_some, Option.any_some, hp]

theorem Embeds.candidates (h : catalog.Embeds ρ other) (hloaded : catalog.Loaded)
    {definition : TypeId} {count : Nat} (harity : catalog.arity? definition = some count)
    (text : Text) (kind : Option SymbolKind) :
    other.candidates (ρ.type definition) text kind =
      (catalog.candidates definition text kind).map ρ.member := by
  have hmembers : ∀ id ∈ catalog.membersOf definition,
      ∃ member, catalog.memberDef? id = some member := fun id => hloaded.exists_memberDef?
  have hnamed : ∀ name, other.membersNamed (ρ.type definition) name =
      (catalog.membersNamed definition name).map ρ.member := by
    intro name
    rw [membersNamed, h.membersOf harity]
    exact h.filter_members (fun _ => rfl) hmembers
  have hfits : ∀ name (p : MemberDef → Bool),
      (∀ member : MemberDef, p (member.renumber ρ) = p member) →
      (other.membersNamed (ρ.type definition) name).filter (fun id => (other.memberDef? id).any p) =
        ((catalog.membersNamed definition name).filter fun id =>
          (catalog.memberDef? id).any p).map ρ.member := by
    intro name p hp
    rw [hnamed]
    exact h.filter_members hp fun id hid => hmembers id (List.mem_of_mem_filter hid)
  simp only [Catalog.candidates]
  split
  · exact hfits _ _ fun _ => rfl
  · exact hfits _ _ fun _ => rfl
  · rfl

/-- Whether a return type that means nothing here means nothing there either. -/
def StaysMeaningless (ρ : Renumbering) (catalog other : Catalog) (node : Node) : Prop :=
  ∀ bindings, catalog.resolveType bindings node = none →
    other.resolveType (bindings.renumber ρ) node = none

/-- A signature fits a parameter list as it does elsewhere. What the list means there can be compared
with what it means here, as the types of the signature are from here. -/
theorem Embeds.signatureFits (h : catalog.Embeds ρ other) (hloaded : catalog.Loaded) {id : MemberId}
    {member : MemberDef} (hmember : catalog.memberDef? id = some member) (typeArgs : List TypeExpr)
    (parameters : List Node) {returns : Option Node}
    (hreturns : ∀ node ∈ returns, StaysMeaningless ρ catalog other node) :
    other.signatureFits (ρ.member id) (typeArgs.map (TypeExpr.renumber ρ)) parameters returns =
      catalog.signatureFits id typeArgs parameters returns := by
  have hscope := (hloaded.member hmember).scope
  have hbindings : (⟨typeArgs.map (TypeExpr.renumber ρ), other.methodParams (ρ.member id)⟩ :
      Bindings) = Bindings.renumber ρ ⟨typeArgs, catalog.methodParams id⟩ := by
    rw [h.methodParams hmember]
    rfl
  rw [Bool.eq_iff_iff, signatureFits_iff (h.memberDef? hmember), signatureFits_iff hmember, hbindings]
  refine and_congr ⟨?_, h.resolveAll parameters⟩ (forall₂_congr fun node hnode => ?_)
  · exact h.resolveAll_reflects parameters fun type htype =>
      hscope type (List.mem_append_left _ htype)
  · cases hdeclared : member.returns with
    | none =>
      rw [MemberDef.renumber, hdeclared, Option.map_none]
      refine ⟨fun hnone => ?_, hreturns node hnode _⟩
      cases hmeans : catalog.resolveType ⟨typeArgs, catalog.methodParams id⟩ node with
      | none => rfl
      | some type =>
        rw [h.resolveType node hmeans] at hnone
        cases hnone
    | some type =>
      rw [MemberDef.renumber, hdeclared, Option.map_some]
      refine ⟨h.resolveType_reflects node (hscope type ?_), h.resolveType node⟩
      exact List.mem_append_right _ (by rw [hdeclared]; exact List.mem_singleton_self type)

section Members

variable {scope : Node} {declaring : TypeExpr}

theorem arity?_of_resolveType {node : Node} {type : TypeExpr} {definition : TypeId}
    (htype : catalog.resolveType .none node = some type)
    (hdefinition : type.definition? = some definition) :
    ∃ count, catalog.arity? definition = some count := by
  have hnone : catalog.BindingsInScope (fun _ => False) .none :=
    fun type htype => absurd htype List.not_mem_nil
  cases resolveType_wellScoped hnone node htype with
  | named harity =>
    cases hdefinition
    exact ⟨_, harity⟩
  | generic _ harity _ =>
    cases hdefinition
    exact ⟨_, harity⟩
  | _ => cases hdefinition

theorem Embeds.resolveMember (h : catalog.Embeds ρ other) (hloaded : catalog.Loaded)
    (hscope : catalog.resolveType .none scope = some declaring) (text : Text)
    (kind : Option SymbolKind) :
    other.resolveMember .none scope text kind =
      (catalog.resolveMember .none scope text kind).map ρ.member := by
  have hother : other.resolveType .none scope = some (declaring.renumber ρ) :=
    h.resolveType scope hscope
  rw [Catalog.resolveMember, Catalog.resolveMember, hscope, hother]
  show ((declaring.renumber ρ).definition?.bind _) = (declaring.definition?.bind _).map _
  rw [TypeExpr.definition?_renumber]
  cases hdefinition : declaring.definition? with
  | none => rfl
  | some definition =>
    obtain ⟨count, harity⟩ := arity?_of_resolveType hscope hdefinition
    rw [Option.map_some, Option.bind_some, Option.bind_some, h.candidates hloaded harity, only?_map]

theorem Embeds.listBindings (h : catalog.Embeds ρ other) {definition : TypeId} {count : Nat}
    (hdefinition : declaring.definition? = some definition)
    (harity : catalog.arity? definition = some count) {id : MemberId} {member : MemberDef}
    (hmember : catalog.memberDef? id = some member) :
    other.listBindings (declaring.renumber ρ) (ρ.member id) =
      (catalog.listBindings declaring id).renumber ρ := by
  have hmethod := h.methodParams hmember
  cases declaring with
  | named found =>
    cases hdefinition
    exact congrArg₂ Bindings.mk (h.typeParams harity) hmethod
  | _ => exact congrArg (Bindings.mk []) hmethod

theorem Embeds.resolveMethod (h : catalog.Embeds ρ other) (hloaded : catalog.Loaded)
    (hscope : catalog.resolveType .none scope = some declaring) (text : Text)
    (parameters : List Node) {returns : Option Node} (kind : Option SymbolKind)
    (hreturns : ∀ node ∈ returns, StaysMeaningless ρ catalog other node) :
    other.resolveMethod .none (.child scope text) parameters returns kind =
      (catalog.resolveMethod .none (.child scope text) parameters returns kind).map ρ.member := by
  have hother : other.resolveType .none scope = some (declaring.renumber ρ) :=
    h.resolveType scope hscope
  rw [resolveMethod_child, resolveMethod_child, hscope, hother, Option.bind_some, Option.bind_some,
    TypeExpr.definition?_renumber]
  cases hdefinition : declaring.definition? with
  | none => rfl
  | some definition =>
    obtain ⟨count, harity⟩ := arity?_of_resolveType hscope hdefinition
    rw [Option.map_some, Option.bind_some, Option.bind_some, h.candidates hloaded harity,
      List.filter_map, only?_map]
    refine congrArg (fun ids => (only? ids).map ρ.member) (List.filter_congr fun id hid => ?_)
    obtain ⟨member, hmember, -⟩ := (mem_candidates hloaded rfl definition kind id).mp hid
    have hbindings := congrArg Bindings.typeArgs (h.listBindings hdefinition harity hmember)
    rw [Function.comp_apply, hbindings, methodArity_eq (h.memberDef? hmember), methodArity_eq hmember]
    exact congrArg _ (h.signatureFits hloaded hmember _ parameters hreturns)

end Members

/-! ### References -/

/-- A suffix that a tree ends in stays meaningless if it is. -/
def SuffixStays (ρ : Renumbering) (catalog other : Catalog) (node : Node) : Prop :=
  ∀ member parameters suffix, node = .method member parameters (some suffix) →
    StaysMeaningless ρ catalog other suffix

theorem exists_scope_of_memberOf? {kind : Option SymbolKind} {node : Node} {id : MemberId}
    (h : catalog.memberOf? kind node = some id) : ∃ scope declaring text,
      catalog.resolveType .none scope = some declaring ∧
      (node = .child scope text ∨
        ∃ parameters returns, node = .method (.child scope text) parameters returns) := by
  cases node with
  | child scope text =>
    obtain ⟨declaring, hdeclaring, -⟩ := Option.bind_eq_some_iff.mp h
    exact ⟨scope, declaring, text, hdeclaring, .inl rfl⟩
  | method member parameters returns =>
    obtain ⟨scope, text, declaring, -, rfl, hdeclaring, -⟩ := exists_of_resolveMethod h
    exact ⟨scope, declaring, text, hdeclaring, .inr ⟨parameters, returns, rfl⟩⟩
  | _ => cases h

/-- A tree that means a member means it in the larger catalog. -/
theorem Embeds.memberOf? (h : catalog.Embeds ρ other) (hloaded : catalog.Loaded)
    {kind : Option SymbolKind} {node : Node} (hsuffix : SuffixStays ρ catalog other node)
    {id : MemberId} (hid : catalog.memberOf? kind node = some id) :
    other.memberOf? kind node = some (ρ.member id) := by
  obtain ⟨scope, declaring, text, hscope, rfl | ⟨parameters, returns, rfl⟩⟩ :=
    exists_scope_of_memberOf? hid
  · exact (h.resolveMember hloaded hscope text kind).trans (congrArg (Option.map ρ.member) hid)
  · have hreturns : ∀ suffix ∈ returns, StaysMeaningless ρ catalog other suffix := by
      rintro suffix rfl
      exact hsuffix _ _ _ rfl
    exact (h.resolveMethod hloaded hscope text parameters kind hreturns).trans
      (congrArg (Option.map ρ.member) hid)

/-- A reference that means a type means it in the larger catalog, and so does one that means a member
and has the letter of its kind. -/
theorem Embeds.resolveReference (h : catalog.Embeds ρ other) (hloaded : catalog.Loaded)
    {reference : Reference} (hsuffix : SuffixStays ρ catalog other reference.node)
    (hmeans : catalog.resolveReference reference ≠ .unresolved)
    (hkind : reference.kind ≠ none ∨ ∃ type, catalog.resolveReference reference = .type type) :
    other.resolveReference reference = (catalog.resolveReference reference).renumber ρ := by
  obtain ⟨kind, node⟩ := reference
  have htype : ∀ {type : TypeExpr}, catalog.resolveType .none node = some type →
      other.resolveType .none node = some (type.renumber ρ) := h.resolveType node
  cases kind with
  | none =>
    obtain ⟨type, hfound⟩ := hkind.resolve_left fun hne => hne rfl
    rw [hfound]
    rw [resolveReference_of_none] at hfound ⊢
    cases hnode : catalog.resolveType .none node with
    | none =>
      rw [hnode] at hfound
      cases hmember : catalog.memberOf? none node <;> rw [hmember] at hfound <;> cases hfound
    | some found =>
      rw [hnode] at hfound
      cases hfound
      rw [htype hnode]
      rfl
  | some kind =>
    by_cases hletter : kind = .type
    · rw [hletter, resolveReference_of_type] at hmeans ⊢
      rw [resolveReference_of_type]
      cases hnode : catalog.resolveType .none node with
      | none => exact absurd (by rw [hnode]; rfl) hmeans
      | some found =>
        rw [htype hnode]
        rfl
    · rw [resolveReference_of_member hletter] at hmeans ⊢
      rw [resolveReference_of_member hletter]
      cases hmember : catalog.memberOf? (some kind) node with
      | none => exact absurd (by rw [hmember]; rfl) hmeans
      | some id =>
        rw [h.memberOf? hloaded hsuffix hmember]
        rfl

/-! ### Catalogs that are found in each other -/

section Mutual

variable {back : Renumbering}

theorem memberSymbol_renumber (found : Option MemberId) :
    memberSymbol (found.map ρ.member) = (memberSymbol found).renumber ρ := by
  cases found <;> rfl

theorem typeSymbol_renumber (found : Option TypeExpr) :
    typeSymbol (found.map (TypeExpr.renumber ρ)) = (typeSymbol found).renumber ρ := by
  cases found <;> rfl

/-- What has a meaning under other numbers has one here: parameters are bound there if they are here. -/
theorem Embeds.staysMeaningless (hback : other.Embeds back catalog) (node : Node) :
    StaysMeaningless ρ catalog other node := by
  intro bindings hnone
  cases hother : other.resolveType (bindings.renumber ρ) node with
  | none => rfl
  | some type =>
    have hbinds : Binds bindings node := by
      have hbound := binds_of_resolveType node hother
      rwa [Binds, Bindings.renumber, List.length_map, List.length_map] at hbound
    obtain ⟨found, hfound⟩ := exists_resolveType node hbinds (hback.resolveType node hother)
    rw [hnone] at hfound
    cases hfound

/-- In catalogs that are found in each other, every reference means the same. -/
theorem Embeds.resolveReference_eq (h : catalog.Embeds ρ other) (hback : other.Embeds back catalog)
    (hloaded : catalog.Loaded) (hother : other.Loaded) (reference : Reference) :
    other.resolveReference reference = (catalog.resolveReference reference).renumber ρ := by
  obtain ⟨kind, node⟩ := reference
  have hstays : StaysMeaningless ρ catalog other node := hback.staysMeaningless node
  have htype : other.resolveType .none node =
      (catalog.resolveType .none node).map (TypeExpr.renumber ρ) := by
    cases hnode : catalog.resolveType .none node with
    | none => exact hstays .none hnode
    | some type => exact h.resolveType node hnode
  have hmember : ∀ kind, other.memberOf? kind node = (catalog.memberOf? kind node).map ρ.member := by
    intro kind
    cases hnode : catalog.memberOf? kind node with
    | some id => exact h.memberOf? hloaded (fun _ _ suffix _ => hback.staysMeaningless suffix) hnode
    | none =>
      cases hfound : other.memberOf? kind node with
      | none => rfl
      | some id =>
        have hid := hback.memberOf? hother (fun _ _ suffix _ => h.staysMeaningless suffix) hfound
        rw [hnode] at hid
        cases hid
  cases kind with
  | none =>
    rw [resolveReference_of_none, resolveReference_of_none, htype, hmember, memberSymbol_renumber]
    cases catalog.resolveType .none node <;> rfl
  | some kind =>
    by_cases hletter : kind = .type
    · rw [hletter, resolveReference_of_type, resolveReference_of_type, htype, typeSymbol_renumber]
    · rw [resolveReference_of_member hletter, resolveReference_of_member hletter, hmember,
        memberSymbol_renumber]

end Mutual

end DocRef.Catalog

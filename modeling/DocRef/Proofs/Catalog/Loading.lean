import DocRef.Catalog.File
import DocRef.Proofs.Resolution.Scoping

/-!
What holds of every catalog that a listing describes (`Loaded`): names are distinct, the markers in a
name add up to the type's parameters, the members of a type are those that name it as their
declaring type, in the order of their ids, and all types in bases and signatures are in scope.
-/

namespace DocRef

theorem bind_eq_ok {ε α β : Type} {first : Except ε α} {next : α → Except ε β} {b : β} :
    first >>= next = .ok b ↔ ∃ a, first = .ok a ∧ next a = .ok b := by
  cases first with
  | error e => exact ⟨nofun, fun ⟨_, h, _⟩ => nomatch h⟩
  | ok a => exact ⟨fun h => ⟨a, rfl, h⟩, fun ⟨_, h, hnext⟩ => by cases h; exact hnext⟩

theorem pure_eq_ok {ε α : Type} {a b : α} : (pure a : Except ε α) = .ok b ↔ a = b :=
  ⟨fun h => by cases h; rfl, fun h => by rw [h]; rfl⟩

theorem eq_ok_of_toOption {ε α : Type} {result : Except ε α} {a : α}
    (h : result.toOption = some a) : result = .ok a := by
  cases result with
  | error => cases h
  | ok b =>
    cases h
    rfl

/-- The types of a member's parameters, and the type it returns. -/
def MemberDef.types (member : MemberDef) : List TypeExpr :=
  member.parameters ++ member.returns.toList

namespace Catalog

/-- Whether a parameter belongs to a member or to its declaring type. -/
def Owns (declaring : TypeId) (arity : Nat) (id : MemberId) (count : Nat) (param : GenericParam) :
    Prop :=
  param.BelongsTo (.type declaring) arity ∨ param.BelongsTo (.method id) count

/-- What holds of the base of a type: it is in scope, built as types are written, and no generic type
without arguments. -/
structure BaseInScope (catalog : Catalog) (id : TypeId) (base : TypeExpr) : Prop where
  scope : base.WellScoped catalog.arity? (·.BelongsTo (.type id) (catalog.genericArity id))
  shape : base.Shaped
  closed : ∀ definition, base = .named definition → catalog.genericArity definition = 0

/-- What holds of a member: its declaring type is there, and its types are in scope and built as types
are written. -/
structure MemberInScope (catalog : Catalog) (id : MemberId) (member : MemberDef) : Prop where
  declaring : ∃ count, catalog.arity? member.declaringType = some count
  scope : ∀ type ∈ member.types, type.WellScoped catalog.arity?
    (Owns member.declaringType (catalog.genericArity member.declaringType) id
      member.genericParams.length)
  shape : ∀ type ∈ member.types, type.Shaped

/-- What holds of every catalog that a listing describes. -/
structure Loaded (catalog : Catalog) : Prop where
  names_nodup : (catalog.types.map (·.name)).Nodup
  declared : ∀ type ∈ catalog.types, declaredArity type.name = type.genericParams.length
  base : ∀ {id : TypeId} {base : TypeExpr}, catalog.baseType? id = some base →
    catalog.BaseInScope id base
  member : ∀ {id : MemberId} {member : MemberDef}, catalog.memberDef? id = some member →
    catalog.MemberInScope id member
  mem_membersOf : ∀ (declaring : TypeId) (id : MemberId), id ∈ catalog.membersOf declaring ↔
    ∃ member, catalog.memberDef? id = some member ∧ member.declaringType = declaring
  membersOf_sorted : ∀ declaring : TypeId,
    (catalog.membersOf declaring).Pairwise fun id other => id.index < other.index

theorem Loaded.membersOf_nodup {catalog : Catalog} (h : catalog.Loaded) (declaring : TypeId) :
    (catalog.membersOf declaring).Nodup := by
  refine (h.membersOf_sorted declaring).imp ?_
  rintro id other hlt rfl
  exact absurd hlt (Nat.lt_irrefl _)

theorem Loaded.exists_memberDef? {catalog : Catalog} (h : catalog.Loaded) {declaring : TypeId}
    {id : MemberId} (hid : id ∈ catalog.membersOf declaring) :
    ∃ member, catalog.memberDef? id = some member := by
  obtain ⟨member, hmember, -⟩ := (h.mem_membersOf declaring id).mp hid
  exact ⟨member, hmember⟩

/-! ### Registration -/

/-- What is registered of a listed type before signatures are read. -/
def registered (type : ListedType) : TypeDef :=
  ⟨type.fullName, type.genericParams, none, []⟩

/-- Whether a catalog holds the names of a listing, and nothing else. -/
structure Registers (catalog : Catalog) (listing : Listing) : Prop where
  types : catalog.types = listing.map registered
  names_nodup : (listing.map ListedType.fullName).Nodup
  declared : ∀ type ∈ listing, declaredArity type.fullName = type.genericParams.length

theorem Registers.names {catalog : Catalog} {listing : Listing} (h : catalog.Registers listing) :
    catalog.types.map (·.name) = listing.map ListedType.fullName := by
  rw [h.types, List.map_map]
  rfl

theorem Registers.register {catalog next : Catalog} {listing : Listing} {type : ListedType}
    (h : catalog.Registers listing) (hnext : catalog.register type = .ok next) :
    next.Registers (listing ++ [type]) := by
  simp only [Catalog.register] at hnext
  split at hnext
  · cases hnext
  · next hnew =>
    split at hnext
    · cases hnext
    · next hdeclared =>
      cases hnext
      refine ⟨?_, ?_, ?_⟩
      · rw [h.types, List.map_append]
        rfl
      · have hfresh : type.fullName ∉ listing.map ListedType.fullName := by
          rw [← h.names]
          intro hmem
          obtain ⟨other, hother, hname⟩ := List.mem_map.mp hmem
          refine hnew ?_
          rw [typeNamed?, Option.isSome_map, List.findIdx?_isSome, List.any_eq_true]
          exact ⟨other, hother, decide_eq_true hname⟩
        rw [List.map_append, List.map_cons, List.map_nil, List.nodup_append]
        refine ⟨h.names_nodup, List.nodup_singleton _, ?_⟩
        rintro name hname other hother rfl
        rw [List.mem_singleton] at hother
        exact hfresh (hother ▸ hname)
      · intro other hother
        rcases List.mem_append.mp hother with hother | hother
        · exact h.declared other hother
        · rw [List.mem_singleton.mp hother]
          exact not_not.mp hdeclared

theorem Registers.foldlM {catalog final : Catalog} {done rest : Listing}
    (h : catalog.Registers done) (hfinal : rest.foldlM Catalog.register catalog = .ok final) :
    final.Registers (done ++ rest) := by
  induction rest generalizing catalog done with
  | nil =>
    rw [List.foldlM_nil, pure_eq_ok] at hfinal
    rwa [List.append_nil, ← hfinal]
  | cons type rest ih =>
    rw [List.foldlM_cons, bind_eq_ok] at hfinal
    obtain ⟨next, hnext, hrest⟩ := hfinal
    have hfinal := ih (h.register hnext) hrest
    rwa [List.append_assoc, List.singleton_append] at hfinal

theorem registerAll_registers {listing : Listing} {names : Catalog}
    (h : registerAll listing = .ok names) : names.Registers listing := by
  have hnil : Registers ⟨[], []⟩ [] := ⟨rfl, List.nodup_nil, by simp⟩
  exact hnil.foldlM h

/-! ### Signatures -/

section Signatures

variable {names : Catalog} {bindings : Bindings} {owns : GenericParam → Prop}
  {place : SignaturePlace}

theorem mem_params {owner : ParamOwner} {count : Nat} {type : TypeExpr}
    (h : type ∈ owner.params count) : ∃ p < count, type = .param ⟨owner, p⟩ := by
  obtain ⟨p, hp, rfl⟩ := List.mem_map.mp h
  exact ⟨p, List.mem_range.mp hp, rfl⟩

/-- Whether what parameters stand for in a signature is in scope and may be continued. -/
structure BindingsFit (names : Catalog) (owns : GenericParam → Prop) (bindings : Bindings) :
    Prop where
  scope : names.BindingsInScope owns bindings
  shape : BindingsShaped bindings

/-- The parameters of a type and those of one of its members fit. -/
theorem bindingsFit_params (names : Catalog) (declaring : TypeId) (id : MemberId) (count : Nat) :
    names.BindingsFit (Owns declaring (names.genericArity declaring) id count)
      ⟨names.typeParams declaring, ParamOwner.params (.method id) count⟩ := by
  refine ⟨?_, ?_⟩
  · intro type htype
    rcases List.mem_append.mp htype with htype | htype
    · obtain ⟨p, hp, rfl⟩ := mem_params htype
      exact .param (.inl ⟨rfl, hp⟩)
    · obtain ⟨p, hp, rfl⟩ := mem_params htype
      exact .param (.inr ⟨rfl, hp⟩)
  · intro type htype
    rcases List.mem_append.mp htype with htype | htype
    · obtain ⟨p, -, rfl⟩ := mem_params htype
      exact ⟨.param, rfl⟩
    · obtain ⟨p, -, rfl⟩ := mem_params htype
      exact ⟨.param, rfl⟩

theorem readSignature_inScope (hbindings : names.BindingsFit owns bindings) {text : Text}
    {type : TypeExpr} (h : names.readSignature bindings place text = .ok type) :
    type.WellScoped names.arity? owns ∧ type.Shaped := by
  simp only [readSignature] at h
  split at h
  · cases h
  · next node hnode =>
    split at h
    · next hresolve =>
      cases h
      obtain ⟨hshape, hwritable⟩ := Node.wellFormedType_of_parseType hnode
      exact ⟨resolveType_wellScoped hbindings.scope node hresolve,
        (resolveType_shaped hbindings.shape node hshape hwritable hresolve).1⟩
    · cases h

theorem readSignatures_inScope (hbindings : names.BindingsFit owns bindings) {texts : List Text}
    {types : List TypeExpr} (h : names.readSignatures bindings place texts = .ok types) :
    ∀ type ∈ types, type.WellScoped names.arity? owns ∧ type.Shaped := by
  induction texts generalizing types with
  | nil =>
    cases h
    simp
  | cons text texts ih =>
    simp only [readSignatures, bind_eq_ok, pure_eq_ok] at h
    obtain ⟨head, hhead, tail, htail, rfl⟩ := h
    intro type htype
    rcases List.mem_cons.mp htype with rfl | htype
    · exact readSignature_inScope hbindings hhead
    · exact ih htail type htype

theorem readOptional_inScope (hbindings : names.BindingsFit owns bindings) {text : Option Text}
    {returns : Option TypeExpr} (h : names.readOptional bindings place text = .ok returns) :
    ∀ type ∈ returns, type.WellScoped names.arity? owns ∧ type.Shaped := by
  cases text with
  | none =>
    cases h
    simp
  | some text =>
    simp only [readOptional, bind_eq_ok, pure_eq_ok] at h
    obtain ⟨type, htype, rfl⟩ := h
    intro other hother
    cases hother
    exact readSignature_inScope hbindings htype

theorem readBase_inScope {id : TypeId} {type : ListedType} {base : TypeExpr}
    (h : names.readBase id type = .ok (some base)) : names.BaseInScope id base := by
  have hbindings : names.BindingsFit (·.BelongsTo (.type id) (names.genericArity id))
      ⟨names.typeParams id, []⟩ := by
    have hfit := bindingsFit_params names id ⟨0⟩ 0
    refine ⟨fun type htype => (hfit.scope type htype).mono ?_, hfit.shape⟩
    rintro param (hparam | ⟨-, hposition⟩)
    · exact hparam
    · exact absurd hposition (Nat.not_lt_zero _)
  simp only [readBase] at h
  split at h
  · cases h
  · simp only [bind_eq_ok] at h
    obtain ⟨found, hfound, hclosed⟩ := h
    obtain ⟨hscope, hshape⟩ := readSignature_inScope hbindings hfound
    split at hclosed
    · split at hclosed
      · next hzero =>
        cases hclosed
        refine ⟨hscope, hshape, ?_⟩
        rintro definition hdefinition
        cases hdefinition
        exact hzero
      · cases hclosed
    · next hnamed =>
      cases hclosed
      exact ⟨hscope, hshape, fun definition hdefinition => absurd hdefinition (hnamed definition)⟩

theorem readMember_inScope {declaring : TypeId} {type : ListedType} {id : MemberId}
    {listed : ListedMember} {member : MemberDef} {count : Nat}
    (hdeclaring : names.arity? declaring = some count)
    (h : names.readMember declaring type id listed = .ok member) :
    member.declaringType = declaring ∧ names.MemberInScope id member := by
  have hbindings := bindingsFit_params names declaring id listed.genericParams.length
  simp only [readMember, bind_eq_ok, pure_eq_ok] at h
  obtain ⟨parameters, hparameters, returns, hreturns, rfl⟩ := h
  have htypes : ∀ type ∈ parameters ++ returns.toList, type.WellScoped names.arity?
      (Owns declaring (names.genericArity declaring) id listed.genericParams.length) ∧
        type.Shaped := by
    intro type htype
    rcases List.mem_append.mp htype with htype | htype
    · exact readSignatures_inScope hbindings hparameters type htype
    · exact readOptional_inScope hbindings hreturns type (Option.mem_toList.mp htype)
  exact ⟨rfl, ⟨count, hdeclaring⟩, fun type htype => (htypes type htype).1,
    fun type htype => (htypes type htype).2⟩

/-- The members of a type are in scope, numbered from `first`. -/
theorem readMembers_inScope {declaring : TypeId} {type : ListedType} {count : Nat}
    (hdeclaring : names.arity? declaring = some count) {listed : List ListedMember} {first : Nat}
    {members : List MemberDef}
    (h : names.readMembers declaring type first listed = .ok members) {offset : Nat}
    {member : MemberDef} (hmember : members[offset]? = some member) :
    member.declaringType = declaring ∧ names.MemberInScope ⟨first + offset⟩ member := by
  induction listed generalizing first members offset with
  | nil =>
    cases h
    cases hmember
  | cons next listed ih =>
    simp only [readMembers, bind_eq_ok, pure_eq_ok] at h
    obtain ⟨head, hhead, tail, htail, rfl⟩ := h
    cases offset with
    | zero =>
      cases hmember
      exact readMember_inScope hdeclaring hhead
    | succ offset =>
      have hscope := ih htail hmember
      rwa [Nat.add_assoc, Nat.add_comm 1] at hscope

end Signatures

/-! ### Tables -/

/-- What holds of the tables for a part of a listing, whose types are numbered from `index` and whose
members from `first`. -/
structure Completes (names : Catalog) (index first : Nat) (listing : Listing) (part : Catalog) :
    Prop where
  typeNames : part.types.map (·.name) = listing.map ListedType.fullName
  typeParams : part.types.map (·.genericParams) = listing.map (·.genericParams)
  base : ∀ {place : Nat} {type : TypeDef} {base : TypeExpr}, part.types[place]? = some type →
    type.base = some base → names.BaseInScope ⟨index + place⟩ base
  member : ∀ {offset : Nat} {member : MemberDef}, part.members[offset]? = some member →
    index ≤ member.declaringType.index ∧ names.MemberInScope ⟨first + offset⟩ member
  mem_members : ∀ {place : Nat} {type : TypeDef}, part.types[place]? = some type →
    ∀ id : MemberId, id ∈ type.members ↔ ∃ offset member, id = ⟨first + offset⟩ ∧
      part.members[offset]? = some member ∧ member.declaringType = ⟨index + place⟩
  sorted : ∀ type ∈ part.types, type.members.Pairwise fun id other => id.index < other.index

theorem mem_consecutive {first count : Nat} {id : MemberId} :
    id ∈ (List.range' first count).map MemberId.mk ↔ ∃ offset < count, id = ⟨first + offset⟩ := by
  simp only [List.mem_map, List.mem_range'_1]
  constructor
  · rintro ⟨index, ⟨hlow, hhigh⟩, rfl⟩
    exact ⟨index - first, by omega, by rw [Nat.add_sub_cancel' hlow]⟩
  · rintro ⟨offset, hoffset, rfl⟩
    exact ⟨first + offset, ⟨by omega, by omega⟩, rfl⟩

section Cons

variable {names part : Catalog} {index first : Nat} {listing : Listing} {members : List MemberDef}

/-- A member of the tables with a type in front belongs to that type or to the tables before. -/
theorem getElem?_append_cases {others : List MemberDef} {offset : Nat} {member : MemberDef}
    (h : (members ++ others)[offset]? = some member) :
    members[offset]? = some member ∨
      members.length ≤ offset ∧ others[offset - members.length]? = some member := by
  by_cases hoffset : offset < members.length
  · rw [List.getElem?_append_left hoffset] at h
    exact .inl h
  · rw [List.getElem?_append_right (by omega)] at h
    exact .inr ⟨by omega, h⟩

theorem Completes.mem_first (h : Completes names (index + 1) (first + members.length) listing part)
    (hmembers : ∀ {offset : Nat} {member : MemberDef}, members[offset]? = some member →
      member.declaringType = ⟨index⟩) (id : MemberId) :
    id ∈ (List.range' first members.length).map MemberId.mk ↔
      ∃ offset member, id = ⟨first + offset⟩ ∧
        (members ++ part.members)[offset]? = some member ∧ member.declaringType = ⟨index⟩ := by
  rw [mem_consecutive]
  constructor
  · rintro ⟨offset, hoffset, rfl⟩
    have hmember := List.getElem?_eq_getElem hoffset
    refine ⟨offset, members[offset], rfl, ?_, hmembers hmember⟩
    rw [List.getElem?_append_left hoffset, hmember]
  · rintro ⟨offset, member, rfl, hmember, hdeclaring⟩
    rcases getElem?_append_cases hmember with hmember | ⟨-, hmember⟩
    · exact ⟨offset, (List.getElem?_eq_some_iff.mp hmember).1, rfl⟩
    · have hindex := (h.member hmember).1
      rw [hdeclaring] at hindex
      exact absurd hindex (Nat.not_succ_le_self index)

theorem Completes.mem_later (h : Completes names (index + 1) (first + members.length) listing part)
    (hmembers : ∀ {offset : Nat} {member : MemberDef}, members[offset]? = some member →
      member.declaringType = ⟨index⟩) {place : Nat} {type : TypeDef}
    (htype : part.types[place]? = some type) (id : MemberId) :
    id ∈ type.members ↔ ∃ offset member, id = ⟨first + offset⟩ ∧
      (members ++ part.members)[offset]? = some member ∧
        member.declaringType = ⟨index + (place + 1)⟩ := by
  rw [h.mem_members htype, show index + 1 + place = index + (place + 1) by omega]
  constructor
  · rintro ⟨offset, member, rfl, hmember, hdeclaring⟩
    refine ⟨members.length + offset, member, by rw [Nat.add_assoc], ?_, hdeclaring⟩
    rw [List.getElem?_append_right (Nat.le_add_right _ _), Nat.add_sub_cancel_left]
    exact hmember
  · rintro ⟨offset, member, rfl, hmember, hdeclaring⟩
    rcases getElem?_append_cases hmember with hmember | ⟨hoffset, hmember⟩
    · rw [hmembers hmember] at hdeclaring
      have hindex : index = index + (place + 1) := congrArg TypeId.index hdeclaring
      omega
    · refine ⟨offset - members.length, member, ?_, hmember, hdeclaring⟩
      rw [show first + members.length + (offset - members.length) = first + offset by omega]

/-- The tables for one more type, in front. -/
theorem Completes.cons {type : ListedType} {base : Option TypeExpr}
    (hbase : ∀ type ∈ base, names.BaseInScope ⟨index⟩ type)
    (hmembers : ∀ {offset : Nat} {member : MemberDef}, members[offset]? = some member →
      member.declaringType = ⟨index⟩ ∧ names.MemberInScope ⟨first + offset⟩ member)
    (h : Completes names (index + 1) (first + members.length) listing part) :
    Completes names index first (type :: listing)
      ⟨⟨type.fullName, type.genericParams, base,
        (List.range' first members.length).map MemberId.mk⟩ :: part.types,
        members ++ part.members⟩ := by
  refine ⟨?_, ?_, ?_, ?_, ?_, ?_⟩
  · rw [List.map_cons, List.map_cons, h.typeNames]
  · rw [List.map_cons, List.map_cons, h.typeParams]
  · intro place found base hfound hbase'
    cases place with
    | zero =>
      cases hfound
      exact hbase base hbase'
    | succ place =>
      rw [show index + (place + 1) = index + 1 + place by omega]
      exact h.base hfound hbase'
  · intro offset member hmember
    rcases getElem?_append_cases hmember with hmember | ⟨hoffset, hmember⟩
    · have hscope := hmembers hmember
      exact ⟨by rw [hscope.1], hscope.2⟩
    · have hscope := h.member hmember
      rw [show first + members.length + (offset - members.length) = first + offset by omega]
        at hscope
      exact ⟨by omega, hscope.2⟩
  · intro place found hfound
    cases place with
    | zero =>
      cases hfound
      exact h.mem_first fun hmember => (hmembers hmember).1
    | succ place => exact h.mem_later (fun hmember => (hmembers hmember).1) hfound
  · intro found hfound
    rcases List.mem_cons.mp hfound with rfl | hfound
    · exact List.Pairwise.map _ (fun _ _ hlt => hlt) List.pairwise_lt_range'
    · exact h.sorted found hfound

end Cons

theorem complete_completes {names : Catalog} {listing : Listing} {index first : Nat}
    {part : Catalog}
    (hnames : ∀ place < listing.length, ∃ count, names.arity? ⟨index + place⟩ = some count)
    (h : names.complete index first listing = .ok part) :
    Completes names index first listing part := by
  induction listing generalizing index first part with
  | nil =>
    cases h
    exact ⟨rfl, rfl, nofun, nofun, nofun, nofun⟩
  | cons type listing ih =>
    simp only [complete, bind_eq_ok, pure_eq_ok] at h
    obtain ⟨base, hbase, members, hmembers, rest, hrest, rfl⟩ := h
    obtain ⟨count, hcount⟩ := hnames 0 (Nat.succ_pos _)
    refine Completes.cons ?_ (fun hmember => readMembers_inScope hcount hmembers hmember)
      (ih ?_ hrest)
    · intro found hfound
      cases hfound
      exact readBase_inScope hbase
    · intro place hplace
      have hlater := hnames (place + 1) (Nat.succ_lt_succ hplace)
      rwa [← Nat.add_assoc, Nat.add_right_comm] at hlater

theorem BaseInScope.congr {names catalog : Catalog} (h : names.arity? = catalog.arity?)
    {id : TypeId} {base : TypeExpr} (hbase : names.BaseInScope id base) :
    catalog.BaseInScope id base := by
  have hgeneric : names.genericArity = catalog.genericArity :=
    funext fun id => congrArg (fun arity? : TypeId → Option Nat => (arity? id).getD 0) h
  obtain ⟨hscope, hshape, hclosed⟩ := hbase
  rw [h, hgeneric] at hscope
  rw [hgeneric] at hclosed
  exact ⟨hscope, hshape, hclosed⟩

theorem MemberInScope.congr {names catalog : Catalog} (h : names.arity? = catalog.arity?)
    {id : MemberId} {member : MemberDef} (hmember : names.MemberInScope id member) :
    catalog.MemberInScope id member := by
  have hgeneric : names.genericArity = catalog.genericArity :=
    funext fun id => congrArg (fun arity? : TypeId → Option Nat => (arity? id).getD 0) h
  obtain ⟨hdeclaring, hscope, hshape⟩ := hmember
  rw [h, hgeneric] at hscope
  rw [h] at hdeclaring
  exact ⟨hdeclaring, hscope, hshape⟩

section Whole

variable {names catalog : Catalog} {listing : Listing}

/-- The names of all types declare as many parameters as are listed. -/
theorem Completes.declared {index first : Nat} (h : Completes names index first listing catalog)
    (hlisting : ∀ type ∈ listing, declaredArity type.fullName = type.genericParams.length) :
    ∀ type ∈ catalog.types, declaredArity type.name = type.genericParams.length := by
  intro type htype
  obtain ⟨place, hplace, rfl⟩ := List.mem_iff_getElem.mp htype
  have hlength : listing.length = catalog.types.length := by
    have hnames := congrArg List.length h.typeNames
    rwa [List.length_map, List.length_map, eq_comm] at hnames
  have hname := congrArg (·[place]?) h.typeNames
  have hparams := congrArg (·[place]?) h.typeParams
  simp only [List.getElem?_map, List.getElem?_eq_getElem hplace,
    List.getElem?_eq_getElem (hlength ▸ hplace), Option.map_some, Option.some.injEq]
    at hname hparams
  rw [hname, hparams]
  exact hlisting _ (List.getElem_mem _)

/-- Whole tables list the members of each type. -/
theorem Completes.mem_membersOf (h : Completes names 0 0 listing catalog)
    (hdeclared : ∀ {id : MemberId} {member : MemberDef}, catalog.memberDef? id = some member →
      ∃ type, catalog.typeDef? member.declaringType = some type) (declaring : TypeId)
    (id : MemberId) :
    id ∈ catalog.membersOf declaring ↔
      ∃ member, catalog.memberDef? id = some member ∧ member.declaringType = declaring := by
  cases htype : catalog.typeDef? declaring with
  | none =>
    rw [membersOf, htype]
    refine ⟨fun hmem => absurd hmem List.not_mem_nil, ?_⟩
    rintro ⟨member, hmember, rfl⟩
    obtain ⟨type, hsome⟩ := hdeclared hmember
    rw [htype] at hsome
    cases hsome
  | some type =>
    have hmem := h.mem_members htype id
    simp only [Nat.zero_add] at hmem
    rw [membersOf, htype, Option.map_some, Option.getD_some, hmem]
    constructor
    · rintro ⟨offset, member, rfl, hmember, hdeclaring⟩
      exact ⟨member, hmember, hdeclaring⟩
    · rintro ⟨member, hmember, hdeclaring⟩
      exact ⟨id.index, member, rfl, hmember, hdeclaring⟩

theorem Completes.membersOf_sorted {index first : Nat}
    (h : Completes names index first listing catalog) (declaring : TypeId) :
    (catalog.membersOf declaring).Pairwise fun id other => id.index < other.index := by
  cases htype : catalog.typeDef? declaring with
  | none =>
    rw [membersOf, htype]
    exact List.Pairwise.nil
  | some type =>
    rw [membersOf, htype]
    exact h.sorted type (List.mem_of_getElem? htype)

end Whole

/-- A catalog that a listing describes completes the registered names. -/
theorem exists_completes {listing : Listing} {catalog : Catalog}
    (h : ofListing listing = .ok catalog) : ∃ names : Catalog, names.Registers listing ∧
      names.complete 0 0 listing = .ok catalog ∧ Completes names 0 0 listing catalog := by
  simp only [ofListing, bind_eq_ok] at h
  obtain ⟨names, hnames, hcatalog⟩ := h
  have hregisters := registerAll_registers hnames
  refine ⟨names, hregisters, hcatalog, complete_completes ?_ hcatalog⟩
  intro place hplace
  have htype : names.typeDef? ⟨0 + place⟩ = some (registered listing[place]) := by
    rw [typeDef?, hregisters.types, Nat.zero_add, List.getElem?_map,
      List.getElem?_eq_getElem hplace, Option.map_some]
  exact ⟨_, arity?_eq_some htype⟩

/-- A catalog that a listing describes is in order. -/
theorem ofListing_loaded {listing : Listing} {catalog : Catalog}
    (h : ofListing listing = .ok catalog) : catalog.Loaded := by
  obtain ⟨names, hregisters, -, hcompletes⟩ := exists_completes h
  -- Signatures are read against the registered names, which have the arities of the tables.
  have harity : names.arity? = catalog.arity? := by
    apply arity?_congr
    rw [hcompletes.typeParams, hregisters.types, List.map_map]
    rfl
  have hmembers : ∀ {id : MemberId} {member : MemberDef}, catalog.memberDef? id = some member →
      catalog.MemberInScope id member := by
    intro id member hmember
    have hscope := (hcompletes.member hmember).2
    rw [Nat.zero_add] at hscope
    exact hscope.congr harity
  refine ⟨?_, hcompletes.declared hregisters.declared, ?_, hmembers,
    hcompletes.mem_membersOf fun hmember => ?_, hcompletes.membersOf_sorted⟩
  · rw [hcompletes.typeNames]
    exact hregisters.names_nodup
  · intro id base hbase
    obtain ⟨type, htype, hbase⟩ := Option.bind_eq_some_iff.mp hbase
    have hscope := hcompletes.base htype hbase
    rw [Nat.zero_add] at hscope
    exact hscope.congr harity
  · obtain ⟨count, hcount⟩ := (hmembers hmember).declaring
    obtain ⟨type, htype, -⟩ := typeDef?_of_arity? hcount
    exact ⟨type, htype⟩

/-- A catalog that is read from a text is that of the listing in it. -/
theorem exists_listing_of_ofText {text : Text} {catalog : Catalog} (h : ofText text = .ok catalog) :
    ∃ listing, (Toml.read? text).bind Listing.ofToml? = some listing ∧
      ofListing listing = .ok catalog := by
  rw [ofText] at h
  cases hvalue : Toml.read? text with
  | none =>
    rw [hvalue] at h
    cases h
  | some value =>
    rw [hvalue] at h
    replace h : ofToml value = .ok catalog := h
    rw [ofToml] at h
    cases hlisting : Listing.ofToml? value with
    | none =>
      rw [hlisting] at h
      cases h
    | some listing =>
      rw [hlisting] at h
      cases hcatalog : ofListing listing with
      | error fault =>
        simp only [hcatalog] at h
        cases h
      | ok found =>
        simp only [hcatalog] at h
        cases h
        exact ⟨listing, hlisting, hcatalog⟩

theorem exists_ofListing {text : Text} {catalog : Catalog} (h : ofText text = .ok catalog) :
    ∃ listing, ofListing listing = .ok catalog :=
  let ⟨listing, _, hlisting⟩ := exists_listing_of_ofText h
  ⟨listing, hlisting⟩

theorem ofText_loaded {text : Text} {catalog : Catalog} (h : ofText text = .ok catalog) :
    catalog.Loaded := by
  obtain ⟨listing, hlisting⟩ := exists_ofListing h
  exact ofListing_loaded hlisting

end Catalog

end DocRef

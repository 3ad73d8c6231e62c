import DocRef.Proofs.Arity
import DocRef.Proofs.Catalog.Loading
import DocRef.Proofs.Resolution.Parameters

/-!
Which listings are catalogs. Names are registered and signatures are read in two passes that stop at
the first fault, and members get their ids on the way; but whether all goes well can be said of each
type by itself, given the names of all of them (`ofListing_ok_iff`). What is then stored is in scope.
-/

namespace DocRef

/-- The types of a listing by their names, before any signature is read. -/
def Listing.names (listing : Listing) : Catalog :=
  ⟨listing.map Catalog.registered, []⟩

/-- The texts of a listed member's parameters, and that of its return type. -/
def ListedMember.signature (member : ListedMember) : List Text :=
  member.parameters ++ member.returns.toList

namespace Catalog

/-- Whether a text can be read as a type where the enclosing type has `typeCount` parameters and the
enclosing member `methodCount`: it is written as a type, its parameters are among these, and what it
names is there. -/
def Reads (names : Catalog) (typeCount methodCount : Nat) (text : Text) : Prop :=
  ∃ node, Node.parseType text = .ok node ∧ node.ParamsBelow typeCount methodCount ∧
    ∃ bindings type, names.resolveType bindings node = some type

/-- Whether a text names a generic type without arguments. -/
def LeavesOpen (names : Catalog) (text : Text) : Prop :=
  ∃ node definition, Node.parseType text = .ok node ∧
    names.resolveType .none node = some (.named definition) ∧ names.genericArity definition ≠ 0

/-- Whether all types that a catalog stores are in scope: those of bases in the type that has the base,
and those of a member in the member and its declaring type. -/
structure InScope (catalog : Catalog) : Prop where
  base : ∀ {id : TypeId} {base : TypeExpr}, catalog.baseType? id = some base →
    base.WellScoped catalog.arity? (·.BelongsTo (.type id) (catalog.genericArity id))
  member : ∀ {id : MemberId} {member : MemberDef}, catalog.memberDef? id = some member →
    ∀ type ∈ member.types, type.WellScoped catalog.arity?
      (Owns member.declaringType (catalog.genericArity member.declaringType) id
        member.genericParams.length)

theorem Loaded.inScope {catalog : Catalog} (h : catalog.Loaded) : catalog.InScope :=
  ⟨fun hbase => (h.base hbase).scope, fun hmember => (h.member hmember).scope⟩

end Catalog

/-- Whether every type of a listing can stand in a catalog together with all the others. -/
structure Listing.Acceptable (listing : Listing) : Prop where
  names_nodup : (listing.map ListedType.fullName).Nodup
  /-- The markers in a name add up to the parameters that are listed. -/
  declared : ∀ type ∈ listing,
    aritySum (type.fullName.split '.') = type.genericParams.length
  base : ∀ type ∈ listing, ∀ text ∈ type.base,
    listing.names.Reads type.genericParams.length 0 text ∧ ¬ listing.names.LeavesOpen text
  signature : ∀ type ∈ listing, ∀ member ∈ type.members, ∀ text ∈ member.signature,
    listing.names.Reads type.genericParams.length member.genericParams.length text

/-- Whether ids and positions fit 32 bits. -/
structure Listing.Bounded (listing : Listing) : Prop where
  types : listing.length < 0x100000000
  members : (listing.flatMap ListedType.members).length < 0x100000000
  typeParams : ∀ type ∈ listing, type.genericParams.length < 0x100000000
  memberParams : ∀ type ∈ listing, ∀ member ∈ type.members,
    member.genericParams.length < 0x100000000

namespace Catalog

/-! ### Names -/

theorem register_eq_ok {names : Catalog} {type : ListedType}
    (hfresh : type.fullName ∉ names.types.map (·.name))
    (hdeclared : declaredArity type.fullName = type.genericParams.length) :
    names.register type = .ok { names with types := names.types ++ [registered type] } := by
  have hnew : ¬ (names.typeNamed? type.fullName).isSome := by
    rw [typeNamed?, Option.isSome_map, List.findIdx?_isSome, List.any_eq_true]
    rintro ⟨other, hother, hname⟩
    apply hfresh
    exact List.mem_map.mpr ⟨other, hother, of_decide_eq_true hname⟩
  simp only [register, if_neg hnew, hdeclared, ne_eq, not_true_eq_false, if_false]
  rfl

theorem foldlM_register {done rest : Listing}
    (hnodup : ((done ++ rest).map ListedType.fullName).Nodup)
    (hdeclared : ∀ type ∈ rest, declaredArity type.fullName = type.genericParams.length) :
    rest.foldlM register done.names = .ok (Listing.names (done ++ rest)) := by
  induction rest generalizing done with
  | nil =>
    rw [List.append_nil]
    rfl
  | cons type rest ih =>
    have hfresh : type.fullName ∉ done.names.types.map (·.name) := by
      rw [List.map_append, List.map_cons, List.nodup_append] at hnodup
      show type.fullName ∉ (done.map registered).map (·.name)
      rw [List.map_map]
      intro hmem
      exact hnodup.2.2 _ hmem _ List.mem_cons_self rfl
    have hnext : { done.names with types := done.names.types ++ [registered type] } =
        Listing.names (done ++ [type]) := by
      rw [Listing.names, Listing.names, List.map_append]
      rfl
    have happend : done ++ type :: rest = (done ++ [type]) ++ rest := by
      rw [List.append_assoc, List.singleton_append]
    rw [List.foldlM_cons, register_eq_ok hfresh (hdeclared type List.mem_cons_self), hnext, happend]
    apply ih
    · rwa [← happend]
    · exact fun other hother => hdeclared other (List.mem_cons_of_mem _ hother)

/-- The names of a listing are registered if they are distinct and state as many parameters as are
listed. -/
theorem registerAll_eq_ok_iff {listing : Listing} {names : Catalog} :
    registerAll listing = .ok names ↔ names = listing.names ∧
      (listing.map ListedType.fullName).Nodup ∧
      ∀ type ∈ listing, declaredArity type.fullName = type.genericParams.length := by
  have hall : ∀ {types : Listing}, (types.map ListedType.fullName).Nodup →
      (∀ type ∈ types, declaredArity type.fullName = type.genericParams.length) →
        registerAll types = .ok types.names := by
    intro types hnodup hdeclared
    exact @foldlM_register [] types hnodup hdeclared
  constructor
  · intro h
    have hregisters := registerAll_registers h
    have hnames := hall hregisters.names_nodup hregisters.declared
    rw [h] at hnames
    exact ⟨Except.ok.inj hnames, hregisters.names_nodup, hregisters.declared⟩
  · rintro ⟨rfl, hnodup, hdeclared⟩
    exact hall hnodup hdeclared

/-! ### Signatures -/

theorem exists_bind_ok {ε α β : Type} {first : Except ε α} {next : α → Except ε β} :
    (∃ b, first >>= next = .ok b) ↔ ∃ a, first = .ok a ∧ ∃ b, next a = .ok b := by
  simp only [bind_eq_ok]
  constructor
  · rintro ⟨b, a, hfirst, hnext⟩
    exact ⟨a, hfirst, b, hnext⟩
  · rintro ⟨a, hfirst, b, hnext⟩
    exact ⟨b, a, hfirst, hnext⟩

section Signatures

variable {names : Catalog} {typeArgs methodArgs : List TypeExpr} {place : SignaturePlace}

theorem readSignature_eq_ok_iff {bindings : Bindings} {text : Text} {type : TypeExpr} :
    names.readSignature bindings place text = .ok type ↔ ∃ node,
      Node.parseType text = .ok node ∧ names.resolveType bindings node = some type := by
  rw [readSignature]
  cases hparse : Node.parseType text with
  | error malformed => simp
  | ok node =>
    cases hresolve : names.resolveType bindings node with
    | none => simp [hresolve]
    | some found => simp [hresolve]

theorem readSignature_ok_iff {text : Text} :
    (∃ type, names.readSignature ⟨typeArgs, methodArgs⟩ place text = .ok type) ↔
      names.Reads typeArgs.length methodArgs.length text := by
  simp only [readSignature_eq_ok_iff]
  constructor
  · rintro ⟨type, node, hparse, htype⟩
    obtain ⟨hbinds, hother⟩ := (resolveType_isSome_iff node).mp ⟨type, htype⟩
    exact ⟨node, hparse, hbinds, hother⟩
  · rintro ⟨node, hparse, hbelow, hother⟩
    have hbinds : Binds ⟨typeArgs, methodArgs⟩ node := hbelow
    obtain ⟨type, htype⟩ := (resolveType_isSome_iff node).mpr ⟨hbinds, hother⟩
    exact ⟨type, node, hparse, htype⟩

theorem readSignatures_ok_iff {texts : List Text} :
    (∃ types, names.readSignatures ⟨typeArgs, methodArgs⟩ place texts = .ok types) ↔
      ∀ text ∈ texts, names.Reads typeArgs.length methodArgs.length text := by
  induction texts with
  | nil => exact ⟨fun _ => nofun, fun _ => ⟨[], rfl⟩⟩
  | cons text texts ih =>
    rw [List.forall_mem_cons, ← ih, ← readSignature_ok_iff, readSignatures, exists_bind_ok]
    constructor
    · rintro ⟨type, htype, hrest⟩
      obtain ⟨types, htypes, -⟩ := exists_bind_ok.mp hrest
      exact ⟨⟨type, htype⟩, types, htypes⟩
    · rintro ⟨⟨type, htype⟩, types, htypes⟩
      exact ⟨type, htype, exists_bind_ok.mpr ⟨types, htypes, _, rfl⟩⟩

theorem readOptional_ok_iff {listed : Option Text} :
    (∃ returns, names.readOptional ⟨typeArgs, methodArgs⟩ place listed = .ok returns) ↔
      ∀ text ∈ listed, names.Reads typeArgs.length methodArgs.length text := by
  cases listed with
  | none => exact ⟨fun _ => nofun, fun _ => ⟨none, rfl⟩⟩
  | some text =>
    rw [readOptional, exists_bind_ok]
    constructor
    · rintro ⟨type, htype, -⟩ _ ⟨⟩
      exact readSignature_ok_iff.mp ⟨type, htype⟩
    · intro h
      obtain ⟨type, htype⟩ := readSignature_ok_iff.mpr (h text rfl)
      exact ⟨type, htype, _, rfl⟩

end Signatures

theorem length_params (owner : ParamOwner) (count : Nat) : (owner.params count).length = count := by
  rw [ParamOwner.params, List.length_map, List.length_range]

/-- Parameters do not stand for catalog types in their own declarations. -/
theorem not_bindsNames_params (names : Catalog) (id : TypeId) :
    ¬ BindsNames ⟨names.typeParams id, []⟩ := by
  rintro ⟨definition, hmem⟩
  rw [List.append_nil] at hmem
  obtain ⟨_, -, heq⟩ := mem_params hmem
  cases heq

theorem not_bindsNames_none : ¬ BindsNames .none :=
  fun ⟨_, hmem⟩ => List.not_mem_nil hmem

section Types

variable {names : Catalog} {id : TypeId} {type : ListedType}

/-- A text leaves a generic type open if and only if that is what it means as a base. -/
theorem leavesOpen_iff {text : Text} {node : Node} (hparse : Node.parseType text = .ok node) :
    names.LeavesOpen text ↔ ∃ definition,
      names.resolveType ⟨names.typeParams id, []⟩ node = some (.named definition) ∧
        names.genericArity definition ≠ 0 := by
  constructor
  · rintro ⟨other, definition, hother, hnamed, harity⟩
    rw [hparse] at hother
    cases hother
    exact ⟨definition, resolveType_eq_named not_bindsNames_none node hnamed, harity⟩
  · rintro ⟨definition, hnamed, harity⟩
    -- A base is read with the parameters of its type, which stand for no catalog type.
    have hparams := not_bindsNames_params names id
    exact ⟨node, definition, hparse, resolveType_eq_named hparams node hnamed, harity⟩

theorem readBase_ok_iff :
    (∃ base, names.readBase id type = .ok base) ↔ ∀ text ∈ type.base,
      names.Reads (names.genericArity id) 0 text ∧ ¬ names.LeavesOpen text := by
  cases hbase : type.base with
  | none =>
    rw [readBase, hbase]
    exact ⟨fun _ text htext => absurd htext (Option.not_mem_none text), fun _ => ⟨none, rfl⟩⟩
  | some text =>
    have hreads : (∃ base, names.readSignature ⟨names.typeParams id, []⟩ (.baseOf type.name) text =
        .ok base) ↔ names.Reads (names.genericArity id) 0 text := by
      rw [readSignature_ok_iff, typeParams, length_params, List.length_nil]
    rw [readBase, hbase]
    simp only [exists_bind_ok, Option.mem_some_iff, forall_eq']
    rw [← hreads]
    constructor
    · rintro ⟨base, hread, hclosed⟩
      refine ⟨⟨base, hread⟩, fun hopen => ?_⟩
      obtain ⟨node, hparse, hmeans⟩ := readSignature_eq_ok_iff.mp hread
      obtain ⟨definition, hnamed, harity⟩ := (leavesOpen_iff hparse).mp hopen
      rw [hmeans] at hnamed
      cases hnamed
      simp only [if_neg harity] at hclosed
      obtain ⟨_, hthrow⟩ := hclosed
      cases hthrow
    · rintro ⟨⟨base, hread⟩, hopen⟩
      refine ⟨base, hread, ?_⟩
      split
      · next definition =>
        obtain ⟨node, hparse, hmeans⟩ := readSignature_eq_ok_iff.mp hread
        have harity : names.genericArity definition = 0 := by
          by_contra hne
          exact hopen ((leavesOpen_iff hparse).mpr ⟨definition, hmeans, hne⟩)
        exact ⟨_, if_pos harity⟩
      · exact ⟨_, rfl⟩

theorem readMember_ok_iff {memberId : MemberId} {member : ListedMember} :
    (∃ found, names.readMember id type memberId member = .ok found) ↔
      ∀ text ∈ member.signature,
        names.Reads (names.genericArity id) member.genericParams.length text := by
  have htype : (names.typeParams id).length = names.genericArity id := length_params _ _
  have hmethod := length_params (.method memberId) member.genericParams.length
  simp only [readMember, exists_bind_ok, ListedMember.signature, List.forall_mem_append,
    Option.mem_toList]
  constructor
  · rintro ⟨parameters, hparameters, returns, hreturns, -⟩
    have hread := readSignatures_ok_iff.mp ⟨parameters, hparameters⟩
    have hreadReturns := readOptional_ok_iff.mp ⟨returns, hreturns⟩
    rw [htype, hmethod] at hread hreadReturns
    exact ⟨hread, hreadReturns⟩
  · rintro ⟨hread, hreadReturns⟩
    rw [← htype, ← hmethod] at hread hreadReturns
    obtain ⟨parameters, hparameters⟩ := readSignatures_ok_iff.mpr hread
    obtain ⟨returns, hreturns⟩ := readOptional_ok_iff.mpr hreadReturns
    exact ⟨parameters, hparameters, returns, hreturns, _, rfl⟩

theorem readMembers_ok_iff {first : Nat} {listed : List ListedMember} :
    (∃ members, names.readMembers id type first listed = .ok members) ↔
      ∀ member ∈ listed, ∀ text ∈ member.signature,
        names.Reads (names.genericArity id) member.genericParams.length text := by
  induction listed generalizing first with
  | nil => exact ⟨fun _ => nofun, fun _ => ⟨[], rfl⟩⟩
  | cons member listed ih =>
    simp only [readMembers, exists_bind_ok, List.forall_mem_cons]
    constructor
    · rintro ⟨head, hhead, tail, htail, -⟩
      exact ⟨readMember_ok_iff.mp ⟨head, hhead⟩, ih.mp ⟨tail, htail⟩⟩
    · rintro ⟨hmember, hrest⟩
      obtain ⟨head, hhead⟩ := readMember_ok_iff.mpr hmember
      obtain ⟨tail, htail⟩ := ih.mpr hrest
      exact ⟨head, hhead, tail, htail, _, rfl⟩

/-- Whether the base of a listed type and the signatures of its members can be read. -/
structure ReadsType (names : Catalog) (type : ListedType) : Prop where
  base : ∀ text ∈ type.base,
    names.Reads type.genericParams.length 0 text ∧ ¬ names.LeavesOpen text
  signature : ∀ member ∈ type.members, ∀ text ∈ member.signature,
    names.Reads type.genericParams.length member.genericParams.length text

/-- Whether signatures can be read depends neither on their order nor on the ids of members. -/
theorem complete_ok_iff {index first : Nat} {listing : Listing}
    (harity : ∀ {place : Nat} {type : ListedType}, listing[place]? = some type →
      names.genericArity ⟨index + place⟩ = type.genericParams.length) :
    (∃ part, names.complete index first listing = .ok part) ↔
      ∀ type ∈ listing, names.ReadsType type := by
  induction listing generalizing index first with
  | nil => exact ⟨fun _ => nofun, fun _ => ⟨⟨[], []⟩, rfl⟩⟩
  | cons type listing ih =>
    have hcount : names.genericArity ⟨index⟩ = type.genericParams.length :=
      @harity 0 type rfl
    have hlater : ∀ {place : Nat} {later : ListedType}, listing[place]? = some later →
        names.genericArity ⟨index + 1 + place⟩ = later.genericParams.length := by
      intro place later hplace
      have hnext := @harity (place + 1) later hplace
      rwa [← Nat.add_assoc, Nat.add_right_comm] at hnext
    have hbase := @readBase_ok_iff names ⟨index⟩ type
    rw [hcount] at hbase
    simp only [complete, exists_bind_ok, List.forall_mem_cons]
    constructor
    · rintro ⟨base, hread, members, hmembers, rest, hrest, -⟩
      have hsignature := readMembers_ok_iff.mp ⟨members, hmembers⟩
      rw [hcount] at hsignature
      exact ⟨⟨hbase.mp ⟨base, hread⟩, hsignature⟩, (ih hlater).mp ⟨rest, hrest⟩⟩
    · rintro ⟨⟨hreads, hsignature⟩, hrest⟩
      rw [← hcount] at hsignature
      obtain ⟨base, hread⟩ := hbase.mpr hreads
      obtain ⟨members, hmembers⟩ := readMembers_ok_iff.mpr hsignature
      obtain ⟨rest, hrest⟩ := (ih hlater).mpr hrest
      exact ⟨base, hread, members, hmembers, rest, hrest, _, rfl⟩

end Types

/-! ### Listings -/

theorem genericArity_names {listing : Listing} {place : Nat} {type : ListedType}
    (h : listing[place]? = some type) :
    listing.names.genericArity ⟨place⟩ = type.genericParams.length := by
  have htype : listing.names.typeDef? ⟨place⟩ = some (registered type) := by
    show (listing.map registered)[place]? = _
    rw [List.getElem?_map, h, Option.map_some]
  exact genericArity_eq (arity?_eq_some htype)

/-- Below 2³², the sum of the markers in a name is what the name declares. -/
theorem declaredArity_eq_iff {name : Text} {count : Nat} (hcount : count < 0x100000000) :
    declaredArity name = count ↔ aritySum (name.split '.') = count := by
  have hmin := declaredArity_eq_min name
  have hmax : maxArity = 2 ^ 64 - 1 := rfl
  omega

/-- A listing is a catalog if and only if its names are distinct and state the parameters that are
listed, all signatures can be read against these names, and no base is left open. The types that are
then stored are all in scope. -/
theorem ofListing_ok_iff (listing : Listing) (hbounded : listing.Bounded) :
    ((∃ catalog, ofListing listing = .ok catalog) ↔ listing.Acceptable) ∧
      ∀ catalog, ofListing listing = .ok catalog → catalog.InScope := by
  have hdeclared : (∀ type ∈ listing, declaredArity type.fullName = type.genericParams.length) ↔
      ∀ type ∈ listing, aritySum (type.fullName.split '.') = type.genericParams.length :=
    forall₂_congr fun type htype => declaredArity_eq_iff (hbounded.typeParams type htype)
  have hcomplete : (∃ catalog, listing.names.complete 0 0 listing = .ok catalog) ↔
      ∀ type ∈ listing, listing.names.ReadsType type := by
    apply complete_ok_iff
    intro place type hplace
    rw [Nat.zero_add]
    exact genericArity_names hplace
  refine ⟨?_, fun catalog hcatalog => (ofListing_loaded hcatalog).inScope⟩
  rw [ofListing, exists_bind_ok]
  constructor
  · rintro ⟨names, hnames, hread⟩
    obtain ⟨rfl, hnodup, hall⟩ := registerAll_eq_ok_iff.mp hnames
    have hreads := hcomplete.mp hread
    exact ⟨hnodup, hdeclared.mp hall, fun type htype => (hreads type htype).base,
      fun type htype => (hreads type htype).signature⟩
  · rintro ⟨hnodup, hall, hbase, hsignature⟩
    refine ⟨listing.names, registerAll_eq_ok_iff.mpr ⟨rfl, hnodup, hdeclared.mpr hall⟩, ?_⟩
    exact hcomplete.mpr fun type htype => ⟨hbase type htype, hsignature type htype⟩

/-- Two types, each the base of the other, the first one generic with a generic method. -/
def mutualListing : Listing :=
  [⟨some ['B'], [['T']],
      [⟨[['U']], .method, ['F'], ["``0".toList, "`0[]".toList], some "A\x7b`0\x7d".toList⟩], "A`1".toList⟩,
    ⟨some "A\x7bB\x7d".toList, [], [], ['B']⟩]

/-- Types may be named before they are listed, and in a circle. -/
theorem mutualListing_acceptable : mutualListing.Bounded ∧ mutualListing.Acceptable ∧
    ∃ catalog, ofListing mutualListing = .ok catalog ∧ catalog.InScope := by
  have hbounded : mutualListing.Bounded := ⟨by decide, by decide, by decide, by decide⟩
  have hsome : (ofListing mutualListing).toOption.isSome := by decide +kernel
  obtain ⟨catalog, hcatalog⟩ := Option.isSome_iff_exists.mp hsome
  obtain ⟨haccepts, hscope⟩ := ofListing_ok_iff mutualListing hbounded
  have hok := eq_ok_of_toOption hcatalog
  exact ⟨hbounded, haccepts.mp ⟨catalog, hok⟩, catalog, hok, hscope catalog hok⟩

end Catalog

end DocRef

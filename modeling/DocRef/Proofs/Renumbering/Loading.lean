import DocRef.Proofs.Catalog.Acceptance
import DocRef.Proofs.Renumbering.Resolution

/-!
Listings that are found within other ones. If each type of a listing stands somewhere in another one
(`Listing.Embeds`), then the catalog of the one is found in that of the other (`embeds_of_ofListing`).
Signatures are read against all names of a listing, wherever these stand, so they mean the same types
under the new numbers.
-/

namespace DocRef

/-- The number of members that are listed before the type at a given place. -/
def Listing.firstMember : Listing → Nat → Nat
  | _, 0 => 0
  | [], _ + 1 => 0
  | type :: listing, place + 1 => type.members.length + firstMember listing place

/-- Whether the types of a listing stand in another one, at the places and with the members that a
renumbering says. -/
structure Listing.Embeds (ρ : Renumbering) (listing other : Listing) : Prop where
  type : ∀ {place : Nat} {type : ListedType}, listing[place]? = some type →
    other[(ρ.type ⟨place⟩).index]? = some type
  member : ∀ {place offset : Nat} {type : ListedType}, listing[place]? = some type →
    offset < type.members.length → ρ.member ⟨listing.firstMember place + offset⟩ =
      ⟨other.firstMember (ρ.type ⟨place⟩).index + offset⟩

namespace Catalog

variable {ρ : Renumbering}

/-! ### Signatures -/

section Signatures

variable {names other : Catalog} {bindings : Bindings} {place : SignaturePlace}

theorem Embeds.readSignature (h : names.Embeds ρ other) {text : Text} {type : TypeExpr}
    (hread : names.readSignature bindings place text = .ok type) :
    other.readSignature (bindings.renumber ρ) place text = .ok (type.renumber ρ) := by
  obtain ⟨node, hparse, htype⟩ := readSignature_eq_ok_iff.mp hread
  exact readSignature_eq_ok_iff.mpr ⟨node, hparse, h.resolveType node htype⟩

theorem Embeds.readSignatures (h : names.Embeds ρ other) {texts : List Text}
    {types : List TypeExpr} (hread : names.readSignatures bindings place texts = .ok types) :
    other.readSignatures (bindings.renumber ρ) place texts =
      .ok (types.map (TypeExpr.renumber ρ)) := by
  induction texts generalizing types with
  | nil =>
    cases hread
    rfl
  | cons text texts ih =>
    simp only [Catalog.readSignatures, bind_eq_ok, pure_eq_ok] at hread
    obtain ⟨head, hhead, tail, htail, rfl⟩ := hread
    rw [Catalog.readSignatures, h.readSignature hhead, ih htail]
    rfl

theorem Embeds.readOptional (h : names.Embeds ρ other) {text : Option Text}
    {returns : Option TypeExpr} (hread : names.readOptional bindings place text = .ok returns) :
    other.readOptional (bindings.renumber ρ) place text =
      .ok (returns.map (TypeExpr.renumber ρ)) := by
  cases text with
  | none =>
    cases hread
    rfl
  | some text =>
    simp only [Catalog.readOptional, bind_eq_ok, pure_eq_ok] at hread
    obtain ⟨type, htype, rfl⟩ := hread
    rw [Catalog.readOptional, h.readSignature htype]
    rfl

variable {id : TypeId} {count : Nat} {type : ListedType}

theorem Embeds.readBase (h : names.Embeds ρ other) (harity : names.arity? id = some count)
    {base : Option TypeExpr} (hbase : names.readBase id type = .ok base) :
    other.readBase (ρ.type id) type = .ok (base.map (TypeExpr.renumber ρ)) := by
  have hread := hbase
  rw [Catalog.readBase] at hread ⊢
  cases htext : type.base with
  | none =>
    rw [htext] at hread
    cases hread
    rfl
  | some text =>
    rw [htext] at hread
    simp only [bind_eq_ok] at hread ⊢
    obtain ⟨found, hfound, hclosed⟩ := hread
    have hbindings : (⟨other.typeParams (ρ.type id), []⟩ : Bindings) =
        Bindings.renumber ρ ⟨names.typeParams id, []⟩ := by
      rw [h.typeParams harity]
      rfl
    refine ⟨found.renumber ρ, by rw [hbindings]; exact h.readSignature hfound, ?_⟩
    cases found with
    | named definition =>
      by_cases hzero : names.genericArity definition = 0
      · simp only [if_pos hzero] at hclosed
        cases hclosed
        cases (readBase_inScope hbase).scope with
        | named hdefinition => exact if_pos ((h.genericArity hdefinition).trans hzero)
      · simp only [if_neg hzero] at hclosed
        cases hclosed
    | _ =>
      cases hclosed
      rfl

/-- A listed member is read alike elsewhere. -/
theorem Embeds.readMember (h : names.Embeds ρ other) (harity : names.arity? id = some count)
    {memberId : MemberId} {listed : ListedMember} {member : MemberDef}
    (hread : names.readMember id type memberId listed = .ok member) :
    other.readMember (ρ.type id) type (ρ.member memberId) listed = .ok (member.renumber ρ) := by
  have hbindings : (⟨other.typeParams (ρ.type id),
        ParamOwner.params (.method (ρ.member memberId)) listed.genericParams.length⟩ : Bindings) =
      Bindings.renumber ρ ⟨names.typeParams id,
        ParamOwner.params (.method memberId) listed.genericParams.length⟩ := by
    rw [h.typeParams harity, Bindings.renumber, ParamOwner.params_renumber]
    rfl
  simp only [Catalog.readMember, bind_eq_ok, pure_eq_ok] at hread ⊢
  obtain ⟨parameters, hparameters, returns, hreturns, rfl⟩ := hread
  rw [hbindings]
  exact ⟨_, h.readSignatures hparameters, _, h.readOptional hreturns, rfl⟩

theorem Embeds.readMembers (h : names.Embeds ρ other) (harity : names.arity? id = some count)
    {first otherFirst : Nat} {listed : List ListedMember} {members : List MemberDef}
    (hfirst : ∀ offset < listed.length, ρ.member ⟨first + offset⟩ = ⟨otherFirst + offset⟩)
    (hread : names.readMembers id type first listed = .ok members) :
    other.readMembers (ρ.type id) type otherFirst listed =
      .ok (members.map (MemberDef.renumber ρ)) := by
  induction listed generalizing first otherFirst members with
  | nil =>
    cases hread
    rfl
  | cons member listed ih =>
    simp only [Catalog.readMembers, bind_eq_ok, pure_eq_ok] at hread ⊢
    obtain ⟨head, hhead, tail, htail, rfl⟩ := hread
    have hhere : ρ.member ⟨first⟩ = ⟨otherFirst⟩ := hfirst 0 (Nat.succ_pos _)
    have hlater : ∀ offset < listed.length,
        ρ.member ⟨first + 1 + offset⟩ = ⟨otherFirst + 1 + offset⟩ := by
      intro offset hoffset
      have hnext := hfirst (offset + 1) (Nat.succ_lt_succ hoffset)
      rwa [← Nat.add_assoc, ← Nat.add_assoc, Nat.add_right_comm,
        Nat.add_right_comm otherFirst] at hnext
    rw [← hhere]
    exact ⟨_, h.readMember harity hhead, _, ih hlater htail, rfl⟩

end Signatures

/-! ### Tables -/

theorem length_of_readMembers {names : Catalog} {id : TypeId} {type : ListedType} {first : Nat}
    {listed : List ListedMember} {members : List MemberDef}
    (h : names.readMembers id type first listed = .ok members) :
    members.length = listed.length := by
  induction listed generalizing first members with
  | nil =>
    cases h
    rfl
  | cons member listed ih =>
    simp only [readMembers, bind_eq_ok, pure_eq_ok] at h
    obtain ⟨head, -, tail, htail, rfl⟩ := h
    rw [List.length_cons, List.length_cons, ih htail]

/-- What the tables hold of a listed type: its entry, and its members from `first` on. -/
structure HoldsEntry (names part : Catalog) (id : TypeId) (place first memberPlace : Nat)
    (type : ListedType) (base : Option TypeExpr) (members : List MemberDef) : Prop where
  readBase : names.readBase id type = .ok base
  readMembers : names.readMembers id type first type.members = .ok members
  typeAt : part.types[place]? = some ⟨type.fullName, type.genericParams, base,
    (List.range' first members.length).map MemberId.mk⟩
  memberAt : ∀ offset < members.length, part.members[memberPlace + offset]? = members[offset]?

/-- The tables hold every listed type. -/
theorem exists_holdsEntry {names part : Catalog} {listing : Listing} {index first place : Nat}
    {type : ListedType} (h : names.complete index first listing = .ok part)
    (htype : listing[place]? = some type) :
    ∃ base members, HoldsEntry names part ⟨index + place⟩ place (first + listing.firstMember place)
      (listing.firstMember place) type base members := by
  induction listing generalizing index first part place with
  | nil => cases htype
  | cons head listing ih =>
    simp only [complete, bind_eq_ok, pure_eq_ok] at h
    obtain ⟨headBase, hbase, headMembers, hmembers, rest, hrest, rfl⟩ := h
    cases place with
    | zero =>
      cases htype
      refine ⟨headBase, headMembers, hbase, hmembers, rfl, ?_⟩
      intro offset hoffset
      show (headMembers ++ rest.members)[0 + offset]? = _
      rw [Nat.zero_add, List.getElem?_append_left hoffset]
    | succ place =>
      obtain ⟨base, members, hentry⟩ := ih hrest htype
      have hcount := length_of_readMembers hmembers
      have hid : index + (place + 1) = index + 1 + place := by omega
      have hfirst : first + (head.members.length + Listing.firstMember listing place) =
          first + headMembers.length + Listing.firstMember listing place := by omega
      refine ⟨base, members, ?_, ?_, ?_, ?_⟩
      · rw [hid]
        exact hentry.readBase
      · rw [hid, Listing.firstMember, hfirst]
        exact hentry.readMembers
      · rw [Listing.firstMember, hfirst]
        exact hentry.typeAt
      · intro offset hoffset
        show (headMembers ++ rest.members)[head.members.length + _ + offset]? = _
        rw [← hentry.memberAt offset hoffset, List.getElem?_append_right (by omega)]
        congr 1
        omega

/-- The tables hold nothing else: every type is one of the listing. -/
theorem exists_listed_of_type {names part : Catalog} {listing : Listing} {index first place : Nat}
    {entry : TypeDef} (h : names.complete index first listing = .ok part)
    (hentry : part.types[place]? = some entry) : ∃ type, listing[place]? = some type := by
  induction listing generalizing index first part place with
  | nil =>
    cases h
    cases hentry
  | cons head listing ih =>
    simp only [complete, bind_eq_ok, pure_eq_ok] at h
    obtain ⟨headBase, hbase, headMembers, hmembers, rest, hrest, rfl⟩ := h
    cases place with
    | zero => exact ⟨head, rfl⟩
    | succ place => exact ih hrest hentry

/-- Every member in the tables is one of a listed type. -/
theorem exists_listed_of_member {names part : Catalog} {listing : Listing}
    {index first memberPlace : Nat} {member : MemberDef}
    (h : names.complete index first listing = .ok part)
    (hmember : part.members[memberPlace]? = some member) :
    ∃ (place offset : Nat) (type : ListedType), listing[place]? = some type ∧
      offset < type.members.length ∧ memberPlace = listing.firstMember place + offset := by
  induction listing generalizing index first part memberPlace with
  | nil =>
    cases h
    cases hmember
  | cons head listing ih =>
    simp only [complete, bind_eq_ok, pure_eq_ok] at h
    obtain ⟨headBase, hbase, headMembers, hmembers, rest, hrest, rfl⟩ := h
    have hcount := length_of_readMembers hmembers
    rcases getElem?_append_cases hmember with hmember | ⟨hlength, hmember⟩
    · have hoffset := (List.getElem?_eq_some_iff.mp hmember).1
      refine ⟨0, memberPlace, head, rfl, by omega, ?_⟩
      rw [Listing.firstMember, Nat.zero_add]
    · obtain ⟨place, offset, type, htype, hoffset, heq⟩ := ih hrest hmember
      refine ⟨place + 1, offset, type, htype, hoffset, ?_⟩
      rw [Listing.firstMember]
      omega

/-! ### Listings -/

section Listings

variable {listing other : Listing} {catalog otherCatalog : Catalog}

theorem typeDef?_names (listing : Listing) (id : TypeId) :
    listing.names.typeDef? id = listing[id.index]?.map registered :=
  List.getElem?_map ..

/-- The names of a listing are found among those of the other one. -/
theorem embeds_names (h : listing.Embeds ρ other)
    (hnodup : (listing.map ListedType.fullName).Nodup)
    (hother : (other.map ListedType.fullName).Nodup) : listing.names.Embeds ρ other.names where
  names_nodup := by
    show ((listing.map registered).map (·.name)).Nodup
    rwa [List.map_map]
  other_names_nodup := by
    show ((other.map registered).map (·.name)).Nodup
    rwa [List.map_map]
  typeDef? := by
    intro id entry hentry
    rw [typeDef?_names] at hentry ⊢
    obtain ⟨type, htype, rfl⟩ := Option.map_eq_some_iff.mp hentry
    rw [h.type htype]
    rfl
  memberDef? := nofun

/-- A listed type has the same entry in both catalogs, but for the numbers. -/
theorem exists_holdsEntries (h : listing.Embeds ρ other)
    (hnames : listing.names.Embeds ρ other.names)
    (hcatalog : listing.names.complete 0 0 listing = .ok catalog)
    (hother : other.names.complete 0 0 other = .ok otherCatalog) {place : Nat} {type : ListedType}
    (htype : listing[place]? = some type) :
    ∃ base members,
      HoldsEntry listing.names catalog ⟨place⟩ place (listing.firstMember place)
        (listing.firstMember place) type base members ∧
      HoldsEntry other.names otherCatalog (ρ.type ⟨place⟩) (ρ.type ⟨place⟩).index
        (other.firstMember (ρ.type ⟨place⟩).index) (other.firstMember (ρ.type ⟨place⟩).index) type
        (base.map (TypeExpr.renumber ρ)) (members.map (MemberDef.renumber ρ)) := by
  obtain ⟨base, members, hentry⟩ := exists_holdsEntry hcatalog htype
  obtain ⟨otherBase, otherMembers, hotherEntry⟩ := exists_holdsEntry hother (h.type htype)
  simp only [Nat.zero_add] at hentry hotherEntry
  have harity : listing.names.arity? ⟨place⟩ = some type.genericParams.length := by
    rw [arity?, typeDef?_names, htype]
    rfl
  have hbase := hnames.readBase harity hentry.readBase
  have hmembers := hnames.readMembers harity (fun offset hoffset => h.member htype hoffset)
    hentry.readMembers
  rw [hotherEntry.readBase, Except.ok.injEq] at hbase
  rw [hotherEntry.readMembers, Except.ok.injEq] at hmembers
  subst hbase hmembers
  exact ⟨base, members, hentry, hotherEntry⟩

/-- A listing that is found in another one describes a catalog that is found in the other's. -/
theorem embeds_of_ofListing (h : listing.Embeds ρ other) (hcatalog : ofListing listing = .ok catalog)
    (hother : ofListing other = .ok otherCatalog) : catalog.Embeds ρ otherCatalog := by
  have hloaded := ofListing_loaded hcatalog
  have hotherLoaded := ofListing_loaded hother
  simp only [ofListing, bind_eq_ok] at hcatalog hother
  obtain ⟨names, hnames, hcomplete⟩ := hcatalog
  obtain ⟨otherNames, hotherNames, hotherComplete⟩ := hother
  obtain ⟨rfl, hnodup, -⟩ := registerAll_eq_ok_iff.mp hnames
  obtain ⟨rfl, hotherNodup, -⟩ := registerAll_eq_ok_iff.mp hotherNames
  have hembeds := embeds_names h hnodup hotherNodup
  refine ⟨hloaded.names_nodup, hotherLoaded.names_nodup, ?_, ?_⟩
  · rintro ⟨place⟩ entry hentry
    obtain ⟨type, htype⟩ := exists_listed_of_type hcomplete hentry
    obtain ⟨base, members, hholds, hotherHolds⟩ :=
      exists_holdsEntries h hembeds hcomplete hotherComplete htype
    have heq := hholds.typeAt.symm.trans hentry
    cases heq
    have hlength := length_of_readMembers hholds.readMembers
    have hids : (List.range' (other.firstMember (ρ.type ⟨place⟩).index)
          (members.map (MemberDef.renumber ρ)).length).map MemberId.mk =
        ((List.range' (listing.firstMember place) members.length).map MemberId.mk).map ρ.member := by
      rw [List.length_map, List.range'_eq_map_range, List.range'_eq_map_range, List.map_map,
        List.map_map, List.map_map]
      refine List.map_congr_left fun offset hoffset => ?_
      exact (h.member htype (hlength ▸ List.mem_range.mp hoffset)).symm
    refine hotherHolds.typeAt.trans (congrArg some ?_)
    exact congrArg (TypeDef.mk type.fullName type.genericParams (base.map _)) hids
  · rintro ⟨memberPlace⟩ member hmember
    obtain ⟨place, offset, type, htype, hoffset, rfl⟩ := exists_listed_of_member hcomplete hmember
    obtain ⟨base, members, hholds, hotherHolds⟩ :=
      exists_holdsEntries h hembeds hcomplete hotherComplete htype
    have hlength := length_of_readMembers hholds.readMembers
    have hhere := hholds.memberAt offset (by omega)
    have hthere := hotherHolds.memberAt offset (by rw [List.length_map]; omega)
    rw [h.member htype hoffset]
    refine hthere.trans ?_
    rw [List.getElem?_map, ← hhere]
    exact congrArg (Option.map _) hmember

end Listings

end Catalog

end DocRef

import DocRef.Proofs.Renumbering.Loading
import Mathlib.Data.List.Forall2

/-!
The tables of a catalog agree (`ofText_tablesAgree`). Members get their numbers while signatures are read,
type after type, and each type is given the numbers of its own members. So the members of all types, one
type behind the other, are all members in turn; the type that lists a member is its declaring type; and
the members of a type are those that the file lists there, in that order.
-/

namespace DocRef

/-- Whether a member of the tables is what a file lists. -/
structure MemberDef.Lists (member : MemberDef) (listed : ListedMember) : Prop where
  name : member.name = listed.name
  kind : member.kind = listed.kind
  genericParams : member.genericParams = listed.genericParams

namespace Catalog

/-- Whether the tables of a catalog agree with each other and with the listing that they hold. -/
structure TablesAgree (catalog : Catalog) (listing : Listing) : Prop where
  /-- The members of all types, one type behind the other, are all members in the order of their ids. -/
  flatMap_membersOf : catalog.typeIds.flatMap catalog.membersOf = catalog.memberIds
  /-- A member is listed by its declaring type, which is there, and by no other type. -/
  declaring : ∀ {id : MemberId} {member : MemberDef}, catalog.memberDef? id = some member →
    member.declaringType ∈ catalog.typeIds ∧
      ∀ type, id ∈ catalog.membersOf type ↔ type = member.declaringType
  /-- A type is found by its name, which ends in the marker of the arity unless this is zero. -/
  lookup : ∀ (name : Text) (arity : Nat) (id : TypeId), catalog.lookup? name arity = some id ↔
    ∃ type, catalog.typeDef? id = some type ∧
      (arity = 0 ∧ type.name = name ∨ 0 < arity ∧ type.name = name ++ tick :: Text.decimal arity)
  /-- Whole names, with the markers in them, are found at arity zero. -/
  lookup_name : ∀ {id : TypeId} {type : TypeDef}, catalog.typeDef? id = some type →
    catalog.lookup? type.name 0 = some id
  /-- The members of a type with some name are all members of the catalog that it declares under this
  name, and they stand in the order in which it lists them. -/
  membersNamed : ∀ (type : TypeId) (name : Text),
    (catalog.membersNamed type name).Sublist (catalog.membersOf type) ∧
      ∀ id, id ∈ catalog.membersNamed type name ↔ ∃ member, catalog.memberDef? id = some member ∧
        member.declaringType = type ∧ member.name = name
  /-- The types are those of the listing, and each lists its members in the order of the listing. -/
  listed : listing.length = catalog.types.length ∧
    ∀ {place : Nat} {type : ListedType}, listing[place]? = some type →
      ∃ entry, catalog.typeDef? ⟨place⟩ = some entry ∧ entry.name = type.fullName ∧
        List.Forall₂ (fun id listed => ∃ member, catalog.memberDef? id = some member ∧
          member.Lists listed) (catalog.membersOf ⟨place⟩) type.members

variable {names part catalog : Catalog} {listing : Listing} {index first : Nat}

/-! ### Numbers of members -/

/-- Member ids go on from type to type. -/
theorem flatMap_members_of_complete (h : names.complete index first listing = .ok part) :
    part.types.flatMap (·.members) = (List.range' first part.members.length).map MemberId.mk := by
  induction listing generalizing index first part with
  | nil =>
    cases h
    rfl
  | cons type listing ih =>
    simp only [complete, bind_eq_ok, pure_eq_ok] at h
    obtain ⟨base, -, members, -, rest, hrest, rfl⟩ := h
    rw [List.flatMap_cons, ih hrest, ← List.map_append, List.range'_append_1, List.length_append]

theorem typeIds_map_membersOf (catalog : Catalog) :
    catalog.typeIds.map catalog.membersOf = catalog.types.map (·.members) := by
  refine List.ext_getElem (by simp [typeIds]) fun index hleft hright => ?_
  rw [List.length_map] at hright
  simp [typeIds, membersOf, typeDef?, hright]

theorem flatMap_membersOf_of_complete (h : names.complete index 0 listing = .ok catalog) :
    catalog.typeIds.flatMap catalog.membersOf = catalog.memberIds := by
  rw [List.flatMap_def, typeIds_map_membersOf, ← List.flatMap_def, flatMap_members_of_complete h,
    ← List.range_eq_range']
  rfl

/-! ### Looking up -/

section Loaded

variable (h : catalog.Loaded)

include h

theorem Loaded.declaring {id : MemberId} {member : MemberDef}
    (hmember : catalog.memberDef? id = some member) : member.declaringType ∈ catalog.typeIds ∧
      ∀ type, id ∈ catalog.membersOf type ↔ type = member.declaringType := by
  obtain ⟨count, hcount⟩ := (h.member hmember).declaring
  obtain ⟨declaring, hdeclaring, -⟩ := typeDef?_of_arity? hcount
  refine ⟨mem_typeIds.mpr ⟨declaring, hdeclaring⟩, fun type => ?_⟩
  rw [h.mem_membersOf]
  constructor
  · rintro ⟨other, hother, rfl⟩
    cases hmember.symm.trans hother
    rfl
  · rintro rfl
    exact ⟨member, hmember, rfl⟩

theorem Loaded.typeNamed?_eq_some_iff {name : Text} {id : TypeId} :
    catalog.typeNamed? name = some id ↔ ∃ type, catalog.typeDef? id = some type ∧ type.name = name := by
  constructor
  · exact typeDef?_of_typeNamed?
  · rintro ⟨type, htype, rfl⟩
    exact typeNamed?_name h.names_nodup htype

theorem Loaded.lookup (name : Text) (arity : Nat) (id : TypeId) :
    catalog.lookup? name arity = some id ↔ ∃ type, catalog.typeDef? id = some type ∧
      (arity = 0 ∧ type.name = name ∨ 0 < arity ∧ type.name = name ++ tick :: Text.decimal arity) := by
  rw [lookup?, h.typeNamed?_eq_some_iff, withArity]
  rcases Nat.eq_zero_or_pos arity with rfl | hpos
  · simp
  · simp [hpos, hpos.ne']

theorem Loaded.mem_membersNamed {type : TypeId} {name : Text} {id : MemberId} :
    id ∈ catalog.membersNamed type name ↔ ∃ member, catalog.memberDef? id = some member ∧
      member.declaringType = type ∧ member.name = name := by
  rw [membersNamed, List.mem_filter, h.mem_membersOf, Option.any_eq_true]
  constructor
  · rintro ⟨⟨member, hmember, hdeclaring⟩, other, hother, hname⟩
    cases hmember.symm.trans hother
    exact ⟨member, hmember, hdeclaring, of_decide_eq_true hname⟩
  · rintro ⟨member, hmember, hdeclaring, hname⟩
    exact ⟨⟨member, hmember, hdeclaring⟩, member, hmember, decide_eq_true hname⟩

end Loaded

/-! ### The listing -/

theorem forall₂_lists_of_readMembers {id : TypeId} {type : ListedType} {listed : List ListedMember}
    {members : List MemberDef} (h : names.readMembers id type first listed = .ok members) :
    List.Forall₂ MemberDef.Lists members listed := by
  induction listed generalizing first members with
  | nil =>
    cases h
    exact .nil
  | cons next listed ih =>
    simp only [readMembers, readMember, bind_eq_ok, pure_eq_ok] at h
    obtain ⟨head, ⟨parameters, -, returns, -, rfl⟩, tail, htail, rfl⟩ := h
    exact .cons ⟨rfl, rfl, rfl⟩ (ih htail)

/-- The members of a type are those that are listed there. -/
theorem HoldsEntry.forall₂_lists {place memberPlace : Nat} {type : ListedType} {base : Option TypeExpr}
    {members : List MemberDef}
    (h : HoldsEntry names catalog ⟨place⟩ place memberPlace memberPlace type base members) :
    List.Forall₂ (fun id listed => ∃ member, catalog.memberDef? id = some member ∧ member.Lists listed)
      (catalog.membersOf ⟨place⟩) type.members := by
  have hids : catalog.membersOf ⟨place⟩ =
      (List.range members.length).map fun offset => ⟨memberPlace + offset⟩ := by
    rw [membersOf, typeDef?, h.typeAt, List.range'_eq_map_range, List.map_map]
    rfl
  obtain ⟨hlength, hlists⟩ := List.forall₂_iff_get.mp (forall₂_lists_of_readMembers h.readMembers)
  rw [hids, List.forall₂_iff_get]
  refine ⟨by simpa using hlength, fun offset hoffset hlisted => ?_⟩
  rw [List.length_map, List.length_range] at hoffset
  refine ⟨members[offset], ?_, hlists offset hoffset hlisted⟩
  have hmember := h.memberAt offset hoffset
  rw [List.getElem?_eq_getElem hoffset] at hmember
  simpa [memberDef?] using hmember

/-- A catalog that is read from a text has tables that agree with each other and with the text. -/
theorem ofText_tablesAgree {text : Text} (h : ofText text = .ok catalog) :
    ∃ listing, (Toml.read? text).bind Listing.ofToml? = some listing ∧
      catalog.TablesAgree listing := by
  obtain ⟨listing, hread, hlisting⟩ := exists_listing_of_ofText h
  obtain ⟨names, -, hcomplete, hcompletes⟩ := exists_completes hlisting
  have hloaded := ofText_loaded h
  refine ⟨listing, hread, flatMap_membersOf_of_complete hcomplete, hloaded.declaring, hloaded.lookup,
    fun htype => (hloaded.lookup _ 0 _).mpr ⟨_, htype, .inl ⟨rfl, rfl⟩⟩,
    fun type name => ⟨List.filter_sublist, fun id => hloaded.mem_membersNamed⟩, ?_, ?_⟩
  · have hnames := congrArg List.length hcompletes.typeNames
    rw [List.length_map, List.length_map] at hnames
    exact hnames.symm
  · intro place type htype
    obtain ⟨base, members, hentry⟩ := exists_holdsEntry hcomplete htype
    simp only [Nat.zero_add] at hentry
    exact ⟨_, hentry.typeAt, rfl, hentry.forall₂_lists⟩

/-- Three types, of which the second one has no members. A name occurs twice in the first type, and
again in the last one. -/
def namesakesDocument : String :=
  "[[types]]\nname='A'\n[[types.members]]\nname='F'\nkind='field'\n" ++
    "[[types.members]]\nname='G'\nkind='field'\n[[types.members]]\nname='F'\nkind='method'\n" ++
    "[[types]]\nname='B'\n[[types]]\nname='C`1'\ngeneric_params=['T']\n" ++
    "[[types.members]]\nname='F'\nkind='field'\n"

def namesakesCatalog : Catalog where
  types := [⟨['A'], [], none, [⟨0⟩, ⟨1⟩, ⟨2⟩]⟩, ⟨['B'], [], none, []⟩,
    ⟨"C`1".toList, [['T']], none, [⟨3⟩]⟩]
  members := [⟨⟨0⟩, [], .field, ['F'], [], none⟩, ⟨⟨0⟩, [], .field, ['G'], [], none⟩,
    ⟨⟨0⟩, [], .method, ['F'], [], none⟩, ⟨⟨2⟩, [], .field, ['F'], [], none⟩]

/-- Members of one name stay with their types. -/
theorem ofText_tablesAgree_namesakes : ofText namesakesDocument.toList = .ok namesakesCatalog ∧
    namesakesCatalog.membersNamed ⟨0⟩ ['F'] = [⟨0⟩, ⟨2⟩] ∧
    ∃ listing, (Toml.read? namesakesDocument.toList).bind Listing.ofToml? = some listing ∧
      namesakesCatalog.TablesAgree listing := by
  have hdocument : ofText namesakesDocument.toList = .ok namesakesCatalog :=
    eq_ok_of_toOption (by decide +kernel)
  exact ⟨hdocument, by decide, ofText_tablesAgree hdocument⟩

end Catalog

end DocRef

import DocRef.Proofs.CanonicalId.Segments

/-!
The references that the IDs of members are. An ID is the written form of a reference
(`encodeMember_eq_written`) that is well formed (`memberReference_wellFormed`), so it is read back.
-/

namespace DocRef.Catalog

/-- Whether a catalog has names that can be written in references, and signatures as the kinds of
members have them. -/
structure Regular (catalog : Catalog) : Prop where
  typeNames : catalog.NamesRegular
  memberNames : ∀ member ∈ catalog.members,
    '#' ∉ member.name ∧ (member.name.exchange '.' '#').IsIdentifier
  generics : ∀ member ∈ catalog.members, member.genericParams ≠ [] → member.kind = .method
  listsBounded : catalog.ListsBounded
  conversions : ∀ member ∈ catalog.members, member.name ∈ conversionOperators →
    member.returns ≠ none ∧ member.parameters ≠ []

/-! ### The reference of a member -/

/-- The marker of a member with parameters of its own. -/
def memberMarker (member : MemberDef) : Text :=
  if member.genericParams = [] then [] else tick :: tick :: Text.decimal member.genericParams.length

/-- The segment of a member's name. -/
def memberSegment (member : MemberDef) : Text :=
  member.name.exchange '.' '#' ++ memberMarker member

/-- The tree of the return type of a conversion. -/
def returnsNode (catalog : Catalog) (member : MemberDef) : Option Node :=
  if conversionOperators.contains member.name then member.returns.map catalog.typeNode else none

/-- The tree of a member. -/
def memberNode (catalog : Catalog) (member : MemberDef) : Node :=
  if member.parameters = [] then
    .child (catalog.nameNode member.declaringType) (memberSegment member)
  else
    .method (.child (catalog.nameNode member.declaringType) (memberSegment member))
      (catalog.typeNodes member.parameters) (catalog.returnsNode member)

/-- What is written of a member behind the name of its type. -/
def memberWritten (catalog : Catalog) (member : MemberDef) : Text :=
  memberSegment member ++
    (if member.parameters = [] then [] else
      '(' :: Text.join ',' (Node.writtenAll (catalog.typeNodes member.parameters)) ++ [')']) ++
    Node.writtenReturn (catalog.returnsNode member)

/-- The reference to a member. -/
def memberReference (catalog : Catalog) (member : MemberDef) : Reference :=
  ⟨some member.kind.symbolKind, catalog.memberNode member⟩

section Reference

variable {catalog : Catalog} {id : MemberId} {member : MemberDef}

theorem returnsNode_of_mem (h : member.name ∈ conversionOperators) :
    catalog.returnsNode member = member.returns.map catalog.typeNode :=
  if_pos (List.contains_iff_mem.mpr h)

theorem returnsNode_of_notMem (h : member.name ∉ conversionOperators) :
    catalog.returnsNode member = none :=
  if_neg (mt List.contains_iff_mem.mp h)

theorem Regular.spellable (hregular : catalog.Regular) : catalog.Spellable :=
  ⟨hregular.typeNames, hregular.memberNames, hregular.listsBounded⟩

/-- Where only methods are generic, every marker is stated. -/
theorem memberMarker_eq_stated (hregular : catalog.Regular) (hmem : member ∈ catalog.members) :
    memberMarker member = member.statedArity.text := by
  rw [memberMarker, MemberDef.statedArity]
  by_cases hgeneric : member.genericParams = []
  · simp [hgeneric, Arity.text]
  · simp [hgeneric, hregular.generics member hmem hgeneric, Arity.text]

theorem memberSegment_eq_stated (hregular : catalog.Regular) (hmem : member ∈ catalog.members) :
    memberSegment member = member.statedSegment := by
  rw [memberSegment, memberMarker_eq_stated hregular hmem, MemberDef.statedSegment]

theorem isGenericMethod_eq (hregular : catalog.Regular)
    (hmember : catalog.memberDef? id = some member) :
    (if catalog.isGenericMethod id then tick :: tick :: Text.decimal member.genericParams.length
      else []) = memberMarker member := by
  rw [isGenericMethod_stated hmember, memberMarker_eq_stated hregular (mem_members hmember)]

/-- Parameters of a member and of its declaring type are written by their places. -/
theorem ownParam_positional {declaring : TypeId} {arity count : Nat} {param : GenericParam}
    (h : Owns declaring arity id count param) :
    ownParam [.type declaring, .method id] param = .ok param.positional := by
  refine if_pos ?_
  rcases h with ⟨howner, -⟩ | ⟨howner, -⟩
  · rw [howner]
    exact List.mem_cons_self
  · rw [howner]
    exact List.mem_cons_of_mem _ List.mem_cons_self

theorem typeDef?_declaringType (hloaded : catalog.Loaded)
    (hmember : catalog.memberDef? id = some member) :
    ∃ declaring, catalog.typeDef? member.declaringType = some declaring := by
  obtain ⟨count, hcount⟩ := (hloaded.member hmember).declaring
  obtain ⟨declaring, hdeclaring, -⟩ := typeDef?_of_arity? hcount
  exact ⟨declaring, hdeclaring⟩

section Texts

variable {paramText : GenericParam → Except Inconsistency Text}

theorem returnsText_eq_written (htexts : ∀ type ∈ member.types,
      catalog.typeText paramText type = .ok (catalog.typeNode type).written) :
    catalog.returnsText member paramText =
      .ok (Node.writtenReturn (catalog.returnsNode member)) := by
  by_cases hname : member.name ∈ conversionOperators
  · rw [returnsText, returnsNode_of_mem hname]
    cases hreturns : member.returns with
    | none => rfl
    | some type =>
      have htype := htexts type (List.mem_append_right _ (by rw [hreturns]; simp))
      show (if member.name ∈ conversionOperators then (catalog.typeText _ type).map _ else _) = _
      rw [if_pos hname, htype]
      rfl
  · rw [returnsText, returnsNode_of_notMem hname]
    cases member.returns with
    | none => rfl
    | some type => exact if_neg hname

/-- The parts of a member's text, if the types of its signature are written as their trees. -/
theorem memberText_eq_parts (htexts : ∀ type ∈ member.types,
      catalog.typeText paramText type = .ok (catalog.typeNode type).written) :
    catalog.memberText id member paramText = .ok (member.name.exchange '.' '#' ++
      (if catalog.isGenericMethod id then tick :: tick :: Text.decimal member.genericParams.length
        else []) ++
      (if member.parameters = [] then [] else
        '(' :: Text.join ',' (Node.writtenAll (catalog.typeNodes member.parameters)) ++ [')']) ++
      Node.writtenReturn (catalog.returnsNode member)) := by
  have hparameters : catalog.typeTexts paramText member.parameters =
      (Node.writtenAll (catalog.typeNodes member.parameters)).map .ok := by
    rw [typeTexts_eq_map, Node.writtenAll_eq, typeNodes_eq_map, List.map_map, List.map_map]
    exact List.map_congr_left fun type htype => htexts type (List.mem_append_left _ htype)
  rw [memberText, hparameters, allTexts_map_ok, returnsText_eq_written htexts]
  rfl

/-- The texts of the types of a member make up what is written behind the name of its type. -/
theorem memberText_eq_written (hregular : catalog.Regular)
    (hmember : catalog.memberDef? id = some member) (htexts : ∀ type ∈ member.types,
      catalog.typeText paramText type = .ok (catalog.typeNode type).written) :
    catalog.memberText id member paramText = .ok (catalog.memberWritten member) := by
  rw [memberText_eq_parts htexts, isGenericMethod_eq hregular hmember, memberWritten, memberSegment]

end Texts

theorem memberNode_written (hregular : catalog.Regular)
    (hmember : catalog.memberDef? id = some member) {declaring : TypeDef}
    (hdeclaring : catalog.typeDef? member.declaringType = some declaring) :
    (catalog.memberNode member).written =
      declaring.name ++ '.' :: catalog.memberWritten member := by
  rw [memberNode, memberWritten]
  by_cases hnil : member.parameters = []
  · have hname : member.name ∉ conversionOperators := fun hname =>
      (hregular.conversions member (mem_members hmember) hname).2 hnil
    rw [if_pos hnil, if_pos hnil, returnsNode_of_notMem hname, Node.written,
      nameNode_written hdeclaring, Node.writtenReturn, List.append_nil, List.append_nil]
  · rw [if_neg hnil, if_neg hnil]
    simp only [Node.written, nameNode_written hdeclaring, List.append_assoc, List.cons_append,
      List.nil_append]

/-- In its own ID, the types of a member are written as their trees. -/
theorem typeText_ownParam (hloaded : catalog.Loaded) (hbounded : catalog.ListsBounded)
    (hmember : catalog.memberDef? id = some member) : ∀ type ∈ member.types,
      catalog.typeText (ownParam [.type member.declaringType, .method id]) type =
        .ok (catalog.typeNode type).written := fun type htype =>
  typeText_eq_written hloaded hbounded (fun _ => ownParam_positional)
    ((hloaded.member hmember).scope type htype)

/-- The ID of a member is the written form of its reference. -/
theorem encodeMember_eq_written (hloaded : catalog.Loaded) (hregular : catalog.Regular)
    (hmember : catalog.memberDef? id = some member) :
    catalog.encodeMember id = .ok (catalog.memberReference member).written := by
  obtain ⟨declaring, hdeclaring⟩ := typeDef?_declaringType hloaded hmember
  have htext := memberText_eq_written hregular hmember
    (typeText_ownParam hloaded hregular.listsBounded hmember)
  rw [encodeMember_of_memberText hmember hdeclaring htext, memberReference, Reference.written,
    memberNode_written hregular hmember hdeclaring]

theorem memberSegment_isName (hregular : catalog.Regular) (hmem : member ∈ catalog.members) :
    (memberSegment member).IsName := by
  rw [memberSegment_eq_stated hregular hmem]
  exact statedSegment_isName hregular.spellable hmem

theorem position_le_of_owns (hbounded : catalog.ListsBounded)
    (hmember : catalog.memberDef? id = some member) {declaring : TypeId} {param : GenericParam}
    (h : Owns declaring (catalog.genericArity declaring) id member.genericParams.length param) :
    param.position ≤ Lexeme.maxNumber := by
  have hmax : Lexeme.maxNumber = 2 ^ 32 - 1 := rfl
  rcases h with ⟨-, hposition⟩ | ⟨-, hposition⟩
  · cases htype : catalog.typeDef? declaring with
    | none =>
      rw [genericArity, htype] at hposition
      exact absurd hposition (Nat.not_lt_zero _)
    | some type =>
      rw [genericArity_eq (arity?_eq_some htype)] at hposition
      have hlength := hbounded.1 type (List.mem_of_getElem? htype)
      omega
  · have hlength := hbounded.2 member (mem_members hmember)
    omega

/-- A name behind the name of a member's type, alone and with the types of the member, is a
well-formed tree. -/
theorem memberNodes_wellFormed (hloaded : catalog.Loaded) (hbounded : catalog.ListsBounded)
    (hnames : catalog.NamesRegular) (hmember : catalog.memberDef? id = some member) {segment : Text}
    (hsegment : segment.IsName) (kind : Option SymbolKind) :
    (Reference.mk kind (.child (catalog.nameNode member.declaringType) segment)).WellFormed ∧
      (Reference.mk kind (.method (.child (catalog.nameNode member.declaringType) segment)
        (catalog.typeNodes member.parameters) (catalog.returnsNode member))).WellFormed := by
  have hscope := hloaded.member hmember
  obtain ⟨declaring, hdeclaring⟩ := typeDef?_declaringType hloaded hmember
  have hscopeNode := (nameNode_wellFormed hnames hdeclaring).1.2
  have htypes : ∀ type ∈ member.types, (catalog.typeNode type).WellFormedType := fun type htype =>
    (typeNode_wellFormed hloaded hbounded hnames
      (fun _ => position_le_of_owns hbounded hmember) (hscope.scope type htype)
      (hscope.shape type htype).inOrder).1
  have hparameters : ∀ node ∈ catalog.typeNodes member.parameters, node.WellFormedType := by
    intro node hnode
    rw [typeNodes_eq_map] at hnode
    obtain ⟨type, htype, rfl⟩ := List.mem_map.mp hnode
    exact htypes type (List.mem_append_left _ htype)
  have hreturns : ∀ node ∈ catalog.returnsNode member, node.WellFormedType := by
    intro node hnode
    by_cases hconversion : member.name ∈ conversionOperators
    · rw [returnsNode_of_mem hconversion] at hnode
      obtain ⟨type, htype, rfl⟩ := Option.map_eq_some_iff.mp hnode
      exact htypes type (List.mem_append_right _ (by rw [htype]; simp))
    · rw [returnsNode_of_notMem hconversion] at hnode
      cases hnode
  refine ⟨⟨nameNode_isMember _, hscopeNode, hsegment⟩,
    ⟨nameNode_isMember _, ?_, fun node hnode => (hreturns node hnode).1⟩,
    ⟨hscopeNode, hsegment⟩, ?_, ?_⟩
  · exact (Node.allTypes_iff _).mpr fun node hnode => (hparameters node hnode).1
  · exact (Node.allWritable_iff_forall _).mpr fun node hnode => (hparameters node hnode).2
  · cases hnode : catalog.returnsNode member with
    | none => trivial
    | some node => exact (hreturns node hnode).2

theorem memberReference_wellFormed (hloaded : catalog.Loaded) (hregular : catalog.Regular)
    (hmember : catalog.memberDef? id = some member) :
    (catalog.memberReference member).WellFormed := by
  obtain ⟨halone, hlist⟩ := memberNodes_wellFormed hloaded hregular.listsBounded hregular.typeNames
    hmember (memberSegment_isName hregular (mem_members hmember)) (some member.kind.symbolKind)
  rw [memberReference, memberNode]
  by_cases hnil : member.parameters = []
  · rw [if_pos hnil]
    exact halone
  · rw [if_neg hnil]
    exact hlist

end Reference

end DocRef.Catalog

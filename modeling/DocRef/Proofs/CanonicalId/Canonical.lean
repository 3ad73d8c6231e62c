import DocRef.Proofs.CanonicalId.Spelling

/-!
IDs are canonical texts: what an ID is read as is written as that ID again (`encode_isCanonical`). The
ID of a member is the written form of the reference that states what the ID spells (`statedReference`),
and a well-formed reference is read back from what is written. Nothing here asks whether the reference
means the member.
-/

namespace DocRef

/-- Whether a text is read as a reference with the letter of a kind, and is what that is written as. -/
def Text.IsCanonical (text : Text) (kind : SymbolKind) : Prop :=
  ∃ reference, Reference.parse text = .ok reference ∧ reference.kind = some kind ∧
    reference.written = text

theorem Reference.WellFormed.isCanonical {kind : SymbolKind} {node : Node}
    (h : (Reference.mk (some kind) node).WellFormed) :
    Text.IsCanonical (Reference.mk (some kind) node).written kind :=
  ⟨_, Reference.parse_written h, rfl, rfl⟩

namespace Catalog

/-- The reference that states what the ID of a member spells: by the name alone, or by the list if that
is not empty. -/
def statedReference (catalog : Catalog) (member : MemberDef) : Reference :=
  if member.parameters = [] then
    ⟨some member.kind.symbolKind,
      .child (catalog.nameNode member.declaringType) member.statedSegment⟩
  else catalog.listReference member

section Members

variable {catalog : Catalog} {id : MemberId} {member : MemberDef}

/-- Without a list there is no place for a return type, so conversions must have parameters. -/
theorem statedReference_written
    (hconversion : member.name ∈ conversionOperators → member.parameters ≠ []) :
    (catalog.statedReference member).written =
      catalog.memberHead member ++ catalog.memberTail member := by
  rw [statedReference]
  by_cases hnil : member.parameters = []
  · have hname : member.name ∉ conversionOperators := fun hname => hconversion hname hnil
    rw [if_pos hnil, memberTail, if_pos hnil, returnsNode_of_notMem hname]
    simp only [Reference.written, Node.written, Node.writtenReturn, memberHead, List.append_nil]
  · rw [if_neg hnil, listReference_written, listTail_eq_memberTail hnil]

theorem statedReference_isCanonical (hloaded : catalog.Loaded) (hspellable : catalog.Spellable)
    (hmember : catalog.memberDef? id = some member) :
    Text.IsCanonical (catalog.statedReference member).written member.kind.symbolKind := by
  rw [statedReference]
  by_cases hnil : member.parameters = []
  · rw [if_pos hnil]
    exact (memberNodes_wellFormed hloaded hspellable.listsBounded hspellable.typeNames hmember
      (statedSegment_isName hspellable (mem_members hmember)) _).1.isCanonical
  · rw [if_neg hnil]
    exact (listReference_wellFormed hloaded hspellable hmember).isCanonical

end Members

/-- The ID of a type is the written form of its full name. -/
theorem encodeType_eq_written {catalog : Catalog} {id : TypeId} {type : TypeDef}
    (h : catalog.typeDef? id = some type) :
    catalog.encodeType id = .ok (Reference.mk (some .type) (catalog.nameNode id)).written := by
  rw [encodeType, typeName_eq h, Reference.written, nameNode_written h]

theorem nameReference_wellFormed {catalog : Catalog} (hnames : catalog.NamesRegular) {id : TypeId}
    {type : TypeDef} (h : catalog.typeDef? id = some type) :
    (Reference.mk (some .type) (catalog.nameNode id)).WellFormed :=
  ⟨(nameNode_isMember id).isReference, (nameNode_wellFormed hnames h).1.2⟩

/-- Every ID of a catalog is read as a reference with the letter of its entry, and what it is read as is
written as the same ID, whether or not that reference means the entry. Names must be such as can be
written, and conversions have parameters. -/
theorem encode_isCanonical {document : Text} {catalog : Catalog} (h : ofText document = .ok catalog)
    (hspellable : catalog.Spellable)
    (hconversions : ∀ member ∈ catalog.members, member.name ∈ conversionOperators →
      member.parameters ≠ []) :
    (∀ id : TypeId, id.index < catalog.types.length →
      ∃ text, catalog.encodeType id = .ok text ∧ text.IsCanonical .type) ∧
    ∀ (id : MemberId) (member : MemberDef), catalog.memberDef? id = some member →
      ∃ text, catalog.encodeMember id = .ok text ∧ text.IsCanonical member.kind.symbolKind := by
  have hloaded := ofText_loaded h
  constructor
  · intro id hid
    have htype : catalog.typeDef? id = some catalog.types[id.index] := List.getElem?_eq_getElem hid
    exact ⟨_, encodeType_eq_written htype,
      (nameReference_wellFormed hspellable.typeNames htype).isCanonical⟩
  · intro id member hmember
    have hwritten := @statedReference_written catalog member
      (hconversions member (mem_members hmember))
    refine ⟨_, encodeMember_eq_parts hloaded hspellable.listsBounded hmember, ?_⟩
    rw [← hwritten]
    exact statedReference_isCanonical hloaded hspellable hmember

/-- A generic type with a conversion from arrays of two dimensions. -/
def arrayConversion : Catalog :=
  ⟨[⟨['A', tick, '1'], [['T']], none, [⟨0⟩]⟩],
    [⟨⟨0⟩, [], .method, "op_Explicit".toList, [.array (.param ⟨.type ⟨0⟩, 0⟩) 2],
      some (.generic ⟨0⟩ [.param ⟨.type ⟨0⟩, 0⟩])⟩]⟩

theorem ofText_arrayConversion :
    ofText (("[[types]]\nname='A`1'\ngeneric_params=['T']\n" ++
      "[[types.members]]\nname='op_Explicit'\nkind='method'\nparameters=['`0[0:,0:]']\n" ++
      "returns='A\x7b`0\x7d'\n").toList) = .ok arrayConversion :=
  eq_ok_of_toOption (by decide +kernel)

/-- The IDs of the type and of the conversion are canonical, though the latter drops the dimensions. -/
theorem encode_isCanonical_arrayConversion :
    (∃ text, arrayConversion.encodeType ⟨0⟩ = .ok text ∧ text.IsCanonical .type) ∧
      ∃ text, arrayConversion.encodeMember ⟨0⟩ = .ok text ∧ text.IsCanonical .method := by
  have hA : Text.IsIdentifier ['A'] := ⟨'A', [], rfl, by decide +kernel, by simp⟩
  have hrest : "p_Explicit".toList.all inIdentifier = true := by decide +kernel
  have hname : Text.IsIdentifier "op_Explicit".toList :=
    ⟨'o', "p_Explicit".toList, by decide, by decide +kernel, List.all_eq_true.mp hrest⟩
  have hspellable : arrayConversion.Spellable := by
    refine ⟨?_, List.forall_mem_singleton.mpr ⟨by decide, hname⟩, by decide +kernel, by decide +kernel⟩
    refine List.forall_mem_singleton.mpr (List.forall_mem_singleton.mpr ?_)
    exact .inr ⟨['A'], 1, hA, by decide, by decide, rfl⟩
  obtain ⟨htypes, hmembers⟩ :=
    encode_isCanonical ofText_arrayConversion hspellable (by decide +kernel)
  exact ⟨htypes ⟨0⟩ (by decide), hmembers ⟨0⟩ _ rfl⟩

end Catalog

end DocRef

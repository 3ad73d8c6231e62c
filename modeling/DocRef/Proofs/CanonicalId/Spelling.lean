import DocRef.Proofs.CanonicalId.Members

/-!
What an ID spells (`encodeMember_eq_parts`): a head, which is the kind, the declaring type and the name
with its marker, and a tail, which is the parameter list, if there is one, and the return type of a
conversion. No character that begins a tail stands in a head, so an ID can be cut again (`parts_inj`).
With an empty list written out, an ID is the written form of a reference (`listReference`), which tells
neither more nor less (`parts_eq_iff`).
-/

namespace DocRef

namespace Catalog

/-- The kind, the declaring type and the name of a member. -/
def memberHead (catalog : Catalog) (member : MemberDef) : Text :=
  member.kind.symbolKind.letter :: ':' ::
    ((catalog.nameNode member.declaringType).written ++ '.' :: member.statedSegment)

/-- The parameter list of a member that has one, and the return type of a conversion. -/
def memberTail (catalog : Catalog) (member : MemberDef) : Text :=
  (if member.parameters = [] then [] else
    '(' :: Text.join ',' (Node.writtenAll (catalog.typeNodes member.parameters)) ++ [')']) ++
  Node.writtenReturn (catalog.returnsNode member)

/-- The same with a list also where it is empty. -/
def listTail (catalog : Catalog) (member : MemberDef) : Text :=
  '(' :: Text.join ',' (Node.writtenAll (catalog.typeNodes member.parameters)) ++ ')' ::
    Node.writtenReturn (catalog.returnsNode member)

/-- The reference to a member by its list. -/
def listReference (catalog : Catalog) (member : MemberDef) : Reference :=
  ⟨some member.kind.symbolKind,
    .method (.child (catalog.nameNode member.declaringType) member.statedSegment)
      (catalog.typeNodes member.parameters) (catalog.returnsNode member)⟩

section Parts

variable {catalog : Catalog} {id : MemberId} {member other : MemberDef}

/-- An ID is its head and its tail. -/
theorem encodeMember_eq_parts (hloaded : catalog.Loaded) (hbounded : catalog.ListsBounded)
    (hmember : catalog.memberDef? id = some member) :
    catalog.encodeMember id = .ok (catalog.memberHead member ++ catalog.memberTail member) := by
  obtain ⟨declaring, hdeclaring⟩ := typeDef?_declaringType hloaded hmember
  have htext := @memberText_eq_parts catalog id member _
    (typeText_ownParam hloaded hbounded hmember)
  rw [isGenericMethod_stated hmember] at htext
  rw [encodeMember_of_memberText hmember hdeclaring htext, memberHead, memberTail,
    nameNode_written hdeclaring, MemberDef.statedSegment]
  simp only [List.append_assoc, List.cons_append]

theorem listReference_written (member : MemberDef) :
    (catalog.listReference member).written = catalog.memberHead member ++ catalog.listTail member := by
  simp only [listReference, Reference.written, Node.written, memberHead, listTail,
    List.append_assoc, List.cons_append]

/-- The tail of a member with parameters writes its list out. -/
theorem listTail_eq_memberTail (h : member.parameters ≠ []) :
    catalog.listTail member = catalog.memberTail member := by
  rw [listTail, memberTail, if_neg h, List.append_assoc, List.singleton_append]

theorem listReference_wellFormed (hloaded : catalog.Loaded) (hspellable : catalog.Spellable)
    (hmember : catalog.memberDef? id = some member) : (catalog.listReference member).WellFormed :=
  (memberNodes_wellFormed hloaded hspellable.listsBounded hspellable.typeNames hmember
    (statedSegment_isName hspellable (mem_members hmember)) _).2

/-! ### Where a head ends -/

/-- Whether a character can be the first of a tail. -/
def beginsTail (c : Char) : Bool :=
  c = '(' || c = '~'

theorem not_inIdentifier_of_beginsTail {c : Char} (h : beginsTail c = true) :
    inIdentifier c = false ∧ c ≠ tick ∧ c ≠ '.' ∧ c ≠ ':' := by
  rw [beginsTail, Bool.or_eq_true, decide_eq_true_eq, decide_eq_true_eq] at h
  rcases h with rfl | rfl
  · decide +kernel
  · decide +kernel

theorem beginsTail_head (member : MemberDef) :
    ∀ c ∈ (catalog.memberTail member).head?, beginsTail c = true := by
  intro c hc
  rw [memberTail] at hc
  by_cases hnil : member.parameters = []
  · rw [if_pos hnil, List.nil_append] at hc
    cases hreturns : catalog.returnsNode member with
    | none =>
      rw [hreturns] at hc
      cases hc
    | some node =>
      rw [hreturns] at hc
      cases hc
      rfl
  · rw [if_neg hnil] at hc
    cases hc
    rfl

theorem typeName_notMem (hregular : catalog.NamesRegular) {declaring : TypeId} {type : TypeDef}
    (h : catalog.typeDef? declaring = some type) {c : Char} (hc : beginsTail c = true) :
    c ∉ type.name := by
  obtain ⟨hin, htick, hdot, -⟩ := not_inIdentifier_of_beginsTail hc
  intro hmem
  rw [← Text.join_split '.' type.name] at hmem
  rcases Text.mem_join hmem with hseparator | ⟨segment, hsegment, hmem⟩
  · exact hdot hseparator
  · have hname := (hregular type (List.mem_of_getElem? h) segment hsegment).isName
    exact hname.notMem hin htick hmem

/-- No character that begins a tail stands in a head. -/
theorem memberHead_notMem (hloaded : catalog.Loaded) (hspellable : catalog.Spellable)
    (hmember : catalog.memberDef? id = some member) :
    ∀ c ∈ catalog.memberHead member, beginsTail c = false := by
  intro c hmem
  rw [← Bool.not_eq_true]
  intro hc
  obtain ⟨hin, htick, hdot, hcolon⟩ := not_inIdentifier_of_beginsTail hc
  obtain ⟨declaring, hdeclaring⟩ := typeDef?_declaringType hloaded hmember
  have hletter : beginsTail member.kind.symbolKind.letter = false := by
    cases member.kind <;> decide
  have hname := typeName_notMem hspellable.typeNames hdeclaring hc
  have hsegment := (statedSegment_isName hspellable (mem_members hmember)).notMem hin htick
  rw [memberHead, nameNode_written hdeclaring] at hmem
  simp only [List.mem_cons, List.mem_append, hname, hsegment, hdot, hcolon, or_false] at hmem
  rw [hmem, hletter] at hc
  cases hc

/-- Equal IDs have equal heads and equal tails. -/
theorem parts_inj (hloaded : catalog.Loaded) (hspellable : catalog.Spellable) {otherId : MemberId}
    (hmember : catalog.memberDef? id = some member)
    (hother : catalog.memberDef? otherId = some other)
    (h : catalog.memberHead member ++ catalog.memberTail member =
      catalog.memberHead other ++ catalog.memberTail other) :
    catalog.memberHead member = catalog.memberHead other ∧
      catalog.memberTail member = catalog.memberTail other := by
  have hcut : ∀ {place : MemberId} {found : MemberDef}, catalog.memberDef? place = some found →
      (catalog.memberHead found ++ catalog.memberTail found).takeWhile (!beginsTail ·) =
          catalog.memberHead found ∧
        (catalog.memberHead found ++ catalog.memberTail found).dropWhile (!beginsTail ·) =
          catalog.memberTail found := by
    intro place found hfound
    apply Text.takeWhile_append_of_stop
    · intro c hc
      rw [memberHead_notMem hloaded hspellable hfound c hc]
      rfl
    · intro c hc
      rw [beginsTail_head found c hc]
      rfl
  obtain ⟨hhead, htail⟩ := hcut hmember
  obtain ⟨hotherHead, hotherTail⟩ := hcut hother
  rw [h] at hhead htail
  exact ⟨hhead.symm.trans hotherHead, htail.symm.trans hotherTail⟩

/-! ### Lists that are written out -/

/-- Whether there is a list can be seen from what a tail begins with. -/
theorem listTail_eq_of_memberTail_eq (h : catalog.memberTail member = catalog.memberTail other) :
    catalog.listTail member = catalog.listTail other := by
  -- A list begins with `(` and a return type with `~`, so neither is taken for the other.
  have hnone : ∀ {text rest : Text} {returns : Option Node},
      Node.writtenReturn returns ≠ '(' :: text ++ [')'] ++ rest := by
    intro text rest returns
    cases returns with
    | none => exact nofun
    | some node =>
      intro heq
      exact absurd (List.cons.inj heq).1 (by decide)
  have hlist : ∀ {found : MemberDef}, found.parameters = [] →
      catalog.listTail found = '(' :: ')' :: catalog.memberTail found := by
    intro found hnil
    rw [listTail, memberTail, if_pos hnil, hnil]
    rfl
  by_cases hnil : member.parameters = []
  · by_cases hotherNil : other.parameters = []
    · rw [hlist hnil, hlist hotherNil, h]
    · rw [memberTail, memberTail, if_pos hnil, if_neg hotherNil] at h
      exact absurd h hnone
  · by_cases hotherNil : other.parameters = []
    · rw [memberTail, memberTail, if_neg hnil, if_pos hotherNil] at h
      exact absurd h.symm hnone
    · rw [listTail_eq_memberTail hnil, listTail_eq_memberTail hotherNil, h]

/-- IDs are equal if and only if they stand for the same reference with a list. -/
theorem parts_eq_iff (hloaded : catalog.Loaded) (hspellable : catalog.Spellable)
    {otherId : MemberId} (hmember : catalog.memberDef? id = some member)
    (hother : catalog.memberDef? otherId = some other) :
    catalog.memberHead member ++ catalog.memberTail member =
        catalog.memberHead other ++ catalog.memberTail other ↔
      catalog.listReference member = catalog.listReference other := by
  constructor
  · intro h
    obtain ⟨hhead, htail⟩ := parts_inj hloaded hspellable hmember hother h
    have hread := Reference.parse_written (listReference_wellFormed hloaded hspellable hmember)
    rw [listReference_written, hhead, listTail_eq_of_memberTail_eq htail, ← listReference_written,
      Reference.parse_written (listReference_wellFormed hloaded hspellable hother)] at hread
    exact (Except.ok.inj hread).symm
  · intro h
    simp only [listReference, Reference.mk.injEq, Option.some.injEq, Node.method.injEq,
      Node.child.injEq] at h
    obtain ⟨hkind, ⟨hdeclaring, hsegment⟩, hparameters, hreturns⟩ := h
    have hnil : member.parameters = [] ↔ other.parameters = [] := by
      rw [typeNodes_eq_map, typeNodes_eq_map] at hparameters
      rw [← @List.map_eq_nil_iff _ _ catalog.typeNode, hparameters, List.map_eq_nil_iff]
    simp only [memberHead, memberTail, hkind, hdeclaring, hsegment, hparameters, hreturns, hnil]

end Parts

end Catalog

end DocRef

import DocRef.Proofs.CanonicalId.Trees

/-!
The names of members as IDs spell them: with `#` for dots, and with a marker where the ID states how many
parameters a generic method has. A name in an ID can be split into both again
(`splitArity_statedSegment`).
-/

namespace DocRef

/-- The text of a marker. -/
def Arity.text : Arity → Text
  | .none => []
  | .type count => tick :: Text.decimal count
  | .method count => tick :: tick :: Text.decimal count

/-- The arity that the ID of a member states: only that of a generic method is stated. -/
def MemberDef.statedArity (member : MemberDef) : Arity :=
  if member.kind = .method ∧ member.genericParams ≠ [] then .method member.genericParams.length
  else .none

/-- The segment of a member's name in its ID. -/
def MemberDef.statedSegment (member : MemberDef) : Text :=
  member.name.exchange '.' '#' ++ member.statedArity.text

namespace Catalog

/-- Whether a catalog has names that can be written in references. -/
structure Spellable (catalog : Catalog) : Prop where
  typeNames : catalog.NamesRegular
  memberNames : ∀ member ∈ catalog.members,
    '#' ∉ member.name ∧ (member.name.exchange '.' '#').IsIdentifier
  listsBounded : catalog.ListsBounded

section Segments

variable {catalog : Catalog} {id : MemberId} {member : MemberDef}

theorem mem_members (h : catalog.memberDef? id = some member) : member ∈ catalog.members :=
  List.mem_of_getElem? h

theorem isGenericMethod_stated (hmember : catalog.memberDef? id = some member) :
    (if catalog.isGenericMethod id then tick :: tick :: Text.decimal member.genericParams.length
      else []) = member.statedArity.text := by
  rw [isGenericMethod, hmember, Option.any_some, MemberDef.statedArity]
  by_cases hkind : member.kind = .method
  · by_cases hgeneric : member.genericParams = []
    · simp [hgeneric, Arity.text]
    · simp [hkind, hgeneric, Arity.text]
  · simp [hkind, Arity.text]

theorem splitArity_statedSegment (hspellable : catalog.Spellable)
    (hmem : member ∈ catalog.members) :
    splitArity member.statedSegment = (member.name.exchange '.' '#', member.statedArity) := by
  rw [MemberDef.statedSegment, MemberDef.statedArity]
  split
  · have hmax : maxArity = 2 ^ 64 - 1 := rfl
    have hlength := hspellable.listsBounded.2 member hmem
    exact splitArity_method _ (by omega)
  · rw [Arity.text, List.append_nil]
    exact splitArity_of_identifier (hspellable.memberNames member hmem).2

theorem statedSegment_isName (hspellable : catalog.Spellable) (hmem : member ∈ catalog.members) :
    member.statedSegment.IsName := by
  refine ⟨_, member.statedArity.text, rfl, (hspellable.memberNames member hmem).2, ?_⟩
  rw [MemberDef.statedArity]
  split
  · exact .inr ⟨_, Text.decimal_ne_nil _, fun c => Text.isDigit_of_mem_decimal, .inr rfl⟩
  · exact .inl rfl

end Segments

end Catalog

end DocRef

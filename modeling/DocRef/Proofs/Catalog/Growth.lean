import DocRef.Proofs.Renumbering.Inheritance
import DocRef.Proofs.Renumbering.Loading

/-!
A catalog may grow. Types that are listed behind all others take no number, no ID and no inherited
member from those that were there (`ofListing_append_keeps`). Nor do they take the meaning of what
meant a type before, or a member under the letter of its kind: a parameter that meant nothing may come
to mean a new type, but no signature from before has that type. Only a dotted name without a letter
may turn from a member into a type.
-/

namespace DocRef

/-- Whether a tree is no member with a return type behind its parameter list. -/
def Node.HasNoSuffix (node : Node) : Prop :=
  ∀ member parameters suffix, node ≠ .method member parameters (some suffix)

theorem Listing.firstMember_append {listing : Listing} (added : Listing) {place : Nat}
    (h : place ≤ listing.length) :
    (listing ++ added).firstMember place = listing.firstMember place := by
  induction listing generalizing place with
  | nil => rw [Nat.le_zero.mp h, firstMember, firstMember]
  | cons type listing ih =>
    cases place with
    | zero => rw [firstMember, firstMember]
    | succ place =>
      rw [List.cons_append, firstMember, firstMember, ih (Nat.le_of_succ_le_succ h)]

/-- A listing stands in front of what is added to it, with its numbers. -/
theorem Listing.embeds_append (listing added : Listing) :
    listing.Embeds .identity (listing ++ added) where
  type := by
    intro place type htype
    exact (List.getElem?_append_left (List.getElem?_eq_some_iff.mp htype).1).trans htype
  member := by
    intro place offset type htype _
    have hplace := (List.getElem?_eq_some_iff.mp htype).1
    exact congrArg (fun first => MemberId.mk (first + offset))
      (firstMember_append added (Nat.le_of_lt hplace)).symm

namespace Catalog

/-- What a catalog keeps in a larger one. -/
structure KeptIn (catalog larger : Catalog) : Prop where
  /-- A type has its number, its definition, its ID, and its own and inherited members. -/
  type : ∀ {id : TypeId} {type : TypeDef}, catalog.typeDef? id = some type →
    larger.typeDef? id = some type ∧ larger.encodeType id = catalog.encodeType id ∧
      larger.mergedMembers id = catalog.mergedMembers id
  /-- A member has its number, its definition and its ID. -/
  member : ∀ {id : MemberId} {member : MemberDef}, catalog.memberDef? id = some member →
    larger.memberDef? id = some member ∧ larger.encodeMember id = catalog.encodeMember id
  /-- A reference that means something means that, if it has the letter of a kind or means a type. -/
  reference : ∀ {reference : Reference}, reference.node.HasNoSuffix →
    catalog.resolveReference reference ≠ .unresolved →
    (reference.kind ≠ none ∨ ∃ type, catalog.resolveReference reference = .type type) →
    larger.resolveReference reference = catalog.resolveReference reference

section Growth

variable {catalog larger : Catalog}

/-- What is found in a larger catalog under its own numbers is kept there. -/
theorem Embeds.keptIn (h : catalog.Embeds .identity larger) (hloaded : catalog.Loaded) :
    catalog.KeptIn larger := by
  have hset : MemberSet.renumber .identity = id := funext MemberSet.renumber_identity
  refine ⟨?_, ?_, ?_⟩
  · intro id type htype
    have harity := arity?_eq_some htype
    have hmerged := h.mergedMembers hloaded harity
    rw [hset, Except.map_id] at hmerged
    refine ⟨?_, h.encodeType harity, hmerged⟩
    exact (h.typeDef? htype).trans (congrArg some type.renumber_identity)
  · intro id member hmember
    refine ⟨?_, h.encodeMember hloaded hmember⟩
    exact (h.memberDef? hmember).trans (congrArg some member.renumber_identity)
  · intro reference hnode hmeans hkind
    have hsuffix : SuffixStays .identity catalog larger reference.node :=
      fun member parameters suffix hmethod => absurd hmethod (hnode member parameters suffix)
    exact (h.resolveReference hloaded hsuffix hmeans hkind).trans (Symbol.renumber_identity _)

/-- A catalog is kept in that of a listing with more types behind. -/
theorem ofListing_append_keeps {listing added : Listing} (h : ofListing listing = .ok catalog)
    (hlarger : ofListing (listing ++ added) = .ok larger) : catalog.KeptIn larger :=
  (embeds_of_ofListing (Listing.embeds_append listing added) h hlarger).keptIn (ofListing_loaded h)

end Growth

/-- A type with a field. -/
def growing : Listing :=
  [⟨none, [], [⟨[], .field, ['B'], [], some ['A']⟩], ['A']⟩]

/-- A type derived from it that has the name of the field. -/
def shadowing : Listing :=
  [⟨some ['A'], [], [], "A.B".toList⟩]

/-- The field keeps its reference with a letter, and loses the one without to the new type. -/
theorem growing_keeps : ∃ catalog larger, ofListing growing = .ok catalog ∧
    ofListing (growing ++ shadowing) = .ok larger ∧ catalog.KeptIn larger ∧
      catalog.resolveReference ⟨some .field, .child (.root ['A']) ['B']⟩ = .member ⟨0⟩ ∧
      larger.resolveReference ⟨some .field, .child (.root ['A']) ['B']⟩ = .member ⟨0⟩ ∧
      catalog.resolveReference ⟨none, .child (.root ['A']) ['B']⟩ = .member ⟨0⟩ ∧
      larger.resolveReference ⟨none, .child (.root ['A']) ['B']⟩ = .type (.named ⟨1⟩) := by
  have hcatalog : ofListing growing = .ok ⟨[⟨['A'], [], none, [⟨0⟩]⟩],
      [⟨⟨0⟩, [], .field, ['B'], [], some (.named ⟨0⟩)⟩]⟩ := eq_ok_of_toOption (by decide +kernel)
  have hlarger : ofListing (growing ++ shadowing) = .ok ⟨[⟨['A'], [], none, [⟨0⟩]⟩,
      ⟨"A.B".toList, [], some (.named ⟨0⟩), []⟩],
      [⟨⟨0⟩, [], .field, ['B'], [], some (.named ⟨0⟩)⟩]⟩ := eq_ok_of_toOption (by decide +kernel)
  have hkept := ofListing_append_keeps hcatalog hlarger
  have hfield := @hkept.reference ⟨some .field, .child (.root ['A']) ['B']⟩ nofun
    (by decide +kernel) (.inl nofun)
  refine ⟨_, _, hcatalog, hlarger, hkept, by decide +kernel, ?_, by decide +kernel, by decide +kernel⟩
  rw [hfield]
  decide +kernel

end Catalog

end DocRef

import DocRef.Proofs.CanonicalId.Trees

/-!
The IDs of constructed types. A type that is closed over arguments, or an array, a by-ref type or a
pointer, is written in reference syntax. What is written is read as a type again
(`encodeSymbol_type_readBack`), and arguments that were spread over the segments of a nested name are
gathered again in their order. Only the ranks of arrays are lost.
-/

namespace DocRef.Catalog

variable {catalog : Catalog}

/-- The ID of a type is the written form of its tree. -/
theorem encodeSymbol_type (hloaded : catalog.Loaded) (hbounded : catalog.ListsBounded)
    {type : TypeExpr} (hscope : type.WellScoped catalog.arity? fun _ => False) :
    catalog.encodeSymbol (.type type) = .ok (some ('T' :: ':' :: (catalog.typeNode type).written)) := by
  have htext : catalog.typeText (ownParam []) type = .ok (catalog.typeNode type).written :=
    typeText_eq_written hloaded hbounded (fun _ => False.elim) hscope
  rw [encodeSymbol, htext]
  rfl

/-- A type in which no parameters stand has an ID, what follows the letter of the ID is read as a type,
and that means the type again, with one dimension for each array. -/
theorem encodeSymbol_type_readBack {document : Text} (h : ofText document = .ok catalog)
    (hbounded : catalog.ListsBounded) (hnames : catalog.NamesRegular) {type : TypeExpr}
    (hscope : type.WellScoped catalog.arity? fun _ => False) (horder : type.InOrder) :
    ∃ text node, catalog.encodeSymbol (.type type) = .ok (some ('T' :: ':' :: text)) ∧
      Node.parseType text = .ok node ∧
      catalog.resolveType .none node = some (type.map id TypeExpr.readRank) := by
  have hloaded := ofText_loaded h
  have hwellFormed : (catalog.typeNode type).WellFormedType :=
    (typeNode_wellFormed hloaded hbounded hnames (fun _ => False.elim) hscope horder).1
  refine ⟨_, catalog.typeNode type, encodeSymbol_type hloaded hbounded hscope,
    Node.parseType_written hwellFormed, ?_⟩
  apply resolveType_typeNode hloaded hbounded hnames _ hscope
  exact fun _ => False.elim

/-- Arrays of `C` in `B`, closed over arguments for both. -/
def nestedArray : TypeExpr :=
  .array (.generic ⟨1⟩ [.named ⟨0⟩, .array (.named ⟨0⟩) 3, .pointer (.named ⟨0⟩)]) 2

/-- Each segment gets its own arguments, and they are gathered again when the text is read. -/
theorem nestedArray_readBack :
    nestedGenerics.encodeSymbol (.type nestedArray) =
        .ok (some "T:B\x7bA\x7d.C\x7bA[],A*\x7d[]".toList) ∧
      ∃ node, Node.parseType "B\x7bA\x7d.C\x7bA[],A*\x7d[]".toList = .ok node ∧
        nestedGenerics.resolveType .none node = some (.array
          (.generic ⟨1⟩ [.named ⟨0⟩, .array (.named ⟨0⟩) 1, .pointer (.named ⟨0⟩)]) 1) := by
  have hbounded : nestedGenerics.ListsBounded := ⟨by decide +kernel, by decide +kernel⟩
  have hA : Text.IsIdentifier ['A'] := ⟨'A', [], rfl, by decide +kernel, by simp⟩
  have hB : Text.IsIdentifier ['B'] := ⟨'B', [], rfl, by decide +kernel, by simp⟩
  have hC : Text.IsIdentifier ['C'] := ⟨'C', [], rfl, by decide +kernel, by simp⟩
  have hnames : nestedGenerics.NamesRegular := by
    have hfirst : ∀ segment ∈ Text.split '.' ['A'], segment.IsSegment :=
      List.forall_mem_singleton.mpr (.inl hA)
    have hsecond : ∀ segment ∈ Text.split '.' ['B', tick, '1', '.', 'C', tick, '2'],
        segment.IsSegment := by
      refine List.forall_mem_cons.mpr ⟨?_, List.forall_mem_singleton.mpr ?_⟩
      · exact .inr ⟨['B'], 1, hB, by decide, by decide, rfl⟩
      · exact .inr ⟨['C'], 2, hC, by decide, by decide, rfl⟩
    exact List.forall_mem_cons.mpr ⟨hfirst, List.forall_mem_singleton.mpr hsecond⟩
  have hscope : nestedArray.WellScoped nestedGenerics.arity? fun _ => False := by
    refine .array (.generic (List.cons_ne_nil _ _) rfl ?_)
    simp only [List.forall_mem_cons]
    exact ⟨.named rfl, .array (.named rfl), .pointer (.named rfl), nofun⟩
  have horder : nestedArray.InOrder := by
    refine .array (.generic ?_) rfl
    simp only [List.forall_mem_cons]
    exact ⟨.named, .array .named rfl, .pointer .named rfl, nofun⟩
  have hid : nestedGenerics.encodeSymbol (.type nestedArray) =
      .ok (some "T:B\x7bA\x7d.C\x7bA[],A*\x7d[]".toList) := eq_ok_of_toOption (by decide +kernel)
  obtain ⟨text, node, hencode, hparse, hmeans⟩ :=
    encodeSymbol_type_readBack ofText_nestedGenerics hbounded hnames hscope horder
  rw [hid] at hencode
  cases hencode
  exact ⟨hid, node, hparse, hmeans⟩

end DocRef.Catalog

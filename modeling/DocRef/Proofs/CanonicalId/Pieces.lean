import DocRef.Proofs.CanonicalId.Texts
import DocRef.Proofs.Resolution.Paths

/-!
Dotted names with arguments, piece by piece. Each piece is a segment of a name, which stands as it is
or has its marker replaced by arguments. From pieces come the written name (`written_ofPieces`), a tree
(`ofPieces_wellFormed`), and what that tree is resolved to (`resolveType_ofPieces`): the type that the
whole name names, closed over all the arguments.
-/

namespace DocRef

/-- Whether a piece stands for a segment of a name. -/
def PieceFits {α : Type} (segment : Text) : Text × Option (List α) → Prop
  | (text, none) => text = segment ∧ segment.IsSegment
  | (stem, some arguments) => stem.IsIdentifier ∧ arguments ≠ [] ∧
      segment = stem ++ tick :: Text.decimal arguments.length

/-- The arguments in a piece. -/
def pieceArguments {α : Type} (piece : Text × Option (List α)) : List α :=
  piece.2.getD []

/-- A piece with other arguments. -/
def mapPiece {α β : Type} (f : α → β) (piece : Text × Option (List α)) : Text × Option (List β) :=
  (piece.1, piece.2.map (List.map f))

/-- The pieces of a name that stands as it is. -/
def openPieces (segments : List Text) : List (Text × Option (List Node)) :=
  segments.map fun segment => (segment, none)

theorem openPieces_fit {segments : List Text} (h : ∀ segment ∈ segments, segment.IsSegment) :
    List.Forall₂ PieceFits segments (openPieces segments) := by
  induction segments with
  | nil => exact .nil
  | cons segment segments ih =>
    exact .cons ⟨rfl, h segment List.mem_cons_self⟩
      (ih fun other hother => h other (List.mem_cons_of_mem _ hother))

theorem openPieces_arguments (segments : List Text) :
    (openPieces segments).flatMap pieceArguments = [] := by
  induction segments with
  | nil => rfl
  | cons segment segments ih => exact ih

theorem Text.IsSegment.cases {segment : Text} (h : segment.IsSegment) :
    (segment.IsIdentifier ∧ splitArity segment = (segment, .none)) ∨
      ∃ stem count, stem.IsIdentifier ∧ 1 ≤ count ∧
        segment = stem ++ tick :: Text.decimal count ∧
        splitArity segment = (stem, .type count) := by
  rcases h with h | ⟨stem, count, hstem, hone, hmax, rfl⟩
  · exact .inl ⟨h, splitArity_of_identifier h⟩
  · exact .inr ⟨stem, count, hstem, hone, rfl, splitArity_type hstem hmax⟩

/-- Spreading as many arguments as the markers ask for gives pieces with all of them. -/
theorem spread_fit {α : Type} {segments : List Text} (h : ∀ segment ∈ segments, segment.IsSegment)
    {arguments : List α} (hsum : aritySum segments = arguments.length) :
    List.Forall₂ PieceFits segments (Catalog.spread segments arguments) ∧
      (Catalog.spread segments arguments).flatMap pieceArguments = arguments := by
  induction segments generalizing arguments with
  | nil => exact ⟨.nil, (List.eq_nil_of_length_eq_zero hsum.symm).symm⟩
  | cons segment segments ih =>
    have hrest := fun other hother => h other (List.mem_cons_of_mem _ hother)
    rcases (h segment List.mem_cons_self).cases with ⟨hidentifier, hsplit⟩ |
      ⟨stem, count, hstem, hone, hsegment, hsplit⟩
    · have hmarker : ∀ count, (splitArity segment).2 ≠ .type count := by
        rw [hsplit]
        exact nofun
      rw [Catalog.aritySum_of_not_type hmarker] at hsum
      obtain ⟨hfit, hall⟩ := ih hrest hsum
      rw [Catalog.spread_of_not_type hmarker, List.flatMap_cons, hall]
      exact ⟨.cons ⟨rfl, .inl hidentifier⟩ hfit, rfl⟩
    · rw [Catalog.aritySum_of_type hsplit] at hsum
      have hdrop : aritySum segments = (arguments.drop count).length := by
        rw [List.length_drop]
        omega
      have htake : (arguments.take count).length = count := List.length_take_of_le (by omega)
      obtain ⟨hfit, hall⟩ := ih hrest hdrop
      rw [Catalog.spread_of_type hsplit, List.flatMap_cons, hall]
      refine ⟨.cons ⟨hstem, ?_, ?_⟩ hfit, List.take_append_drop count arguments⟩
      · exact List.ne_nil_of_length_pos (by omega)
      · rw [htake, hsegment]

theorem spread_ne_nil {α : Type} {segments : List Text} (h : segments ≠ []) (arguments : List α) :
    Catalog.spread segments arguments ≠ [] := by
  obtain ⟨segment, segments, rfl⟩ := List.exists_cons_of_ne_nil h
  rcases Catalog.marker_cases segment with ⟨stem, count, hsplit⟩ | hsplit
  · rw [Catalog.spread_of_type hsplit]
    exact List.cons_ne_nil _ _
  · rw [Catalog.spread_of_not_type hsplit]
    exact List.cons_ne_nil _ _

theorem spread_map {α β : Type} (f : α → β) (segments : List Text) (arguments : List α) :
    Catalog.spread segments (arguments.map f) =
      (Catalog.spread segments arguments).map (mapPiece f) := by
  induction segments generalizing arguments with
  | nil => rfl
  | cons segment segments ih =>
    rcases Catalog.marker_cases segment with ⟨stem, count, hsplit⟩ | hsplit
    · rw [Catalog.spread_of_type hsplit, Catalog.spread_of_type hsplit, ← List.map_drop, ih,
        List.map_cons, mapPiece, Option.map_some, List.map_take]
    · rw [Catalog.spread_of_not_type hsplit, Catalog.spread_of_not_type hsplit, ih]
      rfl

namespace Node

/-! ### Written names -/

/-- What is written before a segment that follows a scope. -/
def writtenBefore (scope : Option Node) : Text :=
  (scope.map fun node => node.written ++ ['.']).getD []

theorem writtenAll_eq (nodes : List Node) : writtenAll nodes = nodes.map written := by
  induction nodes with
  | nil => rfl
  | cons node nodes ih => rw [writtenAll, ih, List.map_cons]

theorem written_segment (scope : Option Node) (text : Text) :
    (segment scope text).written = writtenBefore scope ++ text := by
  cases scope with
  | none => rfl
  | some node => simp [segment, written, writtenBefore]

theorem written_addPiece (scope : Option Node) (piece : Text × Option (List Node)) :
    (addPiece scope piece).written =
      writtenBefore scope ++ Catalog.closedText (mapPiece written piece) := by
  obtain ⟨text, _ | arguments⟩ := piece
  · exact written_segment scope text
  · rw [addPiece, written, written_segment, writtenAll_eq]
    simp [mapPiece, Catalog.closedText]

theorem writtenBefore_addPieces (scope : Option Node) (pieces : List (Text × Option (List Node))) :
    writtenBefore (addPieces scope pieces) = writtenBefore scope ++
      (pieces.map fun piece => Catalog.closedText (mapPiece written piece)).flatMap (· ++ ['.']) := by
  induction pieces generalizing scope with
  | nil => exact (List.append_nil _).symm
  | cons piece pieces ih =>
    rw [addPieces_cons, ih, List.map_cons, List.flatMap_cons, writtenBefore, Option.map_some,
      Option.getD_some, written_addPiece]
    simp only [List.append_assoc]

/-- A name in pieces is written as its pieces with dots between them. -/
theorem written_ofPieces {pieces : List (Text × Option (List Node))} (h : pieces ≠ []) :
    (ofPieces pieces).written =
      Text.join '.' (pieces.map fun piece => Catalog.closedText (mapPiece written piece)) := by
  have hbefore := writtenBefore_addPieces none pieces
  rw [addPieces_ofPieces h, ← Text.join_append_separator '.' (by rwa [Ne, List.map_eq_nil_iff])]
    at hbefore
  exact List.append_cancel_right hbefore

/-! ### Well-formed trees -/

/-- Whether a scope, if there is one, is a well-formed chain of segments. -/
def ScopeWellFormed (scope : Option Node) : Prop :=
  ∀ node ∈ scope, node.WellFormedType ∧ node.isScope

theorem segment_wellFormed {scope : Option Node} (hscope : ScopeWellFormed scope) {text : Text}
    (htext : text.IsName) : (segment scope text).WellFormedType := by
  cases scope with
  | none => exact ⟨trivial, htext⟩
  | some node =>
    obtain ⟨⟨htype, hwritable⟩, hisScope⟩ := hscope node rfl
    exact ⟨⟨htype, hisScope⟩, hwritable, htext⟩

theorem allTypes_iff (nodes : List Node) : AllTypes nodes ↔ ∀ node ∈ nodes, node.IsType := by
  induction nodes with
  | nil => simp [AllTypes]
  | cons node nodes ih => simp [AllTypes, ih]

theorem allWritable_iff_forall (nodes : List Node) :
    AllWritable nodes ↔ ∀ node ∈ nodes, node.Writable := by
  induction nodes with
  | nil => simp [AllWritable]
  | cons node nodes ih => simp [AllWritable, ih]

theorem addPiece_wellFormed {scope : Option Node} (hscope : ScopeWellFormed scope) {segment : Text}
    {piece : Text × Option (List Node)} (hpiece : PieceFits segment piece)
    (harguments : ∀ node ∈ pieceArguments piece, node.WellFormedType) :
    ScopeWellFormed (some (addPiece scope piece)) := by
  rintro node hnode
  cases hnode
  obtain ⟨text, _ | arguments⟩ := piece
  · obtain ⟨rfl, hsegment⟩ := hpiece
    exact ⟨segment_wellFormed hscope hsegment.isName, isScope_of_isSegment (isSegment_segment _ _)⟩
  · obtain ⟨hstem, hne, -⟩ := hpiece
    have hgeneric := segment_wellFormed hscope (Text.IsSegment.isName (.inl hstem))
    refine ⟨⟨⟨hgeneric.1, isSegment_segment _ _, hne, ?_⟩, hgeneric.2, ?_⟩, rfl⟩
    · exact (allTypes_iff arguments).mpr fun node hnode => (harguments node hnode).1
    · exact (allWritable_iff_forall arguments).mpr fun node hnode => (harguments node hnode).2

theorem addPieces_wellFormed {scope : Option Node} (hscope : ScopeWellFormed scope)
    {segments : List Text} {pieces : List (Text × Option (List Node))}
    (hpieces : List.Forall₂ PieceFits segments pieces)
    (harguments : ∀ node ∈ pieces.flatMap pieceArguments, node.WellFormedType) :
    ScopeWellFormed (addPieces scope pieces) := by
  induction hpieces generalizing scope with
  | nil => exact hscope
  | cons hpiece _ ih =>
    rw [List.flatMap_cons] at harguments
    refine ih (addPiece_wellFormed hscope hpiece ?_) ?_
    · exact fun node hnode => harguments node (List.mem_append_left _ hnode)
    · exact fun node hnode => harguments node (List.mem_append_right _ hnode)

theorem ofPieces_wellFormed {segments : List Text} {pieces : List (Text × Option (List Node))}
    (hne : pieces ≠ []) (hpieces : List.Forall₂ PieceFits segments pieces)
    (harguments : ∀ node ∈ pieces.flatMap pieceArguments, node.WellFormedType) :
    (ofPieces pieces).WellFormedType ∧ (ofPieces pieces).isScope := by
  have hnone : ScopeWellFormed none := nofun
  exact addPieces_wellFormed hnone hpieces harguments _ (addPieces_ofPieces hne)

end Node

/-! ### What names are resolved to -/

theorem Text.IsSegment.exists_marker {text : Text} (h : text.IsSegment) : ∃ stem marker,
    stem.IsIdentifier ∧ (∀ count ∈ marker, 1 ≤ count ∧ count ≤ maxArity) ∧
      text = markedStem stem marker := by
  rcases h with h | ⟨stem, count, hstem, hone, hmax, rfl⟩
  · exact ⟨text, none, h, by simp, rfl⟩
  · refine ⟨stem, some count, hstem, ?_, rfl⟩
    rintro _ ⟨⟩
    exact ⟨hone, hmax⟩

/-- A piece that stands for a segment of a name is a segment of a path, with that name. -/
theorem PieceFits.exists_pathSegment {text : Text} {piece : Text × Option (List Node)}
    (h : PieceFits text piece) : ∃ segment : PathSegment, segment.piece = piece ∧
      segment.name = text ∧ segment.arguments = pieceArguments piece ∧ segment.Agrees := by
  obtain ⟨stem, _ | arguments⟩ := piece
  · obtain ⟨rfl, hsegment⟩ := h
    obtain ⟨stem, marker, hstem, hrange, rfl⟩ := hsegment.exists_marker
    refine ⟨⟨stem, marker, [], hstem, hrange⟩, rfl, ?_, rfl, fun hne => absurd rfl hne⟩
    exact congrArg (markedStem stem) Option.or_none
  · obtain ⟨hstem, hne, rfl⟩ := h
    refine ⟨⟨stem, none, arguments, hstem, by simp⟩, ?_, ?_, rfl, ?_⟩
    · rw [PathSegment.piece, if_neg hne]
      rfl
    · rw [PathSegment.name, PathSegment.given?, if_neg hne]
      rfl
    · intro _ count hcount
      cases hcount

theorem exists_path {segments : List Text} {pieces : List (Text × Option (List Node))}
    (h : List.Forall₂ PieceFits segments pieces) : ∃ path : List PathSegment,
      path.map PathSegment.piece = pieces ∧ path.map PathSegment.name = segments ∧
      path.flatMap PathSegment.arguments = pieces.flatMap pieceArguments ∧
        ∀ segment ∈ path, segment.Agrees := by
  induction h with
  | nil => exact ⟨[], rfl, rfl, rfl, List.forall_mem_nil _⟩
  | cons hpiece _ ih =>
    obtain ⟨segment, hsegment, hname, harguments, hagrees⟩ := hpiece.exists_pathSegment
    obtain ⟨path, rfl, rfl, hflatMap, hall⟩ := ih
    refine ⟨segment :: path, ?_, ?_, ?_, List.forall_mem_cons.mpr ⟨hagrees, hall⟩⟩
    · rw [List.map_cons, hsegment]
    · rw [List.map_cons, hname]
    · rw [List.flatMap_cons, List.flatMap_cons, harguments, hflatMap]

/-- A name in pieces is resolved to the type of the whole name, closed over all arguments. -/
theorem Catalog.resolveType_ofPieces {catalog : Catalog} {bindings : Bindings} {segments : List Text}
    {pieces : List (Text × Option (List Node))} {own : List TypeExpr} (hne : pieces ≠ [])
    (hpieces : List.Forall₂ PieceFits segments pieces)
    (hown : catalog.resolveAll bindings (pieces.flatMap pieceArguments) = some own) :
    catalog.resolveType bindings (Node.ofPieces pieces) =
      (catalog.typeNamed? (Text.join '.' segments)).bind fun definition =>
        catalog.close? definition own := by
  obtain ⟨path, rfl, rfl, harguments, hagrees⟩ := exists_path hpieces
  rw [← harguments] at hown
  have hpath : path ≠ [] := by rwa [Ne, List.map_eq_nil_iff] at hne
  refine Option.ext fun type => ?_
  rw [← Node.ofPath, resolveType_ofPath hpath, and_iff_right hagrees, hown]
  simp only [Option.some.injEq, exists_eq_left', Option.bind_eq_some_iff]
  rfl

end DocRef

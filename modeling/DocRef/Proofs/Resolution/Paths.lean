import DocRef.Proofs.Resolution.UniqueFit
import Mathlib.Algebra.GroupWithZero.Nat

/-!
Paths to types. A path is a chain of segments, each with a marker or none and with arguments or none. As
a scope it spells a name and binds arguments (`resolveScope_addPiece`); as a type, where its last segment
is looked at on its own, it means the type of that name, closed over them (`resolveType_addPiece`). So
what a path is resolved to is told by its name and by the number of its arguments alone
(`resolveType_path`).
-/

namespace DocRef

/-- A segment of a path. Where there are arguments, they stand in braces behind it. -/
structure PathSegment where
  stem : Text
  marker : Option Nat
  arguments : List Node
  stem_isIdentifier : stem.IsIdentifier
  marker_inRange : ∀ count ∈ marker, 1 ≤ count ∧ count ≤ maxArity

/-- A stem with a marker, if there is one. -/
def markedStem (stem : Text) : Option Nat → Text
  | none => stem
  | some count => stem ++ tick :: Text.decimal count

namespace PathSegment

variable (segment : PathSegment)

/-- The text of a segment, before its arguments. -/
def text : Text := markedStem segment.stem segment.marker

/-- The number of arguments, if there are any. -/
def given? : Option Nat :=
  if segment.arguments = [] then none else some segment.arguments.length

/-- What a segment adds to the name of a type: its text, with the marker of its arguments if it has
arguments and no marker. -/
def name : Text := markedStem segment.stem (segment.marker.or segment.given?)

/-- Whether a marker that stands before arguments states their number. -/
def Agrees : Prop :=
  segment.arguments ≠ [] → ∀ count ∈ segment.marker, count = segment.arguments.length

/-- The segment as a piece of a dotted name. -/
def piece : Text × Option (List Node) :=
  (segment.text, if segment.arguments = [] then none else some segment.arguments)

end PathSegment

namespace Node

/-- A scope with one more piece behind it. -/
def addPiece (scope : Option Node) : Text × Option (List Node) → Node
  | (text, none) => .segment scope text
  | (stem, some arguments) => .closed (.segment scope stem) arguments

/-- A scope with several more pieces behind it. -/
def addPieces (scope : Option Node) (pieces : List (Text × Option (List Node))) : Option Node :=
  pieces.foldl (fun scope piece => some (addPiece scope piece)) scope

/-- The tree of a name in pieces. -/
def ofPieces (pieces : List (Text × Option (List Node))) : Node :=
  (addPieces none pieces).getD (.root [])

theorem addPieces_cons (scope : Option Node) (piece : Text × Option (List Node))
    (pieces : List (Text × Option (List Node))) :
    addPieces scope (piece :: pieces) = addPieces (some (addPiece scope piece)) pieces := rfl

theorem addPieces_ofPieces {pieces : List (Text × Option (List Node))} (h : pieces ≠ []) :
    addPieces none pieces = some (ofPieces pieces) := by
  have hsome : ∀ (pieces : List (Text × Option (List Node))) (scope : Node),
      (addPieces (some scope) pieces).isSome := by
    intro pieces
    induction pieces with
    | nil => exact fun _ => rfl
    | cons piece pieces ih => exact fun scope => ih (addPiece (some scope) piece)
  obtain ⟨piece, rest, rfl⟩ := List.exists_cons_of_ne_nil h
  obtain ⟨node, hnode⟩ := Option.isSome_iff_exists.mp (hsome rest (addPiece none piece))
  rw [ofPieces, addPieces_cons, hnode, Option.getD_some]

end Node

/-- The tree of a path. -/
def Node.ofPath (path : List PathSegment) : Node :=
  .ofPieces (path.map PathSegment.piece)

/-- The name that a path rebuilds. -/
def pathName (path : List PathSegment) : Text :=
  Text.join '.' (path.map PathSegment.name)

namespace Catalog

variable {catalog : Catalog} {bindings : Bindings}

/-! ### One segment -/

theorem withArity_of_pos {count : Nat} (h : 1 ≤ count) (name : Text) :
    withArity name count = name ++ tick :: Text.decimal count := by
  rw [withArity, if_neg (by omega)]

/-- The name of a scope, with the dot before what follows it. -/
def scopeBefore (scope : Option Text) : Text :=
  (scope.map (· ++ ['.'])).getD []

theorem typeInScope?_of_splitArity {scope : Option Text} {text stem : Text} {marker : Arity}
    (hsplit : splitArity text = (stem, marker)) (given : Nat) :
    catalog.typeInScope? scope text given =
      ((segmentArity? marker given).map (withArity (scopeBefore scope ++ stem))).bind
        catalog.typeNamed? := by
  rw [typeInScope?, hsplit]
  cases harity : segmentArity? marker given with
  | none => simp only [harity, Option.map_none, Option.bind_none]
  | some arity =>
    simp only [harity, Option.map_some, Option.bind_some]
    cases scope with
    | none => rfl
    | some outer =>
      simp only [lookup?, scopeBefore, Option.map_some, Option.getD_some, List.append_assoc,
        List.singleton_append]

section Segments

variable {segment : PathSegment}

theorem splitArity_text (before : Text) (segment : PathSegment) :
    splitArity (before ++ segment.text) =
      (before ++ segment.stem, segment.marker.elim .none .type) := by
  obtain ⟨stem, _ | count, arguments, hstem, hrange⟩ := segment
  · exact splitArity_identifier before hstem
  · have hmarked := splitArity_marked before hstem (hrange count rfl).2
    rwa [List.append_assoc] at hmarked

/-- A name that ends in a segment is that of an instantiated scope with the marker of its arguments. -/
theorem closedName?_text (before : Text) (hne : segment.arguments ≠ []) {name : Text} :
    closedName? (before ++ segment.text) segment.arguments.length = some name ↔
      segment.Agrees ∧ name = before ++ segment.name := by
  rw [closedName?, splitArity_text, PathSegment.Agrees, PathSegment.name, PathSegment.text,
    PathSegment.given?, if_neg hne]
  cases segment.marker with
  | none => simp [markedStem, eq_comm]
  | some count => simp [markedStem, hne, eq_comm]

/-- So is a name that ends in a segment as the last one, whether it has arguments or not. -/
theorem segmentArity?_text (before : Text) (segment : PathSegment) {name : Text} :
    (segmentArity? (segment.marker.elim .none .type) segment.arguments.length).map
        (withArity (before ++ segment.stem)) = some name ↔
      segment.Agrees ∧ name = before ++ segment.name := by
  rw [PathSegment.Agrees, PathSegment.name, PathSegment.given?]
  cases hmarker : segment.marker with
  | none =>
    by_cases hnil : segment.arguments = []
    · simp [segmentArity?, withArity, markedStem, hnil, eq_comm]
    · simp [segmentArity?, withArity, markedStem, hnil, eq_comm]
  | some count =>
    have hname : withArity (before ++ segment.stem) count =
        before ++ markedStem segment.stem (some count) := by
      rw [withArity_of_pos (segment.marker_inRange count hmarker).1, List.append_assoc]
      rfl
    have hagrees : (segment.arguments ≠ [] →
        ∀ stated ∈ some count, stated = segment.arguments.length) ↔
          segment.arguments.length = 0 ∨ count = segment.arguments.length := by
      simp [or_iff_not_imp_left, List.length_eq_zero_iff]
    have harity : segmentArity? (Option.elim (some count) .none .type) segment.arguments.length =
        if segment.arguments.length = 0 ∨ count = segment.arguments.length then some count
        else none := rfl
    rw [hagrees, harity]
    split
    · next hfits =>
      rw [Option.map_some, hname, Option.some.injEq, and_iff_right hfits, eq_comm]
      rfl
    · next hfits => simp only [hfits, false_and, Option.map_none, reduceCtorEq]

/-- As the last one, a segment names the type that has its name. -/
theorem typeInScope?_text {outer : Option Text} {id : TypeId} :
    catalog.typeInScope? outer segment.text segment.arguments.length = some id ↔
      segment.Agrees ∧ catalog.typeNamed? (scopeBefore outer ++ segment.name) = some id := by
  have hsplit : splitArity segment.text = (segment.stem, segment.marker.elim .none .type) :=
    splitArity_text [] segment
  rw [typeInScope?_of_splitArity hsplit, Option.bind_eq_some_iff]
  simp only [segmentArity?_text]
  constructor
  · rintro ⟨_, ⟨hagrees, rfl⟩, hnamed⟩
    exact ⟨hagrees, hnamed⟩
  · rintro ⟨hagrees, hnamed⟩
    exact ⟨_, ⟨hagrees, rfl⟩, hnamed⟩

end Segments

/-! ### Scopes -/

/-- The name of a scope, if there is a scope, and what is bound in it. -/
def outerScope? (catalog : Catalog) (bindings : Bindings) :
    Option Node → Option (Option Text × List TypeExpr)
  | none => some (none, [])
  | some scope => (catalog.resolveScope bindings scope).map fun (name, bound) => (some name, bound)

section Scopes

variable {scope : Option Node} {segment : PathSegment}

theorem resolveScope_segment (scope : Option Node) (text : Text) :
    catalog.resolveScope bindings (.segment scope text) =
      (catalog.outerScope? bindings scope).map fun (outer, bound) =>
        (scopeBefore outer ++ text, bound) := by
  cases scope with
  | none => rfl
  | some node =>
    show (catalog.resolveScope bindings node).bind _ = _
    rw [outerScope?, Option.map_map]
    cases catalog.resolveScope bindings node with
    | none => rfl
    | some spelled => simp [scopeBefore]

/-- A segment before arguments, or before none, is looked up with their number. -/
theorem resolveType_piece (scope : Option Node) (segment : PathSegment) :
    catalog.resolveType bindings (.addPiece scope segment.piece) =
      (catalog.resolveAll bindings segment.arguments).bind fun own =>
        (catalog.outerScope? bindings scope).bind fun (outer, bound) =>
          (catalog.typeInScope? outer segment.text segment.arguments.length).bind fun definition =>
            catalog.close? definition (bound ++ own) := by
  rw [PathSegment.piece]
  by_cases hnil : segment.arguments = []
  · rw [if_pos hnil, hnil]
    cases scope with
    | none => rfl
    | some node =>
      show (catalog.resolveScope bindings node).bind _ = (some []).bind _
      rw [outerScope?]
      cases catalog.resolveScope bindings node with
      | none => rfl
      | some spelled => simp
  · rw [if_neg hnil]
    cases scope with
    | none => rfl
    | some node =>
      show (catalog.resolveAll bindings segment.arguments).bind _ = _
      rw [outerScope?]
      cases catalog.resolveScope bindings node with
      | none => rfl
      | some spelled => rfl

/-- As a scope, a path with one more segment spells that segment's name after the name before it. -/
theorem resolveScope_addPiece {name : Text} {all : List TypeExpr} :
    catalog.resolveScope bindings (.addPiece scope segment.piece) = some (name, all) ↔
      segment.Agrees ∧ ∃ outer bound own,
        catalog.outerScope? bindings scope = some (outer, bound) ∧
        catalog.resolveAll bindings segment.arguments = some own ∧
        name = scopeBefore outer ++ segment.name ∧ all = bound ++ own := by
  by_cases hnil : segment.arguments = []
  · have hagrees : segment.Agrees := fun hne => absurd hnil hne
    have hname : segment.name = segment.text := by
      rw [PathSegment.name, PathSegment.given?, if_pos hnil, Option.or_none, PathSegment.text]
    have hnode : Node.addPiece scope segment.piece = .segment scope segment.text := by
      rw [PathSegment.piece, if_pos hnil]
      rfl
    rw [hnode, resolveScope_segment, hnil, hname, and_iff_right hagrees]
    simp only [Option.map_eq_some_iff, Prod.exists, Prod.mk.injEq, resolveAll, Option.some.injEq]
    constructor
    · rintro ⟨outer, bound, houter, rfl, rfl⟩
      exact ⟨outer, bound, [], houter, rfl, rfl, (List.append_nil bound).symm⟩
    · rintro ⟨outer, bound, own, houter, rfl, rfl, rfl⟩
      exact ⟨outer, bound, houter, rfl, (List.append_nil bound).symm⟩
  · have hnode : Node.addPiece scope segment.piece =
        .closed (.segment scope segment.text) segment.arguments := by
      rw [PathSegment.piece, if_neg hnil]
      rfl
    rw [hnode, resolveScope, resolveScope_segment]
    simp only [Option.bind_eq_bind, Option.pure_def, Option.bind_eq_some_iff, Option.map_eq_some_iff,
      Prod.exists, Prod.mk.injEq, Option.some.injEq]
    constructor
    · rintro ⟨_, bound, ⟨outer, _, houter, rfl, rfl⟩, own, hown, _, hname, rfl, rfl⟩
      obtain ⟨hagrees, rfl⟩ := (closedName?_text _ hnil).mp hname
      exact ⟨hagrees, outer, _, own, houter, hown, rfl, rfl⟩
    · rintro ⟨hagrees, outer, bound, own, houter, hown, rfl, rfl⟩
      exact ⟨_, bound, ⟨outer, bound, houter, rfl, rfl⟩, own, hown, _,
        (closedName?_text _ hnil).mpr ⟨hagrees, rfl⟩, rfl, rfl⟩

/-- As a type, it means the type of the name that it would spell as a scope. -/
theorem resolveType_addPiece {type : TypeExpr} :
    catalog.resolveType bindings (.addPiece scope segment.piece) = some type ↔
      ∃ name all, catalog.resolveScope bindings (.addPiece scope segment.piece) = some (name, all) ∧
        ∃ definition, catalog.typeNamed? name = some definition ∧
          catalog.close? definition all = some type := by
  rw [resolveType_piece]
  simp only [Option.bind_eq_some_iff, Prod.exists, resolveScope_addPiece, typeInScope?_text]
  constructor
  · rintro ⟨own, hown, outer, bound, houter, definition, ⟨hagrees, hnamed⟩, hclose⟩
    exact ⟨_, _, ⟨hagrees, outer, bound, own, houter, hown, rfl, rfl⟩, definition, hnamed, hclose⟩
  · rintro ⟨_, _, ⟨hagrees, outer, bound, own, houter, hown, rfl, rfl⟩, definition, hnamed, hclose⟩
    exact ⟨own, hown, outer, bound, houter, definition, ⟨hagrees, hnamed⟩, hclose⟩

end Scopes

/-! ### Paths -/

theorem resolveAll_append_eq_some_iff {nodes others : List Node} {types : List TypeExpr} :
    catalog.resolveAll bindings (nodes ++ others) = some types ↔
      ∃ first second, catalog.resolveAll bindings nodes = some first ∧
        catalog.resolveAll bindings others = some second ∧ types = first ++ second := by
  induction nodes generalizing types with
  | nil =>
    constructor
    · exact fun h => ⟨[], types, rfl, h, rfl⟩
    · rintro ⟨first, second, hfirst, hsecond, rfl⟩
      cases hfirst
      exact hsecond
  | cons node nodes ih =>
    simp only [List.cons_append, resolveAll, Option.bind_eq_bind, Option.bind_eq_some_iff, ih]
    constructor
    · rintro ⟨type, htype, rest, ⟨first, second, hfirst, hsecond, rfl⟩, heq⟩
      cases heq
      exact ⟨type :: first, second, ⟨type, htype, first, hfirst, rfl⟩, hsecond, rfl⟩
    · rintro ⟨_, second, ⟨type, htype, first, hfirst, heq⟩, hsecond, rfl⟩
      cases heq
      exact ⟨type, htype, first ++ second, ⟨first, second, hfirst, hsecond, rfl⟩, rfl⟩

section Paths

variable {path : List PathSegment}

/-- The name of a path that may have no segments. -/
def outerName (path : List PathSegment) : Option Text :=
  if path = [] then none else some (pathName path)

theorem pathName_concat (path : List PathSegment) (segment : PathSegment) :
    pathName (path ++ [segment]) = scopeBefore (outerName path) ++ segment.name := by
  rw [pathName, outerName, List.map_append, List.map_singleton]
  by_cases hnil : path = []
  · rw [if_pos hnil, hnil]
    exact (Text.join_cons '.' segment.name []).trans (List.append_nil _)
  · have hne : path.map PathSegment.name ≠ [] := by rwa [Ne, List.map_eq_nil_iff]
    have hdots := Text.join_append_separator '.' hne
    have hall := Text.join_append_separator '.'
      (List.append_ne_nil_of_left_ne_nil hne [segment.name])
    rw [List.flatMap_append, ← hdots, List.flatMap_singleton, ← List.append_assoc] at hall
    rw [if_neg hnil, List.append_cancel_right hall]
    rfl

theorem addPieces_concat (path : List PathSegment) (segment : PathSegment) :
    Node.addPieces none ((path ++ [segment]).map PathSegment.piece) =
      some (.addPiece (Node.addPieces none (path.map PathSegment.piece)) segment.piece) := by
  rw [Node.addPieces, List.map_append, List.foldl_append]
  rfl

/-- What a path spells and binds as a scope: all its markers agree, and all its arguments mean types. -/
theorem outerScope?_addPieces {outer : Option Text} {bound : List TypeExpr} :
    catalog.outerScope? bindings (Node.addPieces none (path.map PathSegment.piece)) =
        some (outer, bound) ↔
      (∀ segment ∈ path, segment.Agrees) ∧
        catalog.resolveAll bindings (path.flatMap PathSegment.arguments) = some bound ∧
          outer = outerName path := by
  -- On the path from its end, since the last segment is outermost in the tree.
  induction path using List.reverseRecOn generalizing outer bound with
  | nil =>
    show some (none, []) = some (outer, bound) ↔ _
    simp [resolveAll, outerName, eq_comm, and_comm]
  | append_singleton path segment ih =>
    rw [addPieces_concat, outerScope?]
    simp only [Option.map_eq_some_iff, Prod.exists, Prod.mk.injEq, resolveScope_addPiece, ih,
      List.flatMap_append, List.flatMap_singleton, resolveAll_append_eq_some_iff,
      List.forall_mem_append, List.forall_mem_singleton]
    have hname : outerName (path ++ [segment]) =
        some (scopeBefore (outerName path) ++ segment.name) := by
      rw [outerName, if_neg (List.append_ne_nil_of_right_ne_nil _ (List.cons_ne_nil _ _)),
        pathName_concat]
    rw [hname]
    constructor
    · rintro ⟨_, _, ⟨hagrees, _, first, second, ⟨hall, hfirst, rfl⟩, hsecond, rfl, rfl⟩, rfl, rfl⟩
      exact ⟨⟨hall, hagrees⟩, ⟨first, second, hfirst, hsecond, rfl⟩, rfl⟩
    · rintro ⟨⟨hall, hagrees⟩, ⟨first, second, hfirst, hsecond, rfl⟩, rfl⟩
      exact ⟨_, _, ⟨hagrees, _, first, second, ⟨hall, hfirst, rfl⟩, hsecond, rfl, rfl⟩, rfl, rfl⟩

theorem ofPath_concat (path : List PathSegment) (segment : PathSegment) :
    Node.ofPath (path ++ [segment]) =
      .addPiece (Node.addPieces none (path.map PathSegment.piece)) segment.piece := by
  rw [Node.ofPath, Node.ofPieces, addPieces_concat, Option.getD_some]

/-- A path means the type of its name, closed over all its arguments. -/
theorem resolveType_ofPath (hne : path ≠ []) {type : TypeExpr} :
    catalog.resolveType bindings (.ofPath path) = some type ↔
      (∀ segment ∈ path, segment.Agrees) ∧ ∃ own,
        catalog.resolveAll bindings (path.flatMap PathSegment.arguments) = some own ∧
          ∃ id, catalog.typeNamed? (pathName path) = some id ∧ catalog.close? id own = some type := by
  have hscope : ∀ name own, catalog.resolveScope bindings (.ofPath path) = some (name, own) ↔
      (∀ segment ∈ path, segment.Agrees) ∧
        catalog.resolveAll bindings (path.flatMap PathSegment.arguments) = some own ∧
          name = pathName path := by
    intro name own
    have houter : catalog.outerScope? bindings (Node.addPieces none (path.map PathSegment.piece)) =
        some (some name, own) ↔ _ := outerScope?_addPieces
    rw [Node.addPieces_ofPieces (by rwa [Ne, List.map_eq_nil_iff]), outerName, if_neg hne] at houter
    simpa [outerScope?, Node.ofPath] using houter
  obtain rfl | ⟨front, last, rfl⟩ := List.eq_nil_or_concat path
  · exact absurd rfl hne
  · rw [List.concat_eq_append] at hscope ⊢
    rw [ofPath_concat] at hscope ⊢
    simp only [resolveType_addPiece, hscope]
    constructor
    · rintro ⟨_, own, ⟨hagrees, hown, rfl⟩, hmeans⟩
      exact ⟨hagrees, own, hown, hmeans⟩
    · rintro ⟨hagrees, own, hown, hmeans⟩
      exact ⟨_, own, ⟨hagrees, hown, rfl⟩, hmeans⟩

theorem close?_eq_some_iff {id : TypeId} {arguments : List TypeExpr} {type : TypeExpr} :
    catalog.close? id arguments = some type ↔ arguments = [] ∧ type = .named id ∨
      arguments ≠ [] ∧ arguments.length = catalog.genericArity id ∧ type = .generic id arguments := by
  rw [close?]
  by_cases hnil : arguments = []
  · simp [hnil, eq_comm]
  · by_cases hlength : catalog.genericArity id = arguments.length
    · simp [hnil, hlength, eq_comm]
    · simp [hnil, hlength, Ne.symm hlength]

/-- In a catalog that is read from a text, a path is resolved exactly if the markers that stand before
arguments state their numbers, all arguments are resolved, there is a type with the name that the path
rebuilds, and the arguments, if there are any, are as many in all as that type's parameters. It means
that type, closed over the arguments of the outer segments first. -/
theorem resolveType_path {document : Text} (h : ofText document = .ok catalog) (bindings : Bindings)
    {path : List PathSegment} (hne : path ≠ []) (type : TypeExpr) :
    catalog.resolveType bindings (.ofPath path) = some type ↔
      (∀ segment ∈ path, segment.Agrees) ∧ ∃ own,
        List.Forall₂ (fun node type => catalog.resolveType bindings node = some type)
          (path.flatMap PathSegment.arguments) own ∧
        ∃ id definition, catalog.typeDef? id = some definition ∧ definition.name = pathName path ∧
          ((∀ segment ∈ path, segment.arguments = []) ∧ type = .named id ∨
            (∃ segment ∈ path, segment.arguments ≠ []) ∧
              (path.map fun segment => segment.arguments.length).sum =
                definition.genericParams.length ∧ type = .generic id own) := by
  have hnamed : ∀ id, catalog.typeNamed? (pathName path) = some id ↔
      ∃ definition, catalog.typeDef? id = some definition ∧ definition.name = pathName path := by
    intro id
    constructor
    · exact typeDef?_of_typeNamed?
    · rintro ⟨definition, hdefinition, hname⟩
      rw [← hname]
      exact typeNamed?_name (ofText_loaded h).names_nodup hdefinition
  rw [resolveType_ofPath hne]
  simp only [resolveAll_eq_some_iff, hnamed, close?_eq_some_iff]
  refine and_congr_right fun _ => exists_congr fun own => and_congr_right fun hown => ?_
  have hlength : own.length = (path.map fun segment => segment.arguments.length).sum := by
    rw [← hown.length_eq, List.length_flatMap]
  have hnil : own = [] ↔ ∀ segment ∈ path, segment.arguments = [] := by
    rw [← List.length_eq_zero_iff, ← hown.length_eq, List.length_eq_zero_iff, List.flatMap_eq_nil_iff]
  have harity : ∀ {id definition}, catalog.typeDef? id = some definition →
      catalog.genericArity id = definition.genericParams.length :=
    fun hdefinition => genericArity_eq (arity?_eq_some hdefinition)
  have hsome : own ≠ [] ↔ ∃ segment ∈ path, segment.arguments ≠ [] := by
    rw [Ne, hnil]
    simp only [not_forall, exists_prop, ne_eq]
  rw [← hlength, ← hnil, ← hsome]
  constructor
  · rintro ⟨id, ⟨definition, hdefinition, hname⟩, hclosed⟩
    rw [harity hdefinition] at hclosed
    exact ⟨id, definition, hdefinition, hname, hclosed⟩
  · rintro ⟨id, definition, hdefinition, hname, hclosed⟩
    rw [← harity hdefinition] at hclosed
    exact ⟨id, ⟨definition, hdefinition, hname⟩, hclosed⟩

end Paths

/-- A generic type within a generic type. -/
def nestedGenerics : Catalog :=
  ⟨[⟨['A'], [], none, []⟩, ⟨['B', tick, '1', '.', 'C', tick, '2'], [['T'], ['U'], ['V']], none, []⟩], []⟩

theorem ofText_nestedGenerics :
    ofText (("[[types]]\nname='A'\n" ++
      "[[types]]\nname='B`1+C`2'\ngeneric_params=['T', 'U', 'V']\n").toList) = .ok nestedGenerics :=
  eq_ok_of_toOption (by decide +kernel)

theorem nestedStems_isIdentifier : Text.IsIdentifier ['B'] ∧ Text.IsIdentifier ['C'] :=
  ⟨⟨'B', [], rfl, by decide +kernel, by simp⟩, ⟨'C', [], rfl, by decide +kernel, by simp⟩⟩

/-- `C` in `B`, closed over arguments for both, with a marker on the outer one. -/
def closedNested : List PathSegment :=
  [⟨['B'], some 1, [.root ['A']], nestedStems_isIdentifier.1, by decide⟩,
    ⟨['C'], none, [.root ['A'], .pointer (.root ['A'])], nestedStems_isIdentifier.2, by decide⟩]

/-- The path rebuilds the name of the nested type, and gathers three arguments for it. -/
theorem resolveType_path_closedNested :
    pathName closedNested = "B`1.C`2".toList ∧
      nestedGenerics.resolveType .none (.ofPath closedNested) =
        some (.generic ⟨1⟩ [.named ⟨0⟩, .named ⟨0⟩, .pointer (.named ⟨0⟩)]) := by
  have hname : pathName closedNested = "B`1.C`2".toList := by decide +kernel
  have hagrees : ∀ segment ∈ closedNested, segment.Agrees := by
    simp [closedNested, PathSegment.Agrees]
  have hown : List.Forall₂ (fun node type => nestedGenerics.resolveType .none node = some type)
      (closedNested.flatMap PathSegment.arguments)
      [.named ⟨0⟩, .named ⟨0⟩, .pointer (.named ⟨0⟩)] :=
    resolveAll_eq_some_iff.mp (by decide +kernel)
  refine ⟨hname, (resolveType_path ofText_nestedGenerics .none (List.cons_ne_nil _ _) _).mpr
    ⟨hagrees, _, hown, ⟨1⟩, _, rfl, hname.symm, .inr ⟨?_, rfl, rfl⟩⟩⟩
  exact ⟨_, List.mem_cons_self, List.cons_ne_nil _ _⟩

end Catalog

end DocRef

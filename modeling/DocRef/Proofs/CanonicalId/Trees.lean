import DocRef.Proofs.CanonicalId.Pieces

/-!
The trees of types (`typeNode`). The text of a type is the written form of its tree
(`typeText_eq_written`), the tree is well formed (`typeNode_wellFormed`), and it is resolved to the type
itself (`resolveType_typeNode`), but for the ranks of arrays, which are not written, and for the
parameters, which are read as those of the declaration around the text.
-/

namespace DocRef

/-- The tree of a parameter: its place in its owner's list. -/
def GenericParam.node (param : GenericParam) : Node :=
  match param.owner with
  | .type _ => .typeParam param.position
  | .method _ => .methodParam param.position

theorem GenericParam.node_written (param : GenericParam) : param.node.written = param.positional := by
  obtain ⟨owner, position⟩ := param
  cases owner <;> rfl

theorem GenericParam.node_wellFormed {param : GenericParam} (h : param.position ≤ Lexeme.maxNumber) :
    param.node.WellFormedType ∧ param.node.isElement := by
  obtain ⟨owner, position⟩ := param
  cases owner <;> exact ⟨⟨trivial, h⟩, rfl⟩

namespace Catalog

/-- The segments of a type's full name. -/
def segmentsOf (catalog : Catalog) (id : TypeId) : List Text :=
  Text.split '.' (((catalog.typeDef? id).map (·.name)).getD [])

/-- The tree of a type's full name, as it stands. -/
def nameNode (catalog : Catalog) (id : TypeId) : Node :=
  .ofPieces (openPieces (catalog.segmentsOf id))

mutual

/-- The tree of a type. Arrays are written without their dimensions. -/
def typeNode (catalog : Catalog) : TypeExpr → Node
  | .named id => catalog.nameNode id
  | .generic definition arguments =>
    .ofPieces (spread (catalog.segmentsOf definition) (catalog.typeNodes arguments))
  | .array element _ => .array (catalog.typeNode element) 1
  | .byRef target => .byRef (catalog.typeNode target)
  | .pointer target => .pointer (catalog.typeNode target)
  | .param param => param.node

/-- The trees of several types. -/
def typeNodes (catalog : Catalog) : List TypeExpr → List Node
  | [] => []
  | type :: types => catalog.typeNode type :: catalog.typeNodes types

end

/-- Whether the names of all types are made of segments. -/
def NamesRegular (catalog : Catalog) : Prop :=
  ∀ type ∈ catalog.types, ∀ segment ∈ type.name.split '.', segment.IsSegment

section Trees

variable {catalog : Catalog}

theorem typeNodes_eq_map (types : List TypeExpr) :
    catalog.typeNodes types = types.map catalog.typeNode := by
  induction types with
  | nil => rfl
  | cons type types ih => rw [typeNodes, ih, List.map_cons]

theorem segmentsOf_eq {id : TypeId} {type : TypeDef} (h : catalog.typeDef? id = some type) :
    catalog.segmentsOf id = type.name.split '.' := by
  rw [segmentsOf, h, Option.map_some, Option.getD_some]

theorem segmentsOf_ne_nil (id : TypeId) : catalog.segmentsOf id ≠ [] :=
  Text.split_ne_nil _ _

theorem NamesRegular.isSegment (h : catalog.NamesRegular) {id : TypeId} {type : TypeDef}
    (htype : catalog.typeDef? id = some type) :
    ∀ segment ∈ catalog.segmentsOf id, segment.IsSegment := by
  rw [segmentsOf_eq htype]
  exact h type (List.mem_of_getElem? htype)

theorem openPieces_ne_nil (id : TypeId) : openPieces (catalog.segmentsOf id) ≠ [] :=
  fun h => segmentsOf_ne_nil id (List.map_eq_nil_iff.mp h)

theorem nameNode_written {id : TypeId} {type : TypeDef} (h : catalog.typeDef? id = some type) :
    (catalog.nameNode id).written = type.name := by
  rw [nameNode, Node.written_ofPieces (openPieces_ne_nil id), openPieces, List.map_map]
  show Text.join '.' ((catalog.segmentsOf id).map fun segment => segment) = type.name
  rw [List.map_id', segmentsOf_eq h, Text.join_split]

/-- The text of a type is the written form of its tree. -/
theorem typeText_eq_written (hloaded : catalog.Loaded) (hbounded : catalog.ListsBounded)
    {owns : GenericParam → Prop} {paramText : GenericParam → Except Inconsistency Text}
    (hparams : ∀ param, owns param → paramText param = .ok param.positional) {type : TypeExpr}
    (h : type.WellScoped catalog.arity? owns) :
    catalog.typeText paramText type = .ok (catalog.typeNode type).written := by
  induction h with
  | named harity =>
    obtain ⟨type, htype, -⟩ := typeDef?_of_arity? harity
    rw [typeText, typeName_eq htype, typeNode, nameNode_written htype]
  | @generic definition arguments _ harity _ ih =>
    obtain ⟨type, htype, hcount⟩ := typeDef?_of_arity? harity
    have htexts : arguments.map (catalog.typeText paramText) =
        ((catalog.typeNodes arguments).map Node.written).map .ok := by
      rw [typeNodes_eq_map, List.map_map, List.map_map]
      exact List.map_congr_left ih
    rw [typeText_generic hloaded hbounded htype hcount htexts, typeNode,
      Node.written_ofPieces (spread_ne_nil (segmentsOf_ne_nil definition) _), spread_map,
      List.map_map, segmentsOf_eq htype]
    rfl
  | array _ ih =>
    rw [typeText, ih, typeNode, Node.written]
    rfl
  | byRef _ ih =>
    rw [typeText, ih, typeNode, Node.written]
    rfl
  | pointer _ ih =>
    rw [typeText, ih, typeNode, Node.written]
    rfl
  | param hparam => rw [typeText, hparams _ hparam, typeNode, GenericParam.node_written]

theorem isElement_of_isScope {node : Node} (h : node.isScope) : node.isElement := by
  cases node <;> first | rfl | cases h

theorem nameNode_wellFormed (hregular : catalog.NamesRegular) {id : TypeId} {type : TypeDef}
    (h : catalog.typeDef? id = some type) :
    (catalog.nameNode id).WellFormedType ∧ (catalog.nameNode id).isScope := by
  refine Node.ofPieces_wellFormed (openPieces_ne_nil id) (openPieces_fit (hregular.isSegment h)) ?_
  rw [openPieces_arguments]
  exact nofun

theorem nameNode_isMember (id : TypeId) : (catalog.nameNode id).IsMember := by
  have hpieces : ∀ (segments : List Text) (scope : Option Node), (∀ node ∈ scope, node.IsMember) →
      ∀ node ∈ Node.addPieces scope (openPieces segments), node.IsMember := by
    intro segments
    induction segments with
    | nil => exact fun scope hscope => hscope
    | cons segment segments ih =>
      intro scope hscope
      refine ih (some (Node.segment scope segment)) ?_
      rintro node hnode
      cases hnode
      cases scope with
      | none => trivial
      | some node => exact hscope node rfl
  exact hpieces _ none nofun _ (Node.addPieces_ofPieces (openPieces_ne_nil id))

theorem spread_segmentsOf (hloaded : catalog.Loaded) (hbounded : catalog.ListsBounded)
    (hregular : catalog.NamesRegular) {definition : TypeId} {arguments : List TypeExpr}
    (harity : catalog.arity? definition = some arguments.length) :
    List.Forall₂ PieceFits (catalog.segmentsOf definition)
        (spread (catalog.segmentsOf definition) (catalog.typeNodes arguments)) ∧
      (spread (catalog.segmentsOf definition) (catalog.typeNodes arguments)).flatMap pieceArguments =
        catalog.typeNodes arguments := by
  obtain ⟨type, htype, hcount⟩ := typeDef?_of_arity? harity
  refine spread_fit (hregular.isSegment htype) ?_
  rw [segmentsOf_eq htype, hloaded.aritySum_name hbounded htype, hcount, typeNodes_eq_map,
    List.length_map]

/-- The tree of a type is well formed, and suffixes may follow if they may follow the type. -/
theorem typeNode_wellFormed (hloaded : catalog.Loaded) (hbounded : catalog.ListsBounded)
    (hregular : catalog.NamesRegular) {owns : GenericParam → Prop}
    (hparams : ∀ param, owns param → param.position ≤ Lexeme.maxNumber) {type : TypeExpr}
    (h : type.WellScoped catalog.arity? owns) (horder : type.InOrder) :
    (catalog.typeNode type).WellFormedType ∧
      (type.isElement → (catalog.typeNode type).isElement) := by
  induction h with
  | named harity =>
    obtain ⟨type, htype, -⟩ := typeDef?_of_arity? harity
    obtain ⟨hwellFormed, hscope⟩ := nameNode_wellFormed hregular htype
    exact ⟨hwellFormed, fun _ => isElement_of_isScope hscope⟩
  | @generic definition arguments _ harity _ ih =>
    cases horder with
    | generic harguments =>
      obtain ⟨hfit, hall⟩ := spread_segmentsOf hloaded hbounded hregular harity
      have hnodes : ∀ node ∈ (spread (catalog.segmentsOf definition)
          (catalog.typeNodes arguments)).flatMap pieceArguments, node.WellFormedType := by
        rw [hall, typeNodes_eq_map]
        intro node hnode
        obtain ⟨type, htype, rfl⟩ := List.mem_map.mp hnode
        exact (ih type htype (harguments type htype)).1
      obtain ⟨hwellFormed, hscope⟩ := Node.ofPieces_wellFormed
        (spread_ne_nil (segmentsOf_ne_nil definition) _) hfit hnodes
      exact ⟨hwellFormed, fun _ => isElement_of_isScope hscope⟩
  | array _ ih =>
    cases horder with
    | array helement hsuffix =>
      obtain ⟨⟨htype, hwritable⟩, hnode⟩ := ih helement
      exact ⟨⟨⟨htype, hnode hsuffix⟩, hwritable, Nat.le_refl 1, by decide⟩, fun _ => rfl⟩
  | byRef _ ih =>
    cases horder with
    | byRef htarget hsuffix =>
      obtain ⟨⟨htype, hwritable⟩, hnode⟩ := ih htarget
      exact ⟨⟨⟨htype, hnode hsuffix⟩, hwritable⟩, fun hmark => absurd hmark Bool.false_ne_true⟩
  | pointer _ ih =>
    cases horder with
    | pointer htarget hsuffix =>
      obtain ⟨⟨htype, hwritable⟩, hnode⟩ := ih htarget
      exact ⟨⟨⟨htype, hnode hsuffix⟩, hwritable⟩, fun hmark => absurd hmark Bool.false_ne_true⟩
  | param hparam =>
    obtain ⟨hwellFormed, helement⟩ := GenericParam.node_wellFormed (hparams _ hparam)
    exact ⟨hwellFormed, fun _ => helement⟩

section Resolution

variable {bindings : Bindings}

/-- A full name is resolved to its type, left open. -/
theorem resolveType_nameNode (hloaded : catalog.Loaded) (hregular : catalog.NamesRegular)
    {id : TypeId} {type : TypeDef} (h : catalog.typeDef? id = some type) :
    catalog.resolveType bindings (catalog.nameNode id) = some (.named id) := by
  have hfit := openPieces_fit (hregular.isSegment h)
  have hown : catalog.resolveAll bindings
      ((openPieces (catalog.segmentsOf id)).flatMap pieceArguments) = some [] := by
    rw [openPieces_arguments, resolveAll]
  rw [nameNode, resolveType_ofPieces (openPieces_ne_nil id) hfit hown, segmentsOf_eq h,
    Text.join_split, typeNamed?_name hloaded.names_nodup h]
  rfl

theorem resolveAll_map {types : List TypeExpr} {meaning : TypeExpr → TypeExpr}
    (h : ∀ type ∈ types, catalog.resolveType bindings (catalog.typeNode type) = some (meaning type)) :
    catalog.resolveAll bindings (catalog.typeNodes types) = some (types.map meaning) := by
  induction types with
  | nil => rfl
  | cons type types ih =>
    rw [typeNodes]
    show (catalog.resolveType bindings (catalog.typeNode type)).bind _ = _
    rw [h type List.mem_cons_self, ih fun other hother => h other (List.mem_cons_of_mem _ hother)]
    rfl

/-- The tree of a type is resolved to the type, with the parameters that the bindings give. -/
theorem resolveType_typeNode (hloaded : catalog.Loaded) (hbounded : catalog.ListsBounded)
    (hregular : catalog.NamesRegular) {owns : GenericParam → Prop}
    {onParam : GenericParam → GenericParam}
    (hparams : ∀ param, owns param →
      catalog.resolveType bindings param.node = some (.param (onParam param))) {type : TypeExpr}
    (h : type.WellScoped catalog.arity? owns) :
    catalog.resolveType bindings (catalog.typeNode type) =
      some (type.map onParam TypeExpr.readRank) := by
  induction h with
  | named harity =>
    obtain ⟨type, htype, -⟩ := typeDef?_of_arity? harity
    rw [typeNode, resolveType_nameNode hloaded hregular htype]
    rfl
  | @generic definition arguments hne harity _ ih =>
    obtain ⟨type, htype, hcount⟩ := typeDef?_of_arity? harity
    obtain ⟨hfit, hall⟩ := spread_segmentsOf hloaded hbounded hregular harity
    have hown := resolveAll_map ih
    rw [← hall] at hown
    rw [typeNode, resolveType_ofPieces (spread_ne_nil (segmentsOf_ne_nil definition) _) hfit hown,
      segmentsOf_eq htype, Text.join_split, typeNamed?_name hloaded.names_nodup htype,
      Option.bind_some, close?, if_neg (by rwa [List.map_eq_nil_iff]), List.length_map,
      if_pos (genericArity_eq harity), TypeExpr.map, TypeExpr.mapAll_eq]
  | array _ ih =>
    rw [typeNode, resolveType, ih]
    rfl
  | byRef _ ih =>
    rw [typeNode, resolveType, ih]
    rfl
  | pointer _ ih =>
    rw [typeNode, resolveType, ih]
    rfl
  | param hparam =>
    rw [typeNode, hparams _ hparam]
    rfl

end Resolution

end Trees

end Catalog

end DocRef

import DocRef.Proofs.Grammar
import DocRef.Proofs.Token.Lexing

/-!
The trees that references are read as. `Node.IsType` and `Node.IsReference` say which trees have the
shape of the grammar, and `Node.tokens` says which tokens a tree stands for. The derivations of the
grammar and the trees of these shapes determine each other (`derive_node`, `node_derive` and
`node_deriveReference`), and tokens agree (`node_tokens`).
-/

namespace DocRef

namespace Node

/-- Whether a tree is a segment without arguments, so that arguments may follow. -/
def isSegment : Node → Bool
  | .root _ | .child .. => true
  | _ => false

/-- Whether a tree is a chain of segments, so that a further segment may follow. -/
def isScope : Node → Bool
  | .root _ | .child .. | .closed .. => true
  | _ => false

/-- Whether array suffixes and a mark may follow. -/
def isElement : Node → Bool
  | .byRef _ | .pointer _ | .method .. => false
  | _ => true

mutual

/-- Whether a tree has the shape of a type: arguments stand after a name and there is at least one,
and a by-ref type or a pointer is no part of a larger type but its argument. -/
def IsType : Node → Prop
  | .root _ | .typeParam _ | .methodParam _ => True
  | .child scope _ => scope.IsType ∧ scope.isScope
  | .closed generic arguments =>
    generic.IsType ∧ generic.isSegment ∧ arguments ≠ [] ∧ AllTypes arguments
  | .array element _ => element.IsType ∧ element.isElement
  | .byRef target | .pointer target => target.IsType ∧ target.isElement
  | .method .. => False

/-- Whether all trees have the shape of a type. -/
def AllTypes : List Node → Prop
  | [] => True
  | node :: nodes => node.IsType ∧ AllTypes nodes

end

/-- Whether a tree is a dotted name without arguments. -/
def IsMember : Node → Prop
  | .root _ => True
  | .child scope _ => scope.IsMember
  | _ => False

/-- Whether a tree has the shape of a reference: a dotted name, alone or with a parameter list. -/
def IsReference : Node → Prop
  | .method member parameters returns =>
    member.IsMember ∧ AllTypes parameters ∧ ∀ type ∈ returns, type.IsType
  | node => node.IsMember

mutual

/-- The tokens of a tree. -/
def tokens : Node → List Token
  | .root text => [.name text]
  | .child scope text => scope.tokens ++ [.dot, .name text]
  | .closed generic arguments =>
    generic.tokens ++ .openBrace :: tokensAll arguments ++ [.closeBrace]
  | .array element rank => element.tokens ++ [.arraySuffix rank]
  | .byRef target => target.tokens ++ [.byRefMark]
  | .pointer target => target.tokens ++ [.pointerMark]
  | .typeParam position => [.typeParam position]
  | .methodParam position => [.methodParam position]
  | .method member parameters returns =>
    member.tokens ++ .openParen :: tokensAll parameters ++ .closeParen :: tokensReturn returns

/-- The tokens of several trees with commas between them. -/
def tokensAll : List Node → List Token
  | [] => []
  | node :: nodes => node.tokens ++ tokensAfter nodes

/-- The tokens of several trees, each after a comma. -/
def tokensAfter : List Node → List Token
  | [] => []
  | node :: nodes => .comma :: node.tokens ++ tokensAfter nodes

/-- The tokens of a return type. -/
def tokensReturn : Option Node → List Token
  | none => []
  | some node => .tilde :: node.tokens

end

theorem allTypes_append (nodes others : List Node) :
    AllTypes (nodes ++ others) ↔ AllTypes nodes ∧ AllTypes others := by
  induction nodes with
  | nil => simp [AllTypes]
  | cons node nodes ih => simp [AllTypes, ih, and_assoc]

theorem IsMember.isSegment {node : Node} (h : node.IsMember) : node.isSegment := by
  cases node <;> first | rfl | exact False.elim h

theorem isScope_of_isSegment {node : Node} (h : node.isSegment) : node.isScope := by
  cases node <;> first | rfl | simp [Node.isSegment] at h

theorem IsMember.isReference {node : Node} (h : node.IsMember) : node.IsReference := by
  cases node <;> first | exact h | exact False.elim h

end Node

/-- A tree begins with a name or a parameter. -/
theorem Node.tokens_eq_cons : (node : Node) →
    ∃ token tokens, node.tokens = token :: tokens ∧ token.isWord
  | .root _ | .typeParam _ | .methodParam _ => ⟨_, _, rfl, rfl⟩
  | .child node _ | .closed node _ | .array node _ | .byRef node | .pointer node
  | .method node _ _ => by
    obtain ⟨token, tokens, hnode, hword⟩ := node.tokens_eq_cons
    exact ⟨token, _, by rw [Node.tokens, hnode]; rfl, hword⟩

/-! ### Trees of derivations -/

theorem isType_arrays (ranks : List Nat) {node : Node} (htype : node.IsType)
    (helement : node.isElement) :
    (ranks.foldl .array node).IsType ∧ (ranks.foldl .array node).isElement := by
  induction ranks generalizing node with
  | nil => exact ⟨htype, helement⟩
  | cons rank ranks ih => exact ih ⟨htype, helement⟩ rfl

theorem tokens_arrays (ranks : List Nat) (node : Node) :
    (ranks.foldl .array node).tokens = node.tokens ++ ranks.map .arraySuffix := by
  induction ranks generalizing node with
  | nil => simp
  | cons rank ranks ih => simp [ih, Node.tokens]

theorem isSegment_segment (scope : Option Node) (name : Text) :
    (Node.segment scope name).isSegment := by
  cases scope <;> rfl

theorem isType_segment {scope : Option Node} (name : Text)
    (hscope : ∀ node ∈ scope, node.IsType ∧ node.isScope) : (Node.segment scope name).IsType := by
  cases scope with
  | none => trivial
  | some node => exact hscope node rfl

mutual

/-- What a derivation builds has the shape of a type. -/
theorem TypeDerivation.node_isType : (type : TypeDerivation) → type.node.IsType
  | .mk head ranks mark => by
    have hhead := head.node_isType
    have harrays := isType_arrays ranks hhead.1 hhead.2
    rcases mark with _ | _ | _
    · exact harrays.1
    · exact harrays
    · exact harrays

theorem HeadDerivation.node_isType : (head : HeadDerivation) →
    head.node.IsType ∧ head.node.isElement
  | .typeParam _ | .methodParam _ => ⟨trivial, rfl⟩
  | .chain first rest => by
    have hfirst := first.node_isType none (by simp)
    have hchain := SegmentDerivation.chainNode_isType rest _ hfirst.1 hfirst.2
    refine ⟨hchain.1, ?_⟩
    have hscope := hchain.2
    simp only [HeadDerivation.node]
    generalize SegmentDerivation.chainNode (first.node none) rest = node at hscope
    cases node <;> first | rfl | simp [Node.isScope] at hscope

theorem SegmentDerivation.node_isType : (segment : SegmentDerivation) → (scope : Option Node) →
    (∀ node ∈ scope, node.IsType ∧ node.isScope) →
    (segment.node scope).IsType ∧ (segment.node scope).isScope
  | .plain name, scope, hscope =>
    ⟨isType_segment name hscope, Node.isScope_of_isSegment (isSegment_segment scope name)⟩
  | .closed name first rest, scope, hscope =>
    ⟨⟨isType_segment name hscope, isSegment_segment scope name, List.cons_ne_nil _ _,
      first.node_isType, TypeDerivation.nodes_allTypes rest⟩, rfl⟩

theorem SegmentDerivation.chainNode_isType : (segments : List SegmentDerivation) →
    (scope : Node) → scope.IsType → scope.isScope →
    (SegmentDerivation.chainNode scope segments).IsType ∧
      (SegmentDerivation.chainNode scope segments).isScope
  | [], _, htype, hscope => ⟨htype, hscope⟩
  | segment :: segments, scope, htype, hscope => by
    have hsegment := segment.node_isType (some scope) (by simp [htype, hscope])
    exact SegmentDerivation.chainNode_isType segments _ hsegment.1 hsegment.2

theorem TypeDerivation.nodes_allTypes : (types : List TypeDerivation) →
    Node.AllTypes (TypeDerivation.nodes types)
  | [] => trivial
  | type :: types => ⟨type.node_isType, TypeDerivation.nodes_allTypes types⟩

end

theorem tokens_segment (scope : Option Node) (name : Text) :
    (Node.segment scope name).tokens =
      (scope.map fun node => node.tokens ++ [.dot]).getD [] ++ [.name name] := by
  cases scope <;> simp [Node.segment, Node.tokens]

mutual

/-- The tokens of a derivation are those of its tree. -/
theorem TypeDerivation.node_tokens : (type : TypeDerivation) → type.node.tokens = type.tokens
  | .mk head ranks mark => by
    have hhead := head.node_tokens
    rcases mark with _ | _ | _ <;>
      simp [TypeDerivation.node, TypeDerivation.tokens, TypeMark.wrap, TypeMark.token, Node.tokens,
        tokens_arrays, hhead]

theorem HeadDerivation.node_tokens : (head : HeadDerivation) → head.node.tokens = head.tokens
  | .typeParam _ | .methodParam _ => rfl
  | .chain first rest => by
    rw [HeadDerivation.node, SegmentDerivation.chainNode_tokens rest, first.node_tokens none]
    rfl

theorem SegmentDerivation.node_tokens : (segment : SegmentDerivation) → (scope : Option Node) →
    (segment.node scope).tokens =
      (scope.map fun node => node.tokens ++ [.dot]).getD [] ++ segment.tokens
  | .plain name, scope => tokens_segment scope name
  | .closed name first rest, scope => by
    simp [SegmentDerivation.node, SegmentDerivation.tokens, Node.tokens, Node.tokensAll,
      tokens_segment, first.node_tokens, TypeDerivation.nodes_tokens rest]

theorem SegmentDerivation.chainNode_tokens : (segments : List SegmentDerivation) →
    (scope : Node) → (SegmentDerivation.chainNode scope segments).tokens =
      scope.tokens ++ SegmentDerivation.tokensAfter segments
  | [], scope => by simp [SegmentDerivation.chainNode, SegmentDerivation.tokensAfter]
  | segment :: segments, scope => by
    rw [SegmentDerivation.chainNode, SegmentDerivation.chainNode_tokens segments,
      segment.node_tokens]
    simp [SegmentDerivation.tokensAfter]

theorem TypeDerivation.nodes_tokens : (types : List TypeDerivation) →
    Node.tokensAfter (TypeDerivation.nodes types) = TypeDerivation.tokensAfter types
  | [] => rfl
  | type :: types => by
    simp [TypeDerivation.nodes, Node.tokensAfter, TypeDerivation.tokensAfter, type.node_tokens,
      TypeDerivation.nodes_tokens types]

end

/-! ### Derivations of trees -/

namespace TypeDerivation

/-- Adds a segment to a chain. -/
def addSegment (segment : SegmentDerivation) : TypeDerivation → TypeDerivation
  | .mk (.chain first rest) ranks mark => .mk (.chain first (rest ++ [segment])) ranks mark
  | type => type

/-- Adds an array suffix. -/
def addRank (rank : Nat) : TypeDerivation → TypeDerivation
  | .mk head ranks mark => .mk head (ranks ++ [rank]) mark

/-- Adds the mark at the end. -/
def setMark (mark : TypeMark) : TypeDerivation → TypeDerivation
  | .mk head ranks _ => .mk head ranks (some mark)

end TypeDerivation

/-- The segment with a given name and given arguments. -/
def SegmentDerivation.ofArguments (name : Text) : List TypeDerivation → SegmentDerivation
  | [] => .plain name
  | first :: rest => .closed name first rest

mutual

/-- The derivation of a tree. -/
def Node.derive : Node → TypeDerivation
  | .root text => .mk (.chain (.plain text) []) [] none
  | .child scope text => scope.derive.addSegment (.plain text)
  | .closed (.root text) arguments =>
    .mk (.chain (.ofArguments text (deriveAll arguments)) []) [] none
  | .closed (.child scope text) arguments =>
    scope.derive.addSegment (.ofArguments text (deriveAll arguments))
  | .closed generic _ => generic.derive
  | .array element rank => element.derive.addRank rank
  | .byRef target => target.derive.setMark .byRef
  | .pointer target => target.derive.setMark .pointer
  | .typeParam position => .mk (.typeParam position) [] none
  | .methodParam position => .mk (.methodParam position) [] none
  | .method member _ _ => member.derive

/-- The derivations of several trees. -/
def Node.deriveAll : List Node → List TypeDerivation
  | [] => []
  | node :: nodes => node.derive :: Node.deriveAll nodes

end

namespace SegmentDerivation

theorem chainNode_append (scope : Node) (segments : List SegmentDerivation)
    (segment : SegmentDerivation) :
    chainNode scope (segments ++ [segment]) = segment.node (some (chainNode scope segments)) := by
  induction segments generalizing scope with
  | nil => rfl
  | cons first segments ih => exact ih _

theorem node_ofArguments (scope : Option Node) (name : Text) {types : List TypeDerivation}
    (h : types ≠ []) :
    (ofArguments name types).node scope =
      .closed (.segment scope name) (TypeDerivation.nodes types) := by
  cases types with
  | nil => exact absurd rfl h
  | cons first rest => rfl

end SegmentDerivation

/-- A tree that a further segment may follow derives from a chain without suffixes. -/
theorem Node.derive_of_isScope : {node : Node} → node.IsType → node.isScope →
    ∃ first rest, node.derive = .mk (.chain first rest) [] none
  | .root text, _, _ => ⟨.plain text, [], rfl⟩
  | .child scope text, htype, _ => by
    obtain ⟨first, rest, hderive⟩ := derive_of_isScope htype.1 htype.2
    exact ⟨first, rest ++ [.plain text], by rw [Node.derive, hderive]; rfl⟩
  | .closed (.root text) arguments, _, _ => ⟨.ofArguments text (deriveAll arguments), [], rfl⟩
  | .closed (.child scope text) arguments, htype, _ => by
    obtain ⟨first, rest, hderive⟩ := derive_of_isScope htype.1.1 htype.1.2
    exact ⟨first, rest ++ [.ofArguments text (deriveAll arguments)], by
      rw [Node.derive, hderive]; rfl⟩

/-- A tree that suffixes may follow derives from a type without a mark. -/
theorem Node.derive_of_isElement : {node : Node} → node.IsType → node.isElement →
    ∃ head ranks, node.derive = .mk head ranks none
  | .root _, _, _ | .typeParam _, _, _ | .methodParam _, _, _ => ⟨_, _, rfl⟩
  | .child .., htype, _ | .closed .., htype, _ => by
    obtain ⟨first, rest, hderive⟩ := derive_of_isScope htype rfl
    exact ⟨_, _, hderive⟩
  | .array element rank, htype, _ => by
    obtain ⟨head, ranks, hderive⟩ := derive_of_isElement htype.1 htype.2
    exact ⟨head, ranks ++ [rank], by rw [Node.derive, hderive]; rfl⟩

theorem Node.deriveAll_ne_nil {nodes : List Node} (h : nodes ≠ []) : deriveAll nodes ≠ [] := by
  cases nodes with
  | nil => exact absurd rfl h
  | cons node nodes => exact List.cons_ne_nil _ _

/-- A further segment is a further segment also of the tree. -/
theorem TypeDerivation.node_addSegment {scope : Node} (htype : scope.IsType)
    (hscope : scope.isScope) (hnode : scope.derive.node = scope) (segment : SegmentDerivation) :
    (scope.derive.addSegment segment).node = segment.node (some scope) := by
  obtain ⟨first, rest, hderive⟩ := Node.derive_of_isScope htype hscope
  rw [hderive] at hnode ⊢
  rw [addSegment]
  simp only [node, HeadDerivation.node, List.foldl_nil, Option.map_none, Option.getD_none]
    at hnode ⊢
  rw [SegmentDerivation.chainNode_append, hnode]

/-- A mark wraps the tree. -/
theorem TypeDerivation.node_setMark {element : Node} (htype : element.IsType)
    (helement : element.isElement) (hnode : element.derive.node = element) (mark : TypeMark) :
    (element.derive.setMark mark).node = mark.wrap element := by
  obtain ⟨head, ranks, hderive⟩ := Node.derive_of_isElement htype helement
  rw [hderive] at hnode ⊢
  simp only [node, Option.map_none, Option.getD_none] at hnode
  simp only [setMark, node, Option.map_some, Option.getD_some, hnode]

mutual

/-- The derivation of a tree in the shape of a type builds that tree. -/
theorem Node.node_derive : (node : Node) → node.IsType → node.derive.node = node
  | .root _, _ | .typeParam _, _ | .methodParam _, _ => rfl
  | .child scope text, htype =>
    TypeDerivation.node_addSegment htype.1 htype.2 (node_derive scope htype.1) (.plain text)
  | .closed (.root text) arguments, htype => by
    have harguments := nodes_deriveAll arguments htype.2.2.2
    have hnode := SegmentDerivation.node_ofArguments none text (deriveAll_ne_nil htype.2.2.1)
    rw [harguments] at hnode
    exact hnode
  | .closed (.child scope text) arguments, htype => by
    have harguments := nodes_deriveAll arguments htype.2.2.2
    have hnode :=
      SegmentDerivation.node_ofArguments (some scope) text (deriveAll_ne_nil htype.2.2.1)
    rw [harguments] at hnode
    rw [Node.derive, TypeDerivation.node_addSegment htype.1.1 htype.1.2
      (node_derive scope htype.1.1), hnode]
    rfl
  | .closed (.closed ..) _, htype | .closed (.array ..) _, htype | .closed (.byRef _) _, htype
  | .closed (.pointer _) _, htype | .closed (.typeParam _) _, htype
  | .closed (.methodParam _) _, htype | .closed (.method ..) _, htype => by
    exact absurd htype.2.1 Bool.false_ne_true
  | .array element rank, htype => by
    obtain ⟨head, ranks, hderive⟩ := derive_of_isElement htype.1 htype.2
    have hnode := node_derive element htype.1
    rw [hderive] at hnode
    simp only [TypeDerivation.node, Option.map_none, Option.getD_none] at hnode
    simp only [Node.derive, hderive, TypeDerivation.addRank, TypeDerivation.node, Option.map_none,
      Option.getD_none, List.foldl_append, List.foldl_cons, List.foldl_nil, hnode]
  | .byRef target, htype =>
    TypeDerivation.node_setMark htype.1 htype.2 (node_derive target htype.1) .byRef
  | .pointer target, htype =>
    TypeDerivation.node_setMark htype.1 htype.2 (node_derive target htype.1) .pointer

theorem Node.nodes_deriveAll : (nodes : List Node) → AllTypes nodes →
    TypeDerivation.nodes (deriveAll nodes) = nodes
  | [], _ => rfl
  | node :: nodes, htypes => by
    rw [deriveAll, TypeDerivation.nodes, node_derive node htypes.1, nodes_deriveAll nodes htypes.2]

end

theorem derive_arrays (ranks : List Nat) {node : Node} {head : HeadDerivation} {before : List Nat}
    (h : node.derive = .mk head before none) :
    (ranks.foldl .array node).derive = .mk head (before ++ ranks) none := by
  induction ranks generalizing node before with
  | nil => simpa using h
  | cons rank ranks ih =>
    have harray : (Node.array node rank).derive = .mk head (before ++ [rank]) none := by
      rw [Node.derive, h]
      rfl
    simpa using ih harray

mutual

/-- A derivation is the one of the tree it builds. -/
theorem TypeDerivation.derive_node : (type : TypeDerivation) → type.node.derive = type
  | .mk head ranks mark => by
    have harrays := derive_arrays ranks head.derive_node
    rcases mark with _ | _ | _ <;>
      simp [TypeDerivation.node, TypeMark.wrap, Node.derive, TypeDerivation.setMark, harrays]

theorem HeadDerivation.derive_node : (head : HeadDerivation) →
    head.node.derive = .mk head [] none
  | .typeParam _ | .methodParam _ => rfl
  | .chain first rest => SegmentDerivation.derive_chainNode rest first.derive_node_root

theorem SegmentDerivation.derive_node_root : (segment : SegmentDerivation) →
    (segment.node none).derive = .mk (.chain segment []) [] none
  | .plain _ => rfl
  | .closed name first rest => by
    have htypes := TypeDerivation.deriveAll_nodes rest
    simp [SegmentDerivation.node, Node.segment, Node.derive, Node.deriveAll, first.derive_node,
      htypes, SegmentDerivation.ofArguments]

theorem SegmentDerivation.derive_node_child : (segment : SegmentDerivation) → (scope : Node) →
    (segment.node (some scope)).derive = scope.derive.addSegment segment
  | .plain _, _ => rfl
  | .closed name first rest, scope => by
    have htypes := TypeDerivation.deriveAll_nodes rest
    simp [SegmentDerivation.node, Node.segment, Node.derive, Node.deriveAll, first.derive_node,
      htypes, SegmentDerivation.ofArguments]

theorem SegmentDerivation.derive_chainNode : (segments : List SegmentDerivation) →
    {scope : Node} → {first : SegmentDerivation} → {before : List SegmentDerivation} →
    scope.derive = .mk (.chain first before) [] none →
    (SegmentDerivation.chainNode scope segments).derive =
      .mk (.chain first (before ++ segments)) [] none
  | [], _, _, _, h => by simpa [SegmentDerivation.chainNode] using h
  | segment :: segments, scope, first, before, h => by
    have hsegment : (segment.node (some scope)).derive =
        .mk (.chain first (before ++ [segment])) [] none := by
      rw [segment.derive_node_child, h]
      rfl
    have hchain := SegmentDerivation.derive_chainNode segments hsegment
    simpa [SegmentDerivation.chainNode] using hchain

theorem TypeDerivation.deriveAll_nodes : (types : List TypeDerivation) →
    Node.deriveAll (TypeDerivation.nodes types) = types
  | [] => rfl
  | type :: types => by
    rw [TypeDerivation.nodes, Node.deriveAll, type.derive_node,
      TypeDerivation.deriveAll_nodes types]

end

/-! ### References -/

/-- The derivation of a dotted name. -/
def Node.deriveMember : Node → MemberDerivation
  | .root text => ⟨text, []⟩
  | .child scope text => ⟨scope.deriveMember.first, scope.deriveMember.rest ++ [text]⟩
  | _ => ⟨[], []⟩

/-- The derivation of a parameter list. -/
def Node.deriveParameters : List Node → Option (TypeDerivation × List TypeDerivation)
  | [] => none
  | node :: nodes => some (node.derive, deriveAll nodes)

/-- The derivation of a reference. -/
def Node.deriveReference : Node → ReferenceDerivation
  | .method member parameters returns =>
    ⟨member.deriveMember, some ⟨deriveParameters parameters, returns.map Node.derive⟩⟩
  | node => ⟨node.deriveMember, none⟩

namespace MemberDerivation

theorem isMember_children (names : List Text) {scope : Node} (h : scope.IsMember) :
    (names.foldl .child scope).IsMember := by
  induction names generalizing scope with
  | nil => exact h
  | cons name names ih => exact ih h

theorem tokens_children (names : List Text) (scope : Node) :
    (names.foldl .child scope).tokens =
      scope.tokens ++ names.flatMap fun name => [.dot, .name name] := by
  induction names generalizing scope with
  | nil => simp
  | cons name names ih => simp [ih, Node.tokens]

theorem deriveMember_children (names : List Text) (scope : Node) :
    (names.foldl .child scope).deriveMember =
      ⟨scope.deriveMember.first, scope.deriveMember.rest ++ names⟩ := by
  induction names generalizing scope with
  | nil => simp
  | cons name names ih => simp [ih, Node.deriveMember]

theorem node_isMember (member : MemberDerivation) : member.node.IsMember :=
  isMember_children member.rest trivial

theorem node_tokens (member : MemberDerivation) : member.node.tokens = member.tokens :=
  tokens_children member.rest (.root member.first)

theorem derive_node (member : MemberDerivation) : member.node.deriveMember = member :=
  deriveMember_children member.rest (.root member.first)

end MemberDerivation

theorem Node.node_deriveMember : {node : Node} → node.IsMember → node.deriveMember.node = node
  | .root _, _ => rfl
  | .child scope text, h => by
    have hscope : scope.deriveMember.node = scope := node_deriveMember h
    rw [MemberDerivation.node] at hscope
    rw [Node.deriveMember, MemberDerivation.node, List.foldl_append, hscope]
    rfl

namespace CallDerivation

theorem nodes_allTypes (parameters : Option (TypeDerivation × List TypeDerivation)) :
    Node.AllTypes (parameterNodes parameters) := by
  rcases parameters with _ | ⟨first, rest⟩
  · exact trivial
  · exact ⟨first.node_isType, TypeDerivation.nodes_allTypes rest⟩

theorem nodes_tokens (parameters : Option (TypeDerivation × List TypeDerivation)) :
    Node.tokensAll (parameterNodes parameters) = parameterTokens parameters := by
  rcases parameters with _ | ⟨first, rest⟩
  · rfl
  · simp [parameterNodes, parameterTokens, Node.tokensAll, first.node_tokens,
      TypeDerivation.nodes_tokens rest]

theorem derive_nodes (parameters : Option (TypeDerivation × List TypeDerivation)) :
    Node.deriveParameters (parameterNodes parameters) = parameters := by
  rcases parameters with _ | ⟨first, rest⟩
  · rfl
  · simp [parameterNodes, Node.deriveParameters, first.derive_node,
      TypeDerivation.deriveAll_nodes rest]

theorem nodes_derive {nodes : List Node} (h : Node.AllTypes nodes) :
    parameterNodes (Node.deriveParameters nodes) = nodes := by
  cases nodes with
  | nil => rfl
  | cons node nodes =>
    simp [parameterNodes, Node.deriveParameters, node.node_derive h.1, Node.nodes_deriveAll _ h.2]

end CallDerivation

namespace ReferenceDerivation

theorem node_isReference (reference : ReferenceDerivation) : reference.node.IsReference := by
  obtain ⟨member, _ | ⟨parameters, returns⟩⟩ := reference
  · exact member.node_isMember.isReference
  · refine ⟨member.node_isMember, CallDerivation.nodes_allTypes parameters, ?_⟩
    rintro node hnode
    obtain ⟨type, -, rfl⟩ := Option.map_eq_some_iff.mp hnode
    exact type.node_isType

theorem node_tokens (reference : ReferenceDerivation) :
    reference.node.tokens = reference.tokens := by
  obtain ⟨member, _ | ⟨parameters, returns⟩⟩ := reference
  · simp [node, tokens, member.node_tokens]
  · cases returns <;>
      simp [node, tokens, CallDerivation.tokens, Node.tokens, Node.tokensReturn,
        member.node_tokens, CallDerivation.nodes_tokens, TypeDerivation.node_tokens]

theorem derive_node (reference : ReferenceDerivation) :
    reference.node.deriveReference = reference := by
  obtain ⟨member, _ | ⟨parameters, returns⟩⟩ := reference
  · have hmember := member.node_isMember
    have hderive := member.derive_node
    simp only [node]
    generalize member.node = node at hmember hderive
    cases node <;> first | exact False.elim hmember | simp [Node.deriveReference, hderive]
  · have hreturns : returns.map (fun type => type.node.derive) = returns := by
      cases returns with
      | none => rfl
      | some type => rw [Option.map_some, type.derive_node]
    simp [node, Node.deriveReference, member.derive_node, CallDerivation.derive_nodes,
      Function.comp_def, hreturns]

end ReferenceDerivation

/-- The derivation of a tree in the shape of a reference builds that tree. -/
theorem Node.node_deriveReference {node : Node} (h : node.IsReference) :
    node.deriveReference.node = node := by
  cases node with
  | method member parameters returns =>
    obtain ⟨hmember, hparameters, hreturns⟩ := h
    simp only [deriveReference, ReferenceDerivation.node, node_deriveMember hmember,
      CallDerivation.nodes_derive hparameters]
    cases returns with
    | none => rfl
    | some type => simp [type.node_derive (hreturns type rfl)]
  | _ => exact node_deriveMember h

end DocRef

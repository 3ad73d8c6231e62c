import DocRef.Proofs.Grammar.Parsing

/-!
Written trees are read back. The written form of a tree is the spelling of its tokens (`written_eq`),
no two words among them stand next to each other (`isChain_tokens`), and they can all be written if
and only if the parts of the tree can (`writable_iff`). So a tree of the right shape whose parts can
be written is what its written form is read as, and reading gives no other trees.
-/

namespace DocRef

namespace Node

mutual

/-- Whether the parts of a tree can be written: its names are identifiers with their markers, its
arrays have a dimension, and its numbers fit 32 bits. -/
def Writable : Node → Prop
  | .root text => text.IsName
  | .child scope text => scope.Writable ∧ text.IsName
  | .closed generic arguments => generic.Writable ∧ AllWritable arguments
  | .array element rank => element.Writable ∧ 1 ≤ rank ∧ rank ≤ Lexeme.maxNumber
  | .byRef target | .pointer target => target.Writable
  | .typeParam position | .methodParam position => position ≤ Lexeme.maxNumber
  | .method member parameters returns =>
    member.Writable ∧ AllWritable parameters ∧ WritableReturn returns

/-- Whether the parts of all trees can be written. -/
def AllWritable : List Node → Prop
  | [] => True
  | node :: nodes => node.Writable ∧ AllWritable nodes

/-- Whether the parts of a return type can be written. -/
def WritableReturn : Option Node → Prop
  | none => True
  | some node => node.Writable

end

/-- A type that the grammar derives and that can be written. -/
def WellFormedType (node : Node) : Prop :=
  node.IsType ∧ node.Writable

end Node

/-- A reference that the grammar derives and that can be written. -/
def Reference.WellFormed (reference : Reference) : Prop :=
  reference.node.IsReference ∧ reference.node.Writable

/-! ### Written forms as spellings -/

namespace Node

mutual

/-- A tree is written as its tokens are spelled. -/
theorem written_eq : (node : Node) → node.written = node.tokens.flatMap Token.spelling
  | .root _ | .typeParam _ | .methodParam _ => by
    simp [written, tokens, Token.spelling]
  | .child scope _ => by
    simp [written, tokens, Token.spelling, written_eq scope]
  | .closed generic arguments => by
    simp [written, tokens, Token.spelling, written_eq generic, join_writtenAll arguments]
  | .array element _ => by
    simp [written, tokens, Token.spelling, written_eq element]
  | .byRef target | .pointer target => by
    simp [written, tokens, Token.spelling, written_eq target]
  | .method member parameters returns => by
    simp [written, tokens, Token.spelling, written_eq member, join_writtenAll parameters,
      writtenReturn_eq returns]

theorem join_writtenAll : (nodes : List Node) →
    Text.join ',' (writtenAll nodes) = (tokensAll nodes).flatMap Token.spelling
  | [] => rfl
  | node :: nodes => by
    simp [writtenAll, tokensAll, Text.join_cons, written_eq node, flatMap_writtenAll nodes]

theorem flatMap_writtenAll : (nodes : List Node) →
    (writtenAll nodes).flatMap (',' :: ·) = (tokensAfter nodes).flatMap Token.spelling
  | [] => rfl
  | node :: nodes => by
    simp [writtenAll, tokensAfter, Token.spelling, written_eq node, flatMap_writtenAll nodes]

theorem writtenReturn_eq : (returns : Option Node) →
    writtenReturn returns = (tokensReturn returns).flatMap Token.spelling
  | none => rfl
  | some node => by
    simp [writtenReturn, tokensReturn, Token.spelling, written_eq node]

end

mutual

/-- The parts of a tree can be written if and only if its tokens can. -/
theorem writable_iff : (node : Node) → (node.Writable ↔ ∀ token ∈ node.tokens, token.Writable)
  | .root _ | .typeParam _ | .methodParam _ => by
    simp [Writable, tokens, Token.Writable]
  | .child scope _ => by
    simp [Writable, tokens, Token.Writable, writable_iff scope, or_imp, forall_and]
  | .closed generic arguments => by
    simp [Writable, tokens, Token.Writable, writable_iff generic, allWritable_iff arguments,
      or_imp, forall_and]
  | .array element _ => by
    simp [Writable, tokens, Token.Writable, writable_iff element, or_imp, forall_and]
  | .byRef target | .pointer target => by
    simp [Writable, tokens, Token.Writable, writable_iff target, or_imp, forall_and]
  | .method member parameters returns => by
    simp [Writable, tokens, Token.Writable, writable_iff member, allWritable_iff parameters,
      writableReturn_iff returns, or_imp, forall_and]

theorem allWritable_iff : (nodes : List Node) →
    (AllWritable nodes ↔ ∀ token ∈ tokensAll nodes, token.Writable)
  | [] => by simp [AllWritable, tokensAll]
  | node :: nodes => by
    simp [AllWritable, tokensAll, writable_iff node, allWritable_iff_after nodes, or_imp,
      forall_and]

theorem allWritable_iff_after : (nodes : List Node) →
    (AllWritable nodes ↔ ∀ token ∈ tokensAfter nodes, token.Writable)
  | [] => by simp [AllWritable, tokensAfter]
  | node :: nodes => by
    simp [AllWritable, tokensAfter, Token.Writable, writable_iff node,
      allWritable_iff_after nodes, or_imp, forall_and]

theorem writableReturn_iff : (returns : Option Node) →
    (WritableReturn returns ↔ ∀ token ∈ tokensReturn returns, token.Writable)
  | none => by simp [WritableReturn, tokensReturn]
  | some node => by
    simp [WritableReturn, tokensReturn, Token.Writable, writable_iff node]

end

end Node

/-! ### Words stand apart -/

/-- Tokens keep their words apart where the second part begins with no word. -/
theorem Token.isChain_append {tokens others : List Token} (h : tokens.IsChain Apart)
    (hothers : others.IsChain Apart) (hhead : ∀ token ∈ others.head?, token.isWord = false) :
    (tokens ++ others).IsChain Apart :=
  List.isChain_append.mpr ⟨h, hothers, fun _ _ token htoken _ => hhead token htoken⟩

theorem Token.isChain_cons {token : Token} {tokens : List Token} (hword : token.isWord = false)
    (h : tokens.IsChain Apart) : (token :: tokens).IsChain Apart := by
  refine List.isChain_cons.mpr ⟨fun _ _ htoken => ?_, h⟩
  rw [hword] at htoken
  cases htoken

namespace Node

open Token (isChain_append isChain_cons)

theorem not_isWord_head_tokensAfter (nodes : List Node) :
    ∀ token ∈ (tokensAfter nodes).head?, token.isWord = false := by
  cases nodes with
  | nil => simp [tokensAfter]
  | cons node nodes => simp [tokensAfter, Token.isWord]

mutual

/-- In a tree, words stand apart. -/
theorem isChain_tokens : (node : Node) → node.tokens.IsChain Token.Apart
  | .root _ | .typeParam _ | .methodParam _ => List.isChain_singleton _
  | .child scope text => by
    have hname : [Token.dot, .name text].IsChain Token.Apart :=
      isChain_cons rfl (List.isChain_singleton _)
    exact isChain_append (isChain_tokens scope) hname (by simp [Token.isWord])
  | .closed generic arguments => by
    have harguments := isChain_append (isChain_tokensAll arguments)
      (List.isChain_singleton Token.closeBrace) (by simp [Token.isWord])
    rw [tokens, List.append_assoc]
    exact isChain_append (isChain_tokens generic) (isChain_cons rfl harguments)
      (by simp [Token.isWord])
  | .array element _ =>
    isChain_append (isChain_tokens element) (List.isChain_singleton _) (by simp [Token.isWord])
  | .byRef target | .pointer target =>
    isChain_append (isChain_tokens target) (List.isChain_singleton _) (by simp [Token.isWord])
  | .method member parameters returns => by
    have hreturns : (Token.closeParen :: tokensReturn returns).IsChain Token.Apart :=
      isChain_cons rfl (isChain_tokensReturn returns)
    have hparameters := isChain_append (isChain_tokensAll parameters) hreturns
      (by simp [Token.isWord])
    rw [tokens, List.append_assoc]
    exact isChain_append (isChain_tokens member) (isChain_cons rfl hparameters)
      (by simp [Token.isWord])

theorem isChain_tokensAll : (nodes : List Node) → (tokensAll nodes).IsChain Token.Apart
  | [] => List.isChain_nil
  | node :: nodes => isChain_append (isChain_tokens node) (isChain_tokensAfter nodes)
      (not_isWord_head_tokensAfter nodes)

theorem isChain_tokensAfter : (nodes : List Node) → (tokensAfter nodes).IsChain Token.Apart
  | [] => List.isChain_nil
  | node :: nodes => isChain_cons rfl (isChain_append (isChain_tokens node)
      (isChain_tokensAfter nodes) (not_isWord_head_tokensAfter nodes))

theorem isChain_tokensReturn : (returns : Option Node) →
    (tokensReturn returns).IsChain Token.Apart
  | none => List.isChain_nil
  | some node => isChain_cons rfl (isChain_tokens node)

end

/-- What is written for a tree cuts into its tokens. -/
theorem tokenizes_written {node : Node} (h : node.Writable) :
    node.written.Tokenizes node.tokens := by
  rw [written_eq]
  exact Text.tokenizes_spelling ((writable_iff node).mp h) (isChain_tokens node)

theorem parseType_written {node : Node} (h : node.WellFormedType) :
    parseType node.written = .ok node :=
  (parseType_eq_ok_iff node.written node).mpr ⟨h.1, tokenizes_written h.2⟩

end Node

theorem Reference.parse_written {reference : Reference} (h : reference.WellFormed) :
    parse reference.written = .ok reference := by
  refine (parse_eq_ok_iff reference.written reference.kind reference.node).mpr
    ⟨[], reference.node.written, by simp, ?_, h.1, Node.tokenizes_written h.2⟩
  rw [written]
  cases reference.kind <;> rfl

/-! ### What is read is well formed -/

theorem Text.Tokenizes.writable {text : Text} {tokens : List Token} (h : text.Tokenizes tokens) :
    ∀ token ∈ tokens, token.Writable := by
  obtain ⟨placed, hplaced, htokens⟩ := h
  obtain ⟨init, last, rfl, hwritable⟩ := tokensFrom_writable hplaced
  rw [List.map_append] at htokens
  obtain ⟨rfl, -⟩ := List.append_inj' htokens rfl
  rintro token htoken
  obtain ⟨placed, hmem, rfl⟩ := List.mem_map.mp htoken
  exact hwritable placed hmem

theorem Node.wellFormedType_of_parseType {text : Text} {node : Node}
    (h : parseType text = .ok node) : node.WellFormedType := by
  obtain ⟨htype, htokens⟩ := (parseType_eq_ok_iff text node).mp h
  exact ⟨htype, (writable_iff node).mpr htokens.writable⟩

theorem Reference.wellFormed_of_parse {text : Text} {reference : Reference}
    (h : parse text = .ok reference) : reference.WellFormed := by
  obtain ⟨_, _, -, -, hreference, htokens⟩ :=
    (parse_eq_ok_iff text reference.kind reference.node).mp h
  exact ⟨hreference, (Node.writable_iff reference.node).mpr htokens.writable⟩

/-- Writing and reading are inverse to each other on well-formed references and types: these are
read back from what is written, nothing else is ever read, and different ones are written
differently. So a text that is read, written and read again gives what it gave at first. -/
theorem parse_written_of_wellFormed :
    (∀ reference : Reference, reference.WellFormed →
      Reference.parse reference.written = .ok reference) ∧
    (∀ node : Node, node.WellFormedType → Node.parseType node.written = .ok node) ∧
    (∀ (text : Text) (reference : Reference), Reference.parse text = .ok reference →
      reference.WellFormed ∧ Reference.parse reference.written = .ok reference) ∧
    (∀ (text : Text) (node : Node), Node.parseType text = .ok node →
      node.WellFormedType ∧ Node.parseType node.written = .ok node) ∧
    (∀ reference other : Reference, reference.WellFormed → other.WellFormed →
      reference.written = other.written → reference = other) ∧
    (∀ node other : Node, node.WellFormedType → other.WellFormedType →
      node.written = other.written → node = other) := by
  refine ⟨fun _ => Reference.parse_written, fun _ => Node.parseType_written, ?_, ?_, ?_, ?_⟩
  · intro text reference h
    have hreference := Reference.wellFormed_of_parse h
    exact ⟨hreference, Reference.parse_written hreference⟩
  · intro text node h
    have hnode := Node.wellFormedType_of_parseType h
    exact ⟨hnode, Node.parseType_written hnode⟩
  · intro reference other h hother hwritten
    have hread := Reference.parse_written h
    rw [hwritten, Reference.parse_written hother] at hread
    exact (Except.ok.inj hread).symm
  · intro node other h hother hwritten
    have hread := Node.parseType_written h
    rw [hwritten, Node.parseType_written hother] at hread
    exact (Except.ok.inj hread).symm

/-- The reference ``M:A`1.B(`0[0:,0:])~C@`` is read back from its written form. -/
theorem parse_written_conversion :
    Reference.parse "M:A`1.B(`0[0:,0:])~C@".toList =
      .ok ⟨some .method, .method (.child (.root ['A', tick, '1']) ['B'])
        [.array (.typeParam 0) 2] (some (.byRef (.root ['C'])))⟩ := by
  have hA : Text.IsName ['A', tick, '1'] :=
    ⟨['A'], [tick, '1'], rfl, ⟨'A', [], rfl, by decide +kernel, by simp⟩,
      .inr ⟨['1'], by simp, List.forall_mem_singleton.mpr rfl, .inl rfl⟩⟩
  have hB : Text.IsName ['B'] := ⟨['B'], [], rfl, ⟨'B', [], rfl, by decide +kernel, by simp⟩, .inl rfl⟩
  have hC : Text.IsName ['C'] := ⟨['C'], [], rfl, ⟨'C', [], rfl, by decide +kernel, by simp⟩, .inl rfl⟩
  have hshape : Node.IsReference (.method (.child (.root ['A', tick, '1']) ['B'])
      [.array (.typeParam 0) 2] (some (.byRef (.root ['C'])))) := by
    refine ⟨trivial, ⟨⟨trivial, rfl⟩, trivial⟩, ?_⟩
    rintro type htype
    cases htype
    exact ⟨trivial, rfl⟩
  exact parse_written_of_wellFormed.1 ⟨some .method, _⟩
    ⟨hshape, ⟨hA, hB⟩, ⟨⟨Nat.zero_le _, by decide, by decide⟩, trivial⟩, hC⟩

end DocRef
